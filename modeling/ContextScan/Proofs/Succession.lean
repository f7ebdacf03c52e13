import ContextScan.Proofs.Exchange
import Mathlib.Data.List.Chain
/-!
# Proofs.Succession — which token can follow which

Some tokens are found only by looking at what comes after them: a name that is bound, the marker of a byte string, a
hat, a line ending inside a command.  They are read without it, so it is still there for the next request, whatever that
asks for.  `Owed` is what such a token leaves in the text; requests without a token leave it where it is, and the next
token has to begin with it.  So the grammar holds between any two tokens in a row, however many requests
lie between them (`Exchange.isChain`), and a scan that reads to the end owes nothing (`Course.nothing_owed`).
-/
namespace ContextScan

/-! ## How a token begins -/

/-- **The characters a token of a kind can begin with.** -/
def Kind.opens : Kind → Char → Bool
  | newline, c => c == '\n'
  | comma, c => c == ','
  | semicolon, c => c == ';'
  | closeParen, c => c == ')'
  | closeBrace, c => c == '\x7d'
  | closeBracket, c => c == ']'
  | closingList, c => c == '|'
  | namedParamEq, c | envEqual, c => c == '='
  | dollarExpansion, c => c == '$'
  | hatExpansion, c => c == '@'
  | byteStringMarker, c => c == 'b'
  | envVarName, c | constDeclVar, c => isIdentStart c
  | terminatorSentinel, _ | statementSentinel, _ | multilineCmdSentinel, _ | commaSentinel, _ | errorSentinel, _ => false

theorem Form.opens {options : Options} {k : Kind} {n : Nat} {c : Char} {r : List Char} (h : Form options k n (c :: r)) :
    k.opens c = true := by
  generalize hcs : c :: r = cs at h
  cases h with
  | punctuation r' h =>
    obtain ⟨rfl, -⟩ := List.cons.inj hcs
    rcases h.cases with ⟨rfl, rfl⟩ | ⟨rfl, rfl⟩ | ⟨rfl, rfl⟩ | ⟨rfl, rfl⟩ | ⟨rfl, rfl⟩ | ⟨rfl, rfl⟩ <;> rfl
  | envVarName r' h =>
    obtain ⟨d, name, rfl, hd, -⟩ := h
    obtain ⟨rfl, -⟩ := List.cons.inj hcs
    exact hd
  | constDeclVar r' h =>
    obtain ⟨d, name, rfl, hd, -⟩ := h
    obtain ⟨rfl, -⟩ := List.cons.inj hcs
    exact hd
  | _ =>
    obtain ⟨rfl, -⟩ := List.cons.inj hcs
    rfl

theorem Form.of_envEqual {options : Options} {n : Nat} {b : Char} {r : List Char}
    (h : Form options .envEqual n ('=' :: b :: r)) : isBlank b = false := by
  cases h with
  | envEqual h => exact h b rfl
  | punctuation r h => cases h.guard

theorem Form.of_newline {options : Options} {n : Nat} {cs : List Char} (h : Form options .newline n cs) :
    cs.head? = some '\n' := by
  cases h with
  | newline r => rfl
  | punctuation r h => cases h.guard

theorem Kind.opens_equals {k : Kind} (h : k.opens '=' = true) : k = .namedParamEq ∨ k = .envEqual := by
  revert h
  cases k <;> decide

theorem Kind.opens_quote (k : Kind) : k.opens '\'' = false := by cases k <;> decide

/-! ## What a token leaves in the text -/

/-- **What a token of a kind, found for a set, leaves behind it.** -/
def Owed (set : Candidates) (rest : List Char) : Kind → Prop
  | .envVarName => ∃ r, rest = '=' :: r
  | .constDeclVar => ∃ gap b r, rest = gap ++ '=' :: b :: r ∧ gap ≠ [] ∧ (∀ c ∈ gap, isBlank c = true) ∧ isBlank b = true
  | .byteStringMarker => ∃ r, rest = '\'' :: r
  | .hatExpansion => ∃ c r, rest = c :: r ∧ isBlank c = false
  | .newline => .multilineCmdSentinel ∈ set → ¬BlankLine rest
  | _ => True

/-- **A token that the candidates admit leaves behind it what it was found by.** -/
theorem Form.owed {options : Options} {set : Candidates} {k : Kind} {n : Nat} {word rest : List Char}
    (h : Form options k n (word ++ rest)) (hn : word.length = n) (hs : set.Supports (word ++ rest) k) :
    Owed set rest k := by
  have hone : ∀ {c : Char} {r : List Char}, c :: r = word ++ rest → n = 1 → r = rest := by
    intro c r hcs h1
    exact (List.append_inj (show [c] ++ r = word ++ rest from hcs) (h1.symm.trans hn.symm)).2
  generalize hcs : word ++ rest = cs at h hs
  cases h with
  | newline r =>
    obtain rfl := hone hcs.symm rfl
    exact fun hm hb => hs.2.2 ⟨hm, hb⟩
  | punctuation r h =>
    rcases h.cases with ⟨-, rfl⟩ | ⟨-, rfl⟩ | ⟨-, rfl⟩ | ⟨-, rfl⟩ | ⟨-, rfl⟩ | ⟨-, rfl⟩ <;> trivial
  | @hatExpansion c r h =>
    refine ⟨c, r, (hone hcs.symm rfl).symm, ?_⟩
    rcases h with h | h
    · rw [Bool.eq_false_iff]
      intro hb
      rw [isIdentChar_eq_false_of_isBlank hb] at h
      cases h
    · simp only [List.mem_cons, List.not_mem_nil, or_false] at h
      rcases h with rfl | rfl <;> decide
  | byteString r => exact ⟨r, (hone hcs.symm rfl).symm⟩
  | envVarName r h => exact ⟨r, (List.append_inj hcs hn).2⟩
  | @constDeclVar name gap b r h hg hgap hb =>
    rw [List.append_assoc] at hcs
    exact ⟨gap, b, r, (List.append_inj hcs hn).2, hg, hgap, hb⟩
  | _ => trivial

theorem Emission.Cuts.owed {options : Options} {set : Candidates} {e : Emission} {left gap word rest : List Char}
    (h : e.Cuts left gap word rest) (he : (Decision.reading options set left).emission = some e) :
    Owed set rest e.kind := by
  obtain ⟨-, -, hadmits, hform⟩ := Decision.reading_emission_iff.1 he
  rw [h.dropWhile_eq] at hadmits hform
  exact hform.owed h.length hadmits.1

theorem Owed.not_blank {set : Candidates} {rest : List Char} {k : Kind} (h : Owed set rest k)
    (hk : k ∈ [.byteStringMarker, .envVarName, .constDeclVar, .hatExpansion]) : rest.all isBlank = false := by
  rw [List.all_eq_false]
  simp only [List.mem_cons, List.not_mem_nil, or_false] at hk
  rcases hk with rfl | rfl | rfl | rfl
  · obtain ⟨r, rfl⟩ := h
    exact ⟨'\'', List.mem_cons_self, by decide⟩
  · obtain ⟨r, rfl⟩ := h
    exact ⟨'=', List.mem_cons_self, by decide⟩
  · obtain ⟨gap, b, r, rfl, -⟩ := h
    exact ⟨'=', List.mem_append_right _ List.mem_cons_self, by decide⟩
  · obtain ⟨c, r, rfl, hc⟩ := h
    exact ⟨c, List.mem_cons_self, by rw [hc]; exact Bool.false_ne_true⟩

/-! ## What comes next

The next token begins with what the last one left, whatever set it is found for. -/

section

variable {options : Options} {set set' : Candidates} {left : List Char} {e : Emission}

theorem Decision.emission_opens {c : Char} {r : List Char} (he : (reading options set' left).emission = some e)
    (hleft : left.dropWhile isBlank = c :: r) : e.kind.opens c = true := by
  obtain ⟨-, -, -, hform⟩ := reading_emission_iff.1 he
  rw [hleft] at hform
  exact hform.opens

theorem Owed.after_binding (h : Owed set left .envVarName) (he : (Decision.reading options set' left).emission = some e) :
    (e.kind = .namedParamEq ∨ e.kind = .envEqual) ∧ e.leading = 0 := by
  obtain ⟨r, rfl⟩ := h
  obtain ⟨-, hleading, -⟩ := Decision.reading_emission_iff.1 he
  exact ⟨Kind.opens_equals (Decision.emission_opens he rfl), hleading⟩

theorem Owed.after_declaration (h : Owed set left .constDeclVar)
    (he : (Decision.reading options set' left).emission = some e) : e.kind = .namedParamEq ∧ e.leading ≠ 0 := by
  obtain ⟨spaces, b, r, rfl, hne, hspaces, hb⟩ := h
  have hleft : (spaces ++ '=' :: b :: r).dropWhile isBlank = '=' :: b :: r := dropWhile_append_cons hspaces (by decide)
  obtain ⟨-, hleading, -, hform⟩ := Decision.reading_emission_iff.1 he
  rw [takeWhile_append_cons hspaces (by decide)] at hleading
  refine ⟨(Kind.opens_equals (Decision.emission_opens he hleft)).resolve_right fun henv => ?_, ?_⟩
  · -- The other equals sign must not have a blank behind it, and here is one.
    rw [hleft, henv] at hform
    exact Bool.false_ne_true (hform.of_envEqual.symm.trans hb)
  · rw [hleading]
    exact mt List.length_eq_zero_iff.1 hne

theorem Owed.after_byteString (h : Owed set left .byteStringMarker) :
    (Decision.reading options set' left).emission = none := by
  obtain ⟨r, rfl⟩ := h
  rw [Option.eq_none_iff_forall_ne_some]
  intro e he
  have hopens := Decision.emission_opens he rfl
  rw [Kind.opens_quote] at hopens
  cases hopens

theorem Owed.after_newline (h : Owed set left .newline) (hm : .multilineCmdSentinel ∈ set)
    (he : (Decision.reading options set' left).emission = some e) : e.kind ≠ .newline := by
  intro hnl
  obtain ⟨-, -, -, hform⟩ := Decision.reading_emission_iff.1 he
  rw [hnl] at hform
  exact h hm (blankLine_iff.2 hform.of_newline)

end

/-! ## Tokens in a row -/

/-- **What the grammar asks of two tokens in a row**, each with the set it was found for, in the text `cs`. -/
structure Follows (cs : List Char) (a b : Candidates × Token) : Prop where
  /-- A name bound without blanks is followed at once by its equals sign. -/
  binding : a.2.kind = .envVarName →
    (b.2.kind = .namedParamEq ∨ b.2.kind = .envEqual) ∧ b.2.span.start = a.2.span.stop
  /-- A name bound with blanks is followed by the other equals sign, behind at least one blank. -/
  declaration : a.2.kind = .constDeclVar → b.2.kind = .namedParamEq ∧ ∃ before gap after, cs = before ++ gap ++ after ∧
    gap ≠ [] ∧ (∀ c ∈ gap, isBlank c = true) ∧ Position.start.through before = .ok a.2.span.stop ∧
    Position.start.through (before ++ gap) = .ok b.2.span.start
  /-- Nothing follows the marker of a byte string. -/
  byteString : a.2.kind ≠ .byteStringMarker
  /-- No second line ending follows one found inside a command. -/
  newline : a.2.kind = .newline → .multilineCmdSentinel ∈ a.1 → b.2.kind ≠ .newline

/-- **The tokens that requests brought**, each with the set it was found for. -/
def brought (sets : List Candidates) (ts : List (Option Token)) : List (Candidates × Token) :=
  (sets.zip ts).filterMap fun r => r.2.map (r.1, ·)

theorem brought_cons_some (set : Candidates) (sets : List Candidates) (t : Token) (ts : List (Option Token)) :
    brought (set :: sets) (some t :: ts) = (set, t) :: brought sets ts := rfl

theorem Owed.follows {options : Options} {a : Candidates × Token} {set : Candidates} {e : Emission}
    {done left gap word rest : List Char} (h : Owed a.1 left a.2.kind) (hstop : a.2.span.stop = .past done)
    (he : (Decision.reading options set left).emission = some e) (hcut : e.Cuts left gap word rest)
    (fits : Fits (done ++ left)) : Follows (done ++ left) a (set, .spelled e.kind (done ++ gap) word) := by
  refine ⟨fun hk => ?_, fun hk => ?_, fun hk => ?_, fun hk hm => ?_⟩ <;> rw [hk] at h
  · obtain ⟨hkind, hleading⟩ := h.after_binding he
    obtain rfl := List.length_eq_zero_iff.1 (hcut.leading.trans hleading)
    refine ⟨hkind, ?_⟩
    rw [hstop]
    exact congrArg Position.past (List.append_nil done)
  · obtain ⟨hkind, hleading⟩ := h.after_declaration he
    rw [← hcut.leading] at hleading
    rw [hcut.eq] at fits
    refine ⟨hkind, done, gap, word ++ rest, ?_, mt List.length_eq_zero_iff.2 hleading, hcut.blank, ?_,
      Position.start_through fits.assoc.left.left⟩
    · rw [hcut.eq]
      simp only [List.append_assoc]
    · rw [hstop]
      exact Position.start_through fits.left
  · rw [h.after_byteString] at he
    cases he
  · exact h.after_newline hm he

namespace Exchange

variable {options : Options} {done left done' left' : List Char} {sets : List Candidates} {ts : List (Option Token)}

/-- **Tokens in a row obey the grammar**, the first of them after a token `prev` that ends where the exchange begins. -/
theorem isChain (h : Exchange options done left sets ts done' left') : Fits (done ++ left) →
    ∀ prev : Option (Candidates × Token), (∀ a ∈ prev, a.2.span.stop = .past done ∧ Owed a.1 left a.2.kind) →
      (prev.toList ++ brought sets ts).IsChain (Follows (done ++ left)) := by
  induction h with
  | nil done left =>
    intro _ prev _
    cases prev <;> simp [brought]
  | declined he hlater ih => exact ih
  | @token done left gap word rest _ _ set sets ts e he hcut hlater ih =>
    intro fits prev hprev
    have hall : done ++ gap ++ word ++ rest = done ++ left := by
      rw [hcut.eq]
      simp only [List.append_assoc]
    have hrow : ((set, Token.spelled e.kind (done ++ gap) word) :: brought sets ts).IsChain (Follows (done ++ left)) := by
      have hlast := ih (hall ▸ fits) (some (set, .spelled e.kind (done ++ gap) word))
        fun a ha => by cases ha; exact ⟨rfl, hcut.owed he⟩
      rwa [hall] at hlast
    rw [brought_cons_some]
    cases prev with
    | none => exact hrow
    | some a =>
      obtain ⟨hstop, howed⟩ := hprev a rfl
      exact List.isChain_cons_cons.2 ⟨howed.follows hstop he hcut fits, hrow⟩

/-- Before a quote nothing is found, and nothing moves. -/
theorem stays {r : List Char} (h : Exchange options done ('\'' :: r) sets ts done' left') :
    done' = done ∧ left' = '\'' :: r ∧ ∀ t ∈ ts, t = none := by
  generalize hleft : '\'' :: r = left at h
  induction h with
  | nil done left => exact ⟨rfl, rfl, List.forall_mem_nil _⟩
  | declined he hlater ih =>
    obtain ⟨hdone, hrest, hnone⟩ := ih hleft
    exact ⟨hdone, hrest, List.forall_mem_cons.2 ⟨rfl, hnone⟩⟩
  | @token done left gap word rest _ _ set sets ts e he hcut hlater ih =>
    have howed : Owed set left .byteStringMarker := ⟨r, hleft.symm⟩
    rw [howed.after_byteString] at he
    cases he

/-- The marker of a byte string is the last token, and the exchange ends where it does. -/
theorem ends_at_byteString (h : Exchange options done left sets ts done' left') : ∀ {t : Token}, some t ∈ ts →
    t.kind = .byteStringMarker → t.span.stop = .past done' ∧ ∃ r, left' = '\'' :: r := by
  induction h with
  | nil done left => exact fun ht _ => absurd ht List.not_mem_nil
  | declined he hlater ih =>
    intro t ht hk
    rcases List.mem_cons.1 ht with ht | ht
    · cases ht
    · exact ih ht hk
  | @token done left gap word rest _ _ set sets ts e he hcut hlater ih =>
    intro t ht hk
    rcases List.mem_cons.1 ht with ht | ht
    · cases ht
      have howed := hcut.owed he
      rw [show e.kind = .byteStringMarker from hk] at howed
      obtain ⟨r, rfl⟩ := howed
      obtain ⟨rfl, rfl, -⟩ := hlater.stays
      exact ⟨rfl, r, rfl⟩
    · exact ih ht hk

end Exchange

/-! ## Whole scans -/

theorem Course.blank_of_nil {options : Options} {host : Host} {asked : List Query} {done left : List Char} {scan : Scan}
    (h : Course options host asked done left scan) (hs : scan.stuck = none) (ht : scan.tokens = []) :
    left.all isBlank = true := by
  cases h with
  | finished h => exact h
  | stuck => cases hs
  | token => cases ht

/-- **A scan that reads to the end owes nothing**: no byte string has begun, and no name or hat is the last token. -/
theorem Course.nothing_owed {options : Options} {host : Host} {asked : List Query} {done left : List Char} {scan : Scan}
    (h : Course options host asked done left scan) (hs : scan.stuck = none) :
    (∀ t ∈ scan.tokens, t.kind ≠ .byteStringMarker) ∧
      ∀ t ∈ scan.tokens.getLast?, t.kind ∉ [.envVarName, .constDeclVar, .hatExpansion] := by
  induction h with
  | finished => exact ⟨List.forall_mem_nil _, fun t ht => by cases ht⟩
  | stuck => cases hs
  | @token asked done left gap word rest e later hblank he hleft hgap hword hgaps hne hplain hlater ih =>
    obtain ⟨hmarker, hlast⟩ := ih hs
    have howed := Emission.Cuts.owed ⟨hleft, hgap, hword, hgaps, hne, hplain⟩ he
    refine ⟨List.forall_mem_cons.2 ⟨fun hk => ?_, hmarker⟩, ?_⟩
    · have hrest := howed.not_blank (by rw [show e.kind = _ from hk]; decide)
      rw [show e.kind = _ from hk] at howed
      cases hlater with
      | finished hblank' => rw [hrest] at hblank'; cases hblank'
      | stuck => cases hs
      | token _ he' =>
        rw [howed.after_byteString] at he'
        cases he'
    · intro t ht
      rw [List.getLast?_cons] at ht
      cases hl : later.tokens.getLast? with
      | some u =>
        rw [hl] at ht
        cases ht
        exact hlast _ hl
      | none =>
        rw [hl] at ht
        cases ht
        intro hk
        have hrest := howed.not_blank (List.mem_cons_of_mem _ hk)
        rw [hlater.blank_of_nil hs (List.getLast?_eq_none_iff.1 hl)] at hrest
        cases hrest

/-- **Tokens in a row obey the grammar, whatever is asked for.**

However requests are put to a session, any two tokens it brings in a row follow each other as `Follows` says.  Once it has
brought the marker of a byte string it stays where that ends and brings no token again, for whatever sets.  So when a
scan succeeds, against whatever host, there is no such marker among its tokens, and the last of them is neither a name
that is being bound nor a hat. -/
theorem tokens_in_a_row (options : Options) (text : String) (fits : Fits text.toList) :
    (∀ sets, ∃ ts s, (Session.start text options).replies sets = .ok (ts, s) ∧
      (brought sets ts).IsChain (Follows text.toList) ∧
      ∀ t, some t ∈ ts → t.kind = .byteStringMarker → s.position = t.span.stop ∧
        ∀ sets', ∃ us s', s.replies sets' = .ok (us, s') ∧ (∀ u ∈ us, u = none) ∧ s'.position = s.position) ∧
    ∀ host, ∃ scan, Scan.of options text host = .ok scan ∧ ∀ ts, scan.result = .ok ts →
      (∀ t ∈ ts, t.kind ≠ .byteStringMarker) ∧
        ∀ t ∈ ts.getLast?, t.kind ∉ [.envVarName, .constDeclVar, .hatExpansion] := by
  constructor
  · intro sets
    obtain ⟨ts, c, done, left, hrun, hexchange, hc, hall⟩ := Session.exists_replies options text sets fits
    refine ⟨ts, ⟨c, options⟩, hrun, hexchange.isChain fits none (fun a ha => by cases ha), fun t ht hk => ?_⟩
    obtain ⟨hstop, r, rfl⟩ := hexchange.ends_at_byteString ht hk
    refine ⟨hc.position_eq.trans hstop.symm, fun sets' => ?_⟩
    obtain ⟨us, done', left', hlater⟩ := exists_exchange options sets' done ('\'' :: r)
    obtain ⟨rfl, rfl, hnone⟩ := hlater.stays
    obtain ⟨c', hrun', hc'⟩ := hlater.replies_eq (s := ⟨c, options⟩) rfl hc (hall ▸ fits)
    exact ⟨us, _, hrun', hnone, hc'.position_eq.trans hc.position_eq.symm⟩
  · intro host
    obtain ⟨scan, hrun, hcourse⟩ := Scan.exists_course options text host fits
    refine ⟨_, hrun, fun ts hts => ?_⟩
    obtain ⟨hs, rfl⟩ := Scan.stuck_of_result_ok hts
    exact hcourse.nothing_owed hs

/-- A declaration read with a request in between that brought no token, and the start of a byte string after it. -/
theorem tokens_in_a_row_up_to_byteString : ∃ ts s,
    (Session.start "b = b'" {}).replies [.singleton .constDeclVar, .all, .singleton .namedParamEq,
        .singleton .byteStringMarker, .singleton .comma] = .ok (ts, s) ∧
      (brought [.singleton .constDeclVar, .all, .singleton .namedParamEq, .singleton .byteStringMarker,
        .singleton .comma] ts).IsChain (Follows "b = b'".toList) ∧
      ∃ t, some t ∈ ts ∧ t.kind = .byteStringMarker ∧ s.position = t.span.stop := by
  obtain ⟨ts, s, hrun, hchain, hmarker⟩ := (tokens_in_a_row {} "b = b'" (by decide)).1
    [.singleton .constDeclVar, .all, .singleton .namedParamEq, .singleton .byteStringMarker, .singleton .comma]
  have hkinds : ((Session.start "b = b'" {}).replies [.singleton .constDeclVar, .all, .singleton .namedParamEq,
      .singleton .byteStringMarker, .singleton .comma]).toOption.map (fun r => r.1.map (Option.map Token.kind)) =
        some [some .constDeclVar, none, some .namedParamEq, some .byteStringMarker, none] := by decide +kernel
  rw [hrun] at hkinds
  have hmem : some Kind.byteStringMarker ∈ ts.map (Option.map Token.kind) := by
    rw [show ts.map (Option.map Token.kind) = _ from Option.some.inj hkinds]
    decide
  obtain ⟨reply, hreply, hkind⟩ := List.mem_map.1 hmem
  obtain ⟨t, rfl, ht⟩ := Option.map_eq_some_iff.1 hkind
  exact ⟨ts, s, hrun, hchain, t, hreply, ht, (hmarker t hreply ht).1⟩

end ContextScan
