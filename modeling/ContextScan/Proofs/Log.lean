import ContextScan.Proofs.Succession
/-!
# Proofs.Log — the log tells the run

The log of a scan is determined by what the scan did, and tells it again: its start, two entries for every token, and
its end (`scan_log`).  The numbers in the entries are those of the tokens' spans, although the one are counted by the
request that looks and the other by the cursor that moves; so what is printed for the tokens follows from the tokens
alone (`replay_printed`).

A request without a token says why in one of four ways (`Declined`).  Which one depends on the candidates and the first
character that is no blank, and on the next line for the first of two entries on a blank line; not on the order in which
guards are asked (`Decision.events_eq_iff`).
-/
namespace ContextScan

/-! ## Entries as they are printed -/

/-- **An entry as it is printed**: its level, where it comes from, and its text. -/
structure Printed where
  level : String
  target : String
  text : String
  deriving DecidableEq

namespace Printed

def debug (text : String) : Printed := ⟨"DEBUG", "scan", text⟩

def trace (text : String) : Printed := ⟨"TRACE", "scan", text⟩

end Printed

def Event.printed (e : Event) : Printed := ⟨e.level.name, Event.target, e.message⟩

/-- The text for a token that was found: its kind, its characters, and the blanks before it. -/
def foundText (kind : Kind) (length leading : Nat) : String :=
  kind.name ++ " (" ++ toString length ++ " char(s), " ++ toString leading ++ " leading blank(s))"

/-! ## A request without a token -/

namespace Candidates

/-- **A set awaits a character** if it holds a kind that begins with it.  A line ending is awaited by whatever calls for
a terminator, unless the set holds line endings themselves. -/
def Awaits (set : Candidates) (c : Char) : Prop :=
  c = '\n' ∧ (∃ k, k ∈ terminatorTriggers ∧ k ∈ set) ∧ .newline ∉ set ∨ ∃ k ∈ set, k ≠ .newline ∧ k.opens c = true

/-- **A command would end before a blank line**, at the front of `cs`. -/
structure EndsCommand (set : Candidates) (cs : List Char) : Prop where
  newline : cs.head? = some '\n'
  trigger : ∃ k, k ∈ terminatorTriggers ∧ k ∈ set
  command : .multilineCmdSentinel ∈ set
  special : .newline ∉ set
  blank : BlankLine cs.tail

theorem EndsCommand.awaits {set : Candidates} {cs : List Char} (h : set.EndsCommand cs) : set.Awaits '\n' :=
  .inl ⟨rfl, h.trigger, h.special⟩

theorem mem_terminatorTriggers_iff {set : Candidates} :
    set.meets terminatorTriggers = true ↔ ∃ k, k ∈ terminatorTriggers ∧ k ∈ set := meets_ofList_iff

end Candidates

/-- **What the log says of a request without a token**, where `cs` is the text from its first character that is no
blank. -/
inductive Declined (set : Candidates) (cs : List Char) : List Event → Prop where
  | errorRecovery (h : .errorSentinel ∈ set) : Declined set cs [.errorRecovery]
  | blankLine (h : .errorSentinel ∉ set) (hb : set.EndsCommand cs) :
      Declined set cs [.blankLine, .rejected cs.head? set.members]
  | rejected {c : Char} (h : .errorSentinel ∉ set) (hb : ¬set.EndsCommand cs) (hc : cs.head? = some c)
      (ha : set.Awaits c) : Declined set cs [.rejected cs.head? set.members]
  | declined (h : .errorSentinel ∉ set) (ha : ∀ c ∈ cs.head?, ¬set.Awaits c) :
      Declined set cs [.declined set.members cs.head?]

/-- The four ways exclude each other. -/
theorem Declined.unique {set : Candidates} {cs : List Char} {events events' : List Event}
    (h : Declined set cs events) (h' : Declined set cs events') : events = events' := by
  cases h with
  | errorRecovery h =>
    cases h' with
    | errorRecovery => rfl
    | blankLine h' | rejected h' | declined h' => exact absurd h h'
  | blankLine h hb =>
    cases h' with
    | errorRecovery h' => exact absurd h' h
    | blankLine => rfl
    | rejected _ hb' => exact absurd hb hb'
    | declined _ ha => exact absurd hb.awaits (ha _ hb.newline)
  | rejected h hb hc ha =>
    cases h' with
    | errorRecovery h' => exact absurd h' h
    | blankLine _ hb' => exact absurd hb' hb
    | rejected => rfl
    | declined _ ha' => exact absurd ha (ha' _ hc)
  | declined h ha =>
    cases h' with
    | errorRecovery h' => exact absurd h' h
    | blankLine _ hb => exact absurd hb.awaits (ha _ hb.newline)
    | rejected _ _ hc ha' => exact absurd ha' (ha _ hc)
    | declined => rfl

/-- **What is printed of a request without a token**, one text for each of the four ways. -/
structure DeclinedPrinted (set : Candidates) (cs : List Char) (entries : List Printed) : Prop where
  errorRecovery : .errorSentinel ∈ set → entries = [.trace "error recovery; declining"]
  blankLine : .errorSentinel ∉ set → set.EndsCommand cs →
    entries = [.trace "blank line inside multiline command", .trace ("rejected Some('\\n') for " ++ set.debug)]
  rejected : .errorSentinel ∉ set → ¬set.EndsCommand cs → ∀ c ∈ cs.head?, set.Awaits c →
    entries = [.trace ("rejected " ++ debugOptionalChar (some c) ++ " for " ++ set.debug)]
  declined : .errorSentinel ∉ set → (∀ c ∈ cs.head?, ¬set.Awaits c) →
    entries = [.trace ("declined " ++ set.debug ++ " at " ++ debugOptionalChar cs.head?)]

theorem Declined.printed {set : Candidates} {cs : List Char} {events : List Event} (h : Declined set cs events) :
    DeclinedPrinted set cs (events.map Event.printed) where
  errorRecovery herr := by
    rw [h.unique (.errorRecovery herr)]
    rfl
  blankLine herr hb := by
    rw [h.unique (.blankLine herr hb), hb.newline]
    rfl
  rejected herr hb c hc ha := by
    rw [h.unique (.rejected herr hb hc ha), Option.mem_def.1 hc]
    rfl
  declined herr ha := by
    rw [h.unique (.declined herr ha)]
    rfl

namespace Guard

variable {rules : Rules} {options : Options} {set : Candidates} {cs : List Char}

theorem awaits_of_triggered {c : Char} {g : Guard} (h : g.triggered .standard set (some c) = true) :
    set.Awaits c := by
  have hkind : ∀ k, set.contains k = true → k ≠ .newline → k.opens c = true → set.Awaits c :=
    fun k hk hne ho => .inr ⟨k, hk, hne, ho⟩
  cases g with
  | terminator =>
    simp only [triggered, Bool.and_eq_true, Bool.not_eq_true', beq_iff_eq, Option.some.injEq] at h
    obtain ⟨⟨ht, hnl⟩, rfl⟩ := h
    refine .inl ⟨rfl, Candidates.mem_terminatorTriggers_iff.1 ht, ?_⟩
    rw [Candidates.mem_iff, hnl]
    exact Bool.false_ne_true
  | punctuation =>
    simp only [triggered, Rules.standard, List.any_cons, List.any_nil, Bool.or_eq_true, Bool.and_eq_true, beq_iff_eq,
      Option.some.injEq, Bool.false_eq_true, or_false] at h
    rcases h with ⟨hk, rfl⟩ | ⟨hk, rfl⟩ | ⟨hk, rfl⟩ | ⟨hk, rfl⟩ | ⟨hk, rfl⟩ | ⟨hk, rfl⟩ <;>
      exact hkind _ hk (by decide) rfl
  | declaration =>
    simp only [triggered, Bool.and_eq_true, Bool.or_eq_true, Option.any_some] at h
    rcases h.1 with hk | hk
    · exact hkind _ hk (by decide) h.2
    · exact hkind _ hk (by decide) h.2
  | _ =>
    simp only [triggered, Bool.and_eq_true, beq_iff_eq, Option.some.injEq] at h
    obtain ⟨hk, rfl⟩ := h
    exact hkind _ hk (by decide) rfl

theorem exists_triggered_of_opens {c : Char} {k : Kind} (hk : k ∈ set) (hne : k ≠ .newline) (ho : k.opens c = true) :
    ∃ g : Guard, g.triggered .standard set (some c) = true := by
  rw [Candidates.mem_iff] at hk
  cases k with
  | newline => exact absurd rfl hne
  | comma | semicolon | closeParen | closeBrace | closeBracket | closingList =>
    refine ⟨.punctuation, ?_⟩
    simp only [Kind.opens, beq_iff_eq] at ho
    simp [triggered, Rules.standard, hk, ho]
  | namedParamEq => exact ⟨.namedParamEq, by simpa [triggered, hk, Kind.opens] using ho⟩
  | envEqual => exact ⟨.envEqual, by simpa [triggered, hk, Kind.opens] using ho⟩
  | dollarExpansion => exact ⟨.dollarExpansion, by simpa [triggered, hk, Kind.opens] using ho⟩
  | hatExpansion => exact ⟨.hatExpansion, by simpa [triggered, hk, Kind.opens] using ho⟩
  | byteStringMarker => exact ⟨.byteString, by simpa [triggered, hk, Kind.opens] using ho⟩
  | envVarName => exact ⟨.declaration, by simpa [triggered, hk, Kind.opens] using ho⟩
  | constDeclVar => exact ⟨.declaration, by simpa [triggered, hk, Kind.opens] using ho⟩
  | _ => cases ho

/-- **Some guard is called for exactly where the set awaits the character.** -/
theorem exists_triggered_iff {c : Char} : (∃ g : Guard, g.triggered .standard set (some c) = true) ↔ set.Awaits c := by
  constructor
  · rintro ⟨g, h⟩
    exact awaits_of_triggered h
  · rintro (⟨rfl, ht, hnl⟩ | ⟨k, hk, hne, ho⟩)
    · refine ⟨.terminator, ?_⟩
      simpa [triggered, Candidates.mem_terminatorTriggers_iff.2 ht, Candidates.mem_iff] using hnl
    · exact exists_triggered_of_opens hk hne ho

theorem emitIf_ne_blankLine {b : Bool} {k : Kind} {n : Nat} : Verdict.emitIf b k n ≠ .reject .blankLine := by
  cases b <;> simp [Verdict.emitIf]

theorem ite_pass_ne_blankLine {b : Bool} {v : Verdict} (hv : v ≠ .reject .blankLine) :
    (if b then v else .pass) ≠ .reject .blankLine := by
  cases b <;> simp [hv]

theorem terminator_reading_eq_blankLine_iff :
    terminator.reading rules options set cs = .reject .blankLine ↔ set.EndsCommand cs := by
  simp only [reading]
  split
  · rename_i hc
    simp only [Bool.and_eq_true, Bool.not_eq_true', beq_iff_eq] at hc
    obtain ⟨⟨ht, hnl⟩, hfirst⟩ := hc
    split
    · rename_i hm
      rw [Bool.and_eq_true, beq_iff_eq] at hm
      refine iff_of_true rfl ⟨hfirst, Candidates.mem_terminatorTriggers_iff.1 ht, hm.1, ?_, blankLine_iff.2 hm.2⟩
      rw [Candidates.mem_iff, hnl]
      exact Bool.false_ne_true
    · rename_i hm
      refine iff_of_false (by simp) fun h => hm ?_
      rw [Bool.and_eq_true, beq_iff_eq]
      exact ⟨h.command, blankLine_iff.1 h.blank⟩
  · rename_i hc
    refine iff_of_false (by simp) fun h => hc ?_
    have hnl := h.special
    rw [Candidates.mem_iff, Bool.not_eq_true] at hnl
    simp [Candidates.mem_terminatorTriggers_iff.2 h.trigger, hnl, h.newline]

/-- Only the terminator looks at the next line. -/
theorem reading_ne_blankLine {g : Guard} (hg : g ≠ .terminator) :
    g.reading rules options set cs ≠ .reject .blankLine := by
  cases g with
  | terminator => exact absurd rfl hg
  | punctuation =>
    simp only [reading, punctuationVerdict]
    split <;> simp
  | dollarExpansion =>
    apply ite_pass_ne_blankLine
    split
    · simp
    · split
      · simp
      · split <;> exact emitIf_ne_blankLine
  | declaration =>
    apply ite_pass_ne_blankLine
    split
    · simp
    · split
      · exact emitIf_ne_blankLine
      · simp
  | namedParamEq => exact ite_pass_ne_blankLine emitIf_ne_blankLine
  | hatExpansion => exact ite_pass_ne_blankLine emitIf_ne_blankLine
  | byteString => exact ite_pass_ne_blankLine emitIf_ne_blankLine
  | envEqual => exact ite_pass_ne_blankLine emitIf_ne_blankLine

end Guard

theorem firstReading_eq_pass_iff {read : Guard → Verdict} : ∀ {gs : List Guard},
    firstReading read gs = .pass ↔ ∀ g ∈ gs, read g = .pass
  | [] => by simp [firstReading]
  | g :: gs => by
    rw [firstReading, List.forall_mem_cons]
    split
    · rename_i hg
      rw [and_iff_right hg, firstReading_eq_pass_iff]
    · rename_i hg
      exact ⟨fun h => absurd h hg, fun h => absurd h.1 hg⟩

namespace Rules

variable {options : Options} {set : Candidates} {cs : List Char}

/-- **All guards pass exactly where nothing is awaited.** -/
theorem standard_reading_eq_pass_iff :
    standard.reading options set cs = .pass ↔ ∀ c ∈ cs.head?, ¬set.Awaits c := by
  rw [reading, firstReading_eq_pass_iff]
  constructor
  · intro h c hc hawaits
    obtain ⟨g, hg⟩ := Guard.exists_triggered_iff.2 hawaits
    have hpass := Guard.reading_eq_pass_iff.1 (h g (mem_standard_guards g))
    rw [show cs.head? = some c from hc, hg] at hpass
    cases hpass
  · intro h g _
    rw [Guard.reading_eq_pass_iff, Bool.eq_false_iff]
    intro hg
    cases hc : cs.head? with
    | none =>
      rw [hc] at hg
      cases g <;> simp [Guard.triggered] at hg
    | some c =>
      rw [hc] at hg
      exact h c hc (Guard.exists_triggered_iff.1 ⟨g, hg⟩)

/-- **A blank line is noticed before anything else.** -/
theorem standard_reading_eq_blankLine_iff :
    standard.reading options set cs = .reject .blankLine ↔ set.EndsCommand cs := by
  constructor
  · intro h
    obtain ⟨g, -, hg⟩ := exists_of_firstReading (by simp) h
    by_cases ht : g = .terminator
    · subst ht
      exact Guard.terminator_reading_eq_blankLine_iff.1 hg
    · exact absurd hg (Guard.reading_ne_blankLine ht)
  · intro h
    have ht : Guard.terminator.reading standard options set cs = .reject .blankLine :=
      Guard.terminator_reading_eq_blankLine_iff.2 h
    rw [reading, standard, firstReading, ← standard, ht]

end Rules

namespace Decision

variable {options : Options} {set : Candidates} {cs : List Char}

theorem events_of_emission {e : Emission} (he : (reading options set cs).emission = some e) :
    (reading options set cs).events = [.emitted e.kind e.length e.leading] := by
  unfold reading at he ⊢
  split at he
  · cases he
  · rename_i herr
    rw [if_neg herr]
    obtain ⟨hl, hv⟩ := ofVerdict_emission he
    rw [hv, hl]
    rfl

theorem events_declined (he : (reading options set cs).emission = none) :
    Declined set (cs.dropWhile isBlank) (reading options set cs).events := by
  unfold reading at he ⊢
  split at he
  · rename_i herr
    rw [if_pos herr]
    exact .errorRecovery herr
  · rename_i herr
    rw [if_neg herr]
    have hblank : Rules.standard.reading options set (cs.dropWhile isBlank) = .reject .blankLine ↔
        set.EndsCommand (cs.dropWhile isBlank) := Rules.standard_reading_eq_blankLine_iff
    have hpass : Rules.standard.reading options set (cs.dropWhile isBlank) = .pass ↔
        ∀ c ∈ (cs.dropWhile isBlank).head?, ¬set.Awaits c := Rules.standard_reading_eq_pass_iff
    generalize Rules.standard.reading options set (cs.dropWhile isBlank) = v at *
    cases v with
    | emit k n => cases he
    | pass => exact .declined herr (hpass.1 rfl)
    | reject why =>
      cases why with
      | blankLine => exact .blankLine herr (hblank.1 rfl)
      | incomplete =>
        obtain ⟨c, hc, hawaits⟩ : ∃ c ∈ (cs.dropWhile isBlank).head?, set.Awaits c := by
          simpa using hpass
        exact .rejected herr (fun h => by cases hblank.2 h) hc hawaits

/-- **The log of a request without a token** is the one way in which it may be declined. -/
theorem events_eq_iff (he : (reading options set cs).emission = none) {events : List Event} :
    (reading options set cs).events = events ↔ Declined set (cs.dropWhile isBlank) events :=
  ⟨fun h => h ▸ events_declined he, (events_declined he).unique⟩

end Decision

/-! ## A scan -/

/-- **The entries for tokens in a row**, the first of them having number `n`: what the request found, and the token. -/
def replay : Nat → List (Emission × Token) → List Event
  | _, [] => []
  | n, (e, t) :: found => .emitted e.kind e.length e.leading :: .token n t :: replay (n + 1) found

/-- **What is printed for tokens in a row**, the first of them having number `n`, where the text before the first blanks
ends at `place`.  All numbers are those of the spans. -/
def printedTokens : Nat → Nat → List Token → List Printed
  | _, _, [] => []
  | place, n, t :: tokens =>
    let start := t.span.start.index.toNat
    let stop := t.span.stop.index.toNat
    .debug (foundText t.kind (stop - start) (start - place)) :: .debug ("TOKEN " ++ toString n ++ ": " ++ t.debug) ::
      printedTokens stop (n + 1) tokens

/-- The characters that tokens in a row take up, each with the blanks before it. -/
def reach : List (Emission × Token) → Nat
  | [] => 0
  | (e, _) :: found => e.leading + e.length + reach found

theorem reach_append : ∀ xs ys : List (Emission × Token), reach (xs ++ ys) = reach xs + reach ys
  | [], ys => (Nat.zero_add _).symm
  | (e, t) :: xs, ys => by rw [List.cons_append, reach, reach, reach_append xs ys, ← Nat.add_assoc]

/-- **What a request found is what its token covers**, where `place` characters stand before the blanks. -/
structure Emission.Accounts (e : Emission) (place : Nat) (t : Token) : Prop where
  kind_eq : t.kind = e.kind
  start_eq : t.span.start.index.toNat = place + e.leading
  stop_eq : t.span.stop.index.toNat = place + e.leading + e.length
  length_eq : ∃ n, t.span.length = .ok n ∧ n.toNat = e.length

/-- **What is printed for the tokens follows from the tokens**, whatever the requests found. -/
theorem replay_printed : ∀ {found : List (Emission × Token)} {place n : Nat},
    (∀ before e t after, found = before ++ (e, t) :: after → e.Accounts (place + reach before) t) →
    (replay n found).map Event.printed = printedTokens place n (found.map Prod.snd)
  | [], _, _, _ => rfl
  | (e, t) :: found, place, n, h => by
    have ht : e.Accounts place t := h [] e t found rfl
    have hlength : t.span.stop.index.toNat - t.span.start.index.toNat = e.length := by
      rw [ht.start_eq, ht.stop_eq, Nat.add_sub_cancel_left]
    have hleading : t.span.start.index.toNat - place = e.leading := by
      rw [ht.start_eq, Nat.add_sub_cancel_left]
    have hlater : (replay (n + 1) found).map Event.printed =
        printedTokens t.span.stop.index.toNat (n + 1) (found.map Prod.snd) := by
      refine replay_printed fun before e' t' after hfound => ?_
      have hplace := h ((e, t) :: before) e' t' after (congrArg (_ :: ·) hfound)
      rw [reach] at hplace
      rwa [ht.stop_eq, Nat.add_assoc place, Nat.add_assoc place]
    rw [replay, List.map_cons, List.map_cons, hlater, List.map_cons, printedTokens, hlength, hleading, ht.kind_eq]
    rfl

theorem Emission.Cuts.accounts {e : Emission} {done left gap word rest : List Char} (h : e.Cuts left gap word rest)
    (fits : Fits (done ++ left)) : e.Accounts done.length (.spelled e.kind (done ++ gap) word) := by
  rw [h.eq] at fits
  have hfits := fits.assoc.left
  have hstart : (Position.past (done ++ gap)).index.toNat = done.length + e.leading := by
    rw [Position.toNat_index_past hfits.left, List.length_append, h.leading]
  have hstop : (Position.past (done ++ gap ++ word)).index.toNat = done.length + e.leading + e.length := by
    rw [Position.toNat_index_past hfits, List.length_append, List.length_append, h.leading, h.length]
  have hlen : e.length < UInt64.size := by
    have := UInt64.toNat_lt_size (Position.past (done ++ gap ++ word)).index
    omega
  refine ⟨rfl, hstart, hstop, .ofNat e.length, Word.sub_eq_ok_iff.2 ?_, UInt64.toNat_ofNat_of_lt' hlen⟩
  rw [UInt64.toNat_ofNat_of_lt' hlen]
  show (Position.past (done ++ gap ++ word)).index.toNat = (Position.past (done ++ gap)).index.toNat + e.length
  rw [hstart, hstop]

namespace Course

variable {options : Options} {host : Host} {asked : List Query} {done left : List Char} {scan : Scan}

/-- **The log of a course**, with the number of its first token and what stands before its first blanks. -/
theorem exists_log (h : Course options host asked done left scan) (fits : Fits (done ++ left)) :
    ∃ found last, scan.tokens = found.map Prod.snd ∧ scan.events = replay asked.length found ++ last ∧
      (∀ before e t after, found = before ++ (e, t) :: after → e.Accounts (done.length + reach before) t) ∧
      (scan.stuck = none → last = [.finished (asked.length + found.length)]) ∧
      ∀ p, scan.stuck = some p → ∃ qs q, scan.queries = qs ++ [q] ∧ q.position = p ∧
        Declined (host (asked ++ qs) q) (q.remaining.toList.dropWhile isBlank) last := by
  induction h with
  | @finished asked done left hblank =>
    exact ⟨[], _, rfl, rfl, fun before e t after h => by simp at h, fun _ => rfl, nofun⟩
  | @stuck asked done left hblank he =>
    refine ⟨[], _, rfl, rfl, fun before e t after h => by simp at h, nofun, fun p hp => ?_⟩
    refine ⟨[], .between done left, rfl, Option.some.inj hp, ?_⟩
    rw [List.append_nil, Query.between, String.toList_ofList]
    exact Decision.events_declined he
  | @token asked done left gap word rest e later hblank he hleft hgap hword hgaps hne hplain hlater ih =>
    have hcut : e.Cuts left gap word rest := ⟨hleft, hgap, hword, hgaps, hne, hplain⟩
    have hrest : Fits (done ++ gap ++ word ++ rest) := by
      rw [hleft] at fits
      exact fits.assoc
    obtain ⟨found, last, htokens, hevents, haccounts, hfinished, hstuck⟩ := ih hrest
    rw [List.length_append, List.length_singleton] at hevents hfinished
    refine ⟨(e, .spelled e.kind (done ++ gap) word) :: found, last, ?_, ?_, ?_, ?_, ?_⟩
    · rw [List.map_cons, ← htokens]
    · show (Decision.reading _ _ _).events ++ .token _ _ :: later.events = _
      rw [Decision.events_of_emission he, hevents]
      rfl
    · intro before e' t after h
      cases before with
      | nil =>
        obtain ⟨h, rfl⟩ := List.cons.inj h
        cases h
        exact hcut.accounts fits
      | cons x before =>
        obtain ⟨rfl, hfound⟩ := List.cons.inj h
        have hplace := haccounts before e' t after hfound
        rw [List.length_append, List.length_append, hgap, hword] at hplace
        rw [reach]
        rwa [Nat.add_assoc, Nat.add_assoc, ← Nat.add_assoc e.leading] at hplace
    · intro hs
      rw [hfinished hs, List.length_cons, Nat.add_assoc, Nat.add_comm 1]
    · intro p hp
      obtain ⟨qs, q, hqs, hposition, hdeclined⟩ := hstuck p hp
      refine ⟨.between done left :: qs, q, congrArg (_ :: ·) hqs, hposition, ?_⟩
      rwa [List.append_assoc, List.singleton_append] at hdeclined

end Course

/-- **In the text the numbers of the entries add up to the spans of the tokens.** -/
theorem Emission.spans_of_accounts {found : List (Emission × Token)}
    (h : ∀ before e t after, found = before ++ (e, t) :: after → e.Accounts (reach before) t)
    {before after : List (Emission × Token)} {e : Emission} {t : Token} (hfound : found = before ++ (e, t) :: after) :
    t.span.stop.index.toNat = reach (before ++ [(e, t)]) ∧
      t.span.start.index.toNat = (before.getLast?.elim 0 fun x => x.2.span.stop.index.toNat) + e.leading := by
  have hstop : ∀ before e t after, found = before ++ (e, t) :: after →
      t.span.stop.index.toNat = reach (before ++ [(e, t)]) := by
    intro before e t after hfound
    rw [(h before e t after hfound).stop_eq, reach_append, reach, reach, Nat.add_zero, Nat.add_assoc]
  refine ⟨hstop before e t after hfound, ?_⟩
  rw [(h before e t after hfound).start_eq]
  rcases List.eq_nil_or_concat' before with rfl | ⟨before, ⟨e', t'⟩, rfl⟩
  · rfl
  · rw [List.append_assoc, List.singleton_append] at hfound
    rw [← hstop before e' t' _ hfound, List.getLast?_concat]
    rfl

/-- **The log of a scan tells the scan.**

It begins with the start.  For each token follow an entry for what the request found, with the kind, the length and the
number of blanks before, and an entry for the token; in the text these numbers add up to where the token ends.  Then, if
the scan succeeds, comes the number of tokens; if it fails, comes what the log says of the last request, and nothing
else.  What it says of a request without a token, in a scan or not, is the one thing that `Declined` allows.

The entries are printed with their level and text: those for the tokens as the tokens alone demand, the last ones of a
failed scan with the texts of `DeclinedPrinted`. -/
theorem scan_log (options : Options) (text : String) (host : Host) (fits : Fits text.toList) :
    (∃ scan found last, Scan.of options text host = .ok scan ∧ scan.tokens = found.map Prod.snd ∧
      scan.events = .scanning :: (replay 0 found ++ last) ∧
      scan.events.map Event.printed =
        .debug "Scanning..." :: (printedTokens 0 0 scan.tokens ++ last.map Event.printed) ∧
      (∀ before e t after, found = before ++ (e, t) :: after →
        t.kind = e.kind ∧ t.span.stop.index.toNat = reach (before ++ [(e, t)]) ∧
        (∃ n, t.span.length = .ok n ∧ n.toNat = e.length) ∧
        t.span.start.index.toNat = (before.getLast?.elim 0 fun x => x.2.span.stop.index.toNat) + e.leading) ∧
      (scan.result = .ok scan.tokens ∧ last = [.finished scan.tokens.length] ∧
          last.map Event.printed = [.debug ("  => " ++ toString scan.tokens.length ++ " token(s)")] ∨
        ∃ p qs q, scan.result = .error (.noTokenAt p) ∧ scan.queries = qs ++ [q] ∧ q.position = p ∧
          Declined (host qs q) (q.remaining.toList.dropWhile isBlank) last ∧
          DeclinedPrinted (host qs q) (q.remaining.toList.dropWhile isBlank) (last.map Event.printed))) ∧
    ∀ (c : TextCursor) (done left : List Char) (set : Candidates), c.Between done left → Fits (done ++ left) →
      ∃ d c', resolve options set c = .ok (d, c') ∧
        (∀ e, d.emission = some e → d.events = [.emitted e.kind e.length e.leading] ∧
          d.events.map Event.printed = [.debug (foundText e.kind e.length e.leading)]) ∧
        (d.emission = none → (∀ events, d.events = events ↔ Declined set (left.dropWhile isBlank) events) ∧
          DeclinedPrinted set (left.dropWhile isBlank) (d.events.map Event.printed)) := by
  constructor
  · obtain ⟨scan, hrun, hcourse⟩ := Scan.exists_course options text host fits
    obtain ⟨found, last, htokens, hevents, haccounts, hfinished, hstuck⟩ := hcourse.exists_log fits
    simp only [List.length_nil, Nat.zero_add] at hfinished
    have hprinted : scan.events.map Event.printed = printedTokens 0 0 scan.tokens ++ last.map Event.printed := by
      rw [hevents, List.map_append, replay_printed haccounts, htokens]
      rfl
    simp only [List.length_nil, Nat.zero_add] at haccounts
    refine ⟨_, found, last, hrun, htokens, congrArg (.scanning :: ·) hevents, congrArg (_ :: ·) hprinted, ?_, ?_⟩
    · intro before e t after h
      obtain ⟨hkind, -, -, hlen⟩ := haccounts before e t after h
      obtain ⟨hstop, hstart⟩ := Emission.spans_of_accounts haccounts h
      exact ⟨hkind, hstop, hlen, hstart⟩
    · cases hs : scan.stuck with
      | none =>
        have hlast : last = [.finished scan.tokens.length] := by
          rw [hfinished hs, htokens, List.length_map]
        exact .inl ⟨rfl, hlast, congrArg (List.map Event.printed) hlast⟩
      | some p =>
        obtain ⟨qs, q, hqs, hposition, hdeclined⟩ := hstuck p hs
        exact .inr ⟨p, qs, q, rfl, hqs, hposition, hdeclined, hdeclined.printed⟩
  · intro c done left set h hfits
    obtain ⟨c', hrun', -⟩ := h.exists_resolve hfits options set
    refine ⟨_, c', hrun', fun e he => ?_, fun he => ?_⟩
    · have hevents := Decision.events_of_emission he
      exact ⟨hevents, congrArg (List.map Event.printed) hevents⟩
    · exact ⟨fun events => Decision.events_eq_iff he, (Decision.events_declined he).printed⟩

/-- A command that ends before a blank line: the log of a request there has two entries. -/
theorem scan_log_of_blank_line :
    (∃ scan found last, Scan.of {} "$?\t;\n \n"
        (fun _ _ => .ofList [.multilineCmdSentinel, .dollarExpansion, .semicolon]) = .ok scan ∧
      scan.tokens = found.map Prod.snd ∧ scan.events = .scanning :: (replay 0 found ++ last) ∧
      scan.events.map Event.printed =
        .debug "Scanning..." :: (printedTokens 0 0 scan.tokens ++ last.map Event.printed)) ∧
    ∃ d c', resolve {} (.ofList [.multilineCmdSentinel, .dollarExpansion, .semicolon]) (TextCursor.ofString "\n \n") =
        .ok (d, c') ∧
      d.events = [.blankLine, .rejected (some '\n') [.dollarExpansion, .semicolon, .multilineCmdSentinel]] ∧
      d.events.map Event.printed = [.trace "blank line inside multiline command",
        .trace "rejected Some('\\n') for \x7bDollarExpansion, Semicolon, MultilineCmdSentinel\x7d"] := by
  obtain ⟨⟨scan, found, last, hrun, htokens, hevents, hprinted, -⟩, hrequest⟩ := scan_log {} "$?\t;\n \n"
    (fun _ _ => .ofList [.multilineCmdSentinel, .dollarExpansion, .semicolon]) (by decide)
  refine ⟨⟨scan, found, last, hrun, htokens, hevents, hprinted⟩, ?_⟩
  have hbetween := TextCursor.between_ofString "\n \n"
  obtain ⟨d, c', hresolve, -, hdeclined⟩ :=
    hrequest _ _ _ (.ofList [.multilineCmdSentinel, .dollarExpansion, .semicolon]) hbetween (by decide)
  have hnone : d.emission = none := by
    obtain ⟨c₁, hresolve₁, -⟩ := hbetween.exists_resolve (by decide) {}
      (.ofList [.multilineCmdSentinel, .dollarExpansion, .semicolon])
    rw [hresolve, Except.ok.injEq, Prod.mk.injEq] at hresolve₁
    rw [hresolve₁.1]
    decide +kernel
  have hblank : BlankLine " \n".toList := ⟨[' '], [], rfl, List.forall_mem_singleton.2 rfl⟩
  have herr : Kind.errorSentinel ∉ Candidates.ofList [.multilineCmdSentinel, .dollarExpansion, .semicolon] := by decide
  have hends : (Candidates.ofList [.multilineCmdSentinel, .dollarExpansion, .semicolon]).EndsCommand
      ("\n \n".toList.dropWhile isBlank) :=
    ⟨rfl, ⟨.semicolon, by decide, by decide⟩, by decide, by decide, hblank⟩
  obtain ⟨hevents', hprinted'⟩ := hdeclined hnone
  exact ⟨d, c', hresolve, (hevents' _).2 (.blankLine herr hends), hprinted'.blankLine herr hends⟩

end ContextScan
