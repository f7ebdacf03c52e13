import ContextScan.Proofs.Succession
import Mathlib.Data.Option.Basic
/-!
# Proofs.Extent — how far the token of an expansion reaches

The options decide whether the token of an expansion takes the operator behind the sigil along.  Where no operator
stands behind a sigil they decide nothing, and where one does they change the length of the token and nothing else
(`Decision.reading_options`).

An operator that is left in the text is never read: no token begins with one, but for a hat, and the bracket that a hat
then needs is left in its turn (`Course.stuck_after_sigil`).  So a scan that leaves operators in the text succeeds only if
there are none, and then it is the scan that takes them along (`Course.eq_of_sigilOnly`).
-/
namespace ContextScan

/-- **The characters that an expansion may take along** with its sigil. -/
def expansionOperators : List Char := ['*', '?', '#', '@', '\x7b', '[', '(']

/-- **A text begins with a sigil and an operator.** -/
def SigilBeforeOperator (cs : List Char) : Prop := ∃ c r, cs = '$' :: c :: r ∧ c ∈ expansionOperators

theorem mem_expansionOperators_iff {c : Char} :
    c ∈ expansionOperators ↔ Guard.isSpecialVariable c = true ∨ Guard.isExpansionOpener c = true := by
  simp [expansionOperators, Guard.isSpecialVariable, Guard.isExpansionOpener, or_assoc]

theorem plain_of_mem_operators {c : Char} (h : c ∈ expansionOperators) : isIdentChar c = false ∧ isBlank c = false := by
  have hall : ∀ c ∈ expansionOperators, isIdentChar c = false ∧ isBlank c = false := by
    simp only [expansionOperators, List.forall_mem_cons, List.not_mem_nil, false_implies, implies_true, and_true]
    decide
  exact hall c h

theorem Form.length_before_operator {options : Options} {n : Nat} {cs : List Char}
    (h : Form options .dollarExpansion n cs) (hop : SigilBeforeOperator cs) : n = options.dollarSpan.operatorLength := by
  obtain ⟨c, r, rfl, hc⟩ := hop
  cases h with
  | dollarName r hid =>
    rw [(plain_of_mem_operators hc).1] at hid
    cases hid
  | dollarSpecial => rfl
  | dollarOpener => rfl
  | punctuation r h => cases h.guard

/-! ## What the options change -/

section

variable (rules : Rules) (set : Candidates) (cs : List Char)

/-- **A guard says the same for all options**, unless it emits a sigil before an operator. -/
theorem Guard.reading_options (o o' : Options) (g : Guard) : g.reading rules o set cs = g.reading rules o' set cs ∨
    SigilBeforeOperator cs ∧ g.reading rules o set cs = .emit .dollarExpansion o.dollarSpan.operatorLength ∧
      g.reading rules o' set cs = .emit .dollarExpansion o'.dollarSpan.operatorLength := by
  cases g with
  | dollarExpansion =>
    simp only [reading]
    split
    · rename_i hc
      obtain ⟨-, r, rfl⟩ := and_head?_iff.1 hc
      cases r with
      | nil => exact .inl rfl
      | cons c r =>
        simp only [List.tail_cons]
        split
        · exact .inl rfl
        · split
          · rename_i hspecial
            cases r.head?.any isIdentChar with
            | true => exact .inl rfl
            | false => exact .inr ⟨⟨c, r, rfl, mem_expansionOperators_iff.2 (.inl hspecial)⟩, rfl, rfl⟩
          · cases hopener : isExpansionOpener c with
            | true => exact .inr ⟨⟨c, r, rfl, mem_expansionOperators_iff.2 (.inr hopener)⟩, rfl, rfl⟩
            | false => exact .inl rfl
    · exact .inl rfl
  | _ => exact .inl rfl

theorem firstReading_options (o o' : Options) : ∀ gs : List Guard,
    firstReading (Guard.reading rules o set cs) gs = firstReading (Guard.reading rules o' set cs) gs ∨
      SigilBeforeOperator cs ∧
        firstReading (Guard.reading rules o set cs) gs = .emit .dollarExpansion o.dollarSpan.operatorLength ∧
        firstReading (Guard.reading rules o' set cs) gs = .emit .dollarExpansion o'.dollarSpan.operatorLength
  | [] => .inl rfl
  | g :: gs => by
    simp only [firstReading]
    rcases Guard.reading_options rules set cs o o' g with hg | ⟨hop, hg, hg'⟩
    · rw [hg]
      split
      · exact firstReading_options o o' gs
      · exact .inl rfl
    · rw [hg, hg']
      exact .inr ⟨hop, rfl, rfl⟩

end

/-- **A request is decided in the same way for all options**, unless it finds a sigil before an operator; then it finds
it for all options, in the same place. -/
theorem Decision.reading_options (o o' : Options) (set : Candidates) (cs : List Char) :
    reading o set cs = reading o' set cs ∨ SigilBeforeOperator (cs.dropWhile isBlank) ∧
      (reading o set cs).emission =
        some ⟨.dollarExpansion, (cs.takeWhile isBlank).length, o.dollarSpan.operatorLength⟩ ∧
      (reading o' set cs).emission =
        some ⟨.dollarExpansion, (cs.takeWhile isBlank).length, o'.dollarSpan.operatorLength⟩ := by
  unfold reading
  split
  · exact .inl rfl
  · unfold Rules.reading
    rcases firstReading_options .standard set (cs.dropWhile isBlank) o o'
      Rules.standard.guards with h | ⟨hop, h, h'⟩
    · rw [h]
      exact .inl rfl
    · rw [h, h']
      exact .inr ⟨hop, rfl, rfl⟩

/-! ## An operator that is left in the text -/

theorem Kind.opens_operator {c : Char} (hc : c ∈ expansionOperators) (hne : c ≠ '@') (k : Kind) : k.opens c = false := by
  have hall : ∀ c ∈ ['*', '?', '#', '\x7b', '[', '('], k.opens c = false := by
    simp only [List.forall_mem_cons, List.not_mem_nil, false_implies, implies_true, and_true]
    cases k <;> decide
  exact hall c (by simpa [expansionOperators, hne] using hc)

theorem Kind.opens_hat {k : Kind} (h : k.opens '@' = true) : k = .hatExpansion := by
  revert h
  cases k <;> decide

theorem Form.of_hatExpansion {options : Options} {n : Nat} {r : List Char} (h : Form options .hatExpansion n ('@' :: r)) :
    n = 1 ∧ ∃ c r', r = c :: r' ∧ (isIdentChar c = true ∨ c ∈ ['[', '(']) := by
  cases h with
  | hatExpansion r h => exact ⟨rfl, _, r, rfl, h⟩
  | punctuation r h => cases h.guard

/-- A sigil before a hat is a special variable that no identifier follows. -/
theorem Form.of_sigil_hat {options : Options} {n : Nat} {r : List Char}
    (h : Form options .dollarExpansion n ('$' :: '@' :: r)) : ∀ c ∈ r.head?, isIdentChar c = false := by
  cases h with
  | dollarName r h => exact absurd h (by decide)
  | dollarSpecial h hr => exact hr
  | dollarOpener r h => exact absurd h (by decide)
  | punctuation r h => cases h.guard

namespace Course

variable {options : Options} {host : Host} {asked : List Query} {done left : List Char} {scan : Scan}

theorem stuck_of_not_opens {c : Char} {r : List Char} (h : Course options host asked done (c :: r) scan)
    (hc : isBlank c = false) (hopens : ∀ k : Kind, k.opens c = false) : scan.stuck ≠ none := by
  cases h with
  | finished hblank => simp [hc] at hblank
  | stuck => simp
  | token hblank he =>
    have ho := Decision.emission_opens he (List.dropWhile_cons_of_neg (by simp [hc]))
    rw [hopens] at ho
    cases ho

/-- **A scan does not get past an operator that a sigil has left in the text.** -/
theorem stuck_after_sigil {o : Options} {n : Nat} {c : Char} {r : List Char}
    (h : Course options host asked done (c :: r) scan) (hform : Form o .dollarExpansion n ('$' :: c :: r))
    (hc : c ∈ expansionOperators) : scan.stuck ≠ none := by
  by_cases hhat : c = '@'
  · subst hhat
    cases h with
    | finished hblank => simp [isBlank] at hblank
    | stuck => simp
    | @token _ _ _ gap word rest e later hblank he hleft hgap hword hgaps hne hplain hlater =>
      have hcut : e.Cuts ('@' :: r) gap word rest := ⟨hleft, hgap, hword, hgaps, hne, hplain⟩
      have hk : e.kind = .hatExpansion := Kind.opens_hat (Decision.emission_opens he rfl)
      obtain ⟨-, -, -, hfound⟩ := Decision.reading_emission_iff.1 he
      rw [hk] at hfound
      obtain ⟨hone, c, r', rfl, hnext⟩ := hfound.of_hatExpansion
      have hrest : c :: r' = rest :=
        (List.append_inj (show ['@'] ++ c :: r' = word ++ rest from hcut.dropWhile_eq) (hone.symm.trans hword.symm)).2
      -- The hat is read, but what it needs behind it is a bracket.
      have hbracket : c ∈ ['[', '('] := by
        refine hnext.resolve_left ?_
        rw [hform.of_sigil_hat c rfl]
        exact Bool.false_ne_true
      have hoperator : c ∈ expansionOperators ∧ c ≠ '@' := by
        simp only [List.mem_cons, List.not_mem_nil, or_false] at hbracket
        rcases hbracket with rfl | rfl <;> decide
      subst hrest
      exact hlater.stuck_of_not_opens (plain_of_mem_operators hoperator.1).2
        (Kind.opens_operator hoperator.1 hoperator.2)
  · exact h.stuck_of_not_opens (plain_of_mem_operators hc).2 (Kind.opens_operator hc hhat)

/-- **A scan that leaves operators in the text and succeeds is the scan that takes them along.** -/
theorem eq_of_sigilOnly {a b : Scan} (ha : Course ⟨.sigilOnly⟩ host asked done left a)
    (hb : Course ⟨.withOperator⟩ host asked done left b) (hs : a.stuck = none) : b = a := by
  induction ha generalizing b with
  | finished hblank =>
    cases hb with
    | finished => rfl
    | stuck hblank' => rw [hblank] at hblank'; cases hblank'
    | token hblank' => rw [hblank] at hblank'; cases hblank'
  | stuck => cases hs
  | @token asked done left gap word rest e later hblank he hleft hgap hword hgaps hne hplain hlater ih =>
    have hcut : e.Cuts left gap word rest := ⟨hleft, hgap, hword, hgaps, hne, hplain⟩
    rcases Decision.reading_options ⟨.sigilOnly⟩ ⟨.withOperator⟩ (host asked (.between done left)) left with
      hsame | ⟨hop, hsigil, -⟩
    · rw [hsame] at he ⊢
      cases hb with
      | finished hblank' => rw [hblank] at hblank'; cases hblank'
      | stuck _ he' => rw [he] at he'; cases he'
      | @token _ _ _ gap' word' rest' e' later' _ he' hleft' hgap' hword' _ _ _ hlater' =>
        rw [he, Option.some.injEq] at he'
        subst he'
        obtain ⟨rfl, rfl, rfl⟩ := hcut.unique hleft' hgap' hword'
        rw [ih hlater' hs]
    · -- The operator that stays in the text is where the scan would get stuck.
      rw [he, Option.some.injEq] at hsigil
      obtain ⟨-, -, -, hform⟩ := Decision.reading_emission_iff.1 he
      obtain ⟨c, r, hrest, hc⟩ := hop
      rw [hrest, hsigil] at hform
      have hlen : word.length = 1 := by rw [hword, hsigil]; rfl
      have hcs : ['$'] ++ c :: r = word ++ rest := hrest.symm.trans hcut.dropWhile_eq
      obtain rfl := (List.append_inj hcs hlen.symm).2
      exact absurd hs (hlater.stuck_after_sigil hform hc)

end Course

/-! ## Requests and scans -/

/-- **Two tokens that differ in their extent at most**: `e` takes an operator along and `e'` leaves it in the text, after
the blanks of which `cs` is left. -/
structure Emission.SameButExtent (cs : List Char) (e e' : Emission) : Prop where
  kind_eq : e.kind = e'.kind
  leading_eq : e.leading = e'.leading
  operator : e.kind = .dollarExpansion → SigilBeforeOperator cs → e.length = 2 ∧ e'.length = 1
  length_eq : ¬(e.kind = .dollarExpansion ∧ SigilBeforeOperator cs) → e.length = e'.length

theorem Decision.reading_sameButExtent (set : Candidates) (cs : List Char) :
    Option.Rel (Emission.SameButExtent (cs.dropWhile isBlank)) (reading ⟨.withOperator⟩ set cs).emission
      (reading ⟨.sigilOnly⟩ set cs).emission := by
  rcases reading_options ⟨.withOperator⟩ ⟨.sigilOnly⟩ set cs with hsame | ⟨hop, hwide, hsigil⟩
  · rw [hsame]
    cases he : (reading ⟨.sigilOnly⟩ set cs).emission with
    | none => exact .none
    | some e =>
      refine .some ⟨rfl, rfl, fun hk hop => ?_, fun _ => rfl⟩
      -- Both forms are there, so the two lengths would be the same.
      obtain ⟨-, -, -, hform⟩ := reading_emission_iff.1 he
      rw [← hsame] at he
      obtain ⟨-, -, -, hform'⟩ := reading_emission_iff.1 he
      rw [hk] at hform hform'
      exact ⟨hform'.length_before_operator hop, hform.length_before_operator hop⟩
  · rw [hwide, hsigil]
    exact .some ⟨rfl, rfl, fun _ _ => ⟨rfl, rfl⟩, fun h => absurd ⟨rfl, hop⟩ h⟩

/-- **The extent of an expansion is all that the options change.**

A request on a text, asked with operators taken along and with operators left, finds no token both times, or tokens of
one kind behind the same blanks.  Their lengths differ only for an expansion before an operator, where they are two and
one.  And away from those, the two requests do the same altogether.

If a scan that leaves operators in the text succeeds, then the scan that takes them along against the same host is the
same scan: it succeeds with the same tokens, the same questions and the same log. -/
theorem dollarSpan_changes_extent :
    (∀ (c : TextCursor) (done left : List Char) (set : Candidates), c.Between done left → Fits (done ++ left) →
      ∃ d c₁ d' c₂, resolve ⟨.withOperator⟩ set c = .ok (d, c₁) ∧ resolve ⟨.sigilOnly⟩ set c = .ok (d', c₂) ∧
        Option.Rel (Emission.SameButExtent (left.dropWhile isBlank)) d.emission d'.emission ∧
        (¬SigilBeforeOperator (left.dropWhile isBlank) → d = d' ∧ c₁ = c₂)) ∧
    ∀ (text : String) (host : Host), Fits text.toList → ∀ (scan : Scan) (ts : List Token),
      Scan.of ⟨.sigilOnly⟩ text host = .ok scan → scan.result = .ok ts →
        Scan.of ⟨.withOperator⟩ text host = .ok scan := by
  constructor
  · intro c done left set h fits
    obtain ⟨c₁, hrun₁, -⟩ := h.exists_resolve fits ⟨.withOperator⟩ set
    obtain ⟨c₂, hrun₂, -⟩ := h.exists_resolve fits ⟨.sigilOnly⟩ set
    refine ⟨_, c₁, _, c₂, hrun₁, hrun₂, Decision.reading_sameButExtent set left, fun hop => ?_⟩
    have hsame := (Decision.reading_options ⟨.withOperator⟩ ⟨.sigilOnly⟩ set left).resolve_right fun h => hop h.1
    refine ⟨hsame, ?_⟩
    have hshows : (Cursor.lookahead c).Shows left := h.shows fits
    rw [resolve_of_shows hshows, hsame, ← resolve_of_shows hshows, hrun₂, Except.ok.injEq, Prod.mk.injEq] at hrun₁
    exact hrun₁.2.symm
  · intro text host fits scan ts hscan hts
    obtain ⟨a, ha, hca⟩ := Scan.exists_course ⟨.sigilOnly⟩ text host fits
    obtain ⟨b, hb, hcb⟩ := Scan.exists_course ⟨.withOperator⟩ text host fits
    rw [hscan, Except.ok.injEq] at ha
    subst ha
    obtain ⟨hs, -⟩ := Scan.stuck_of_result_ok hts
    rw [hb, hca.eq_of_sigilOnly hcb hs]

/-- A special variable in two extents, and a scan that meets a sigil with no operator behind it. -/
theorem dollarSpan_changes_extent_of_variable :
    (∃ d c₁ d' c₂, resolve ⟨.withOperator⟩ (.singleton .dollarExpansion) (TextCursor.ofString "\t$@;") = .ok (d, c₁) ∧
      resolve ⟨.sigilOnly⟩ (.singleton .dollarExpansion) (TextCursor.ofString "\t$@;") = .ok (d', c₂) ∧
      Option.Rel (Emission.SameButExtent ['$', '@', ';']) d.emission d'.emission) ∧
    ∃ scan ts, Scan.of ⟨.withOperator⟩ "$a= ;"
        (fun _ _ => .ofList [.dollarExpansion, .envVarName, .namedParamEq, .semicolon]) = .ok scan ∧
      scan.result = .ok ts ∧ ts.map Token.text = ["$", "a", "=", ";"] := by
  obtain ⟨hrequest, hscan⟩ := dollarSpan_changes_extent
  constructor
  · obtain ⟨d, c₁, d', c₂, hrun, hrun', hrel, -⟩ := hrequest _ _ _ (.singleton .dollarExpansion)
      (TextCursor.between_ofString "\t$@;") (by decide)
    exact ⟨d, c₁, d', c₂, hrun, hrun', hrel⟩
  · have hvalue : (Scan.of ⟨.sigilOnly⟩ "$a= ;"
        (fun _ _ => .ofList [.dollarExpansion, .envVarName, .namedParamEq, .semicolon])).toOption.map
          (fun scan => scan.result.toOption.map (List.map Token.text)) = some (some ["$", "a", "=", ";"]) := by
      decide +kernel
    cases hrun : Scan.of ⟨.sigilOnly⟩ "$a= ;"
        (fun _ _ => .ofList [.dollarExpansion, .envVarName, .namedParamEq, .semicolon]) with
    | error o => rw [hrun] at hvalue; cases hvalue
    | ok scan =>
      rw [hrun] at hvalue
      cases hresult : scan.result with
      | error e => simp [Except.toOption, hresult] at hvalue
      | ok ts => exact ⟨scan, ts, hscan _ _ (by decide) scan ts hrun hresult, hresult, by
          simpa [Except.toOption, hresult] using hvalue⟩

end ContextScan
