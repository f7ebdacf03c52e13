import ContextScan.Proofs.Log
/-!
# Proofs.Priority — which guards have to be asked first

Guards are asked in turn, and the first that does not pass decides.  But two guards are called for on one text only if
one is the other's rival, so a guard that is called for decides wherever it stands, as long as it stands before its
rival (`Rules.reading_of_first`).  There are two pairs of rivals; any order of the guards that keeps both pairs in order,
with any order of the marks of punctuation, says what the order of the grammar says, and any other can be told from it
(`Rules.recognize_of_reordered`).
-/
namespace ContextScan

/-! ## Orders of a list -/

/-- A search for the one entry that qualifies does not depend on the order. -/
theorem find?_eq_of_perm {α : Type} {p : α → Bool} {xs ys : List α} (h : xs.Perm ys)
    (hone : ∀ x ∈ xs, ∀ y ∈ xs, p x = true → p y = true → x = y) : xs.find? p = ys.find? p := by
  cases hx : xs.find? p with
  | none =>
    rw [List.find?_eq_none] at hx
    exact (List.find?_eq_none.2 fun y hy => hx y (h.mem_iff.2 hy)).symm
  | some x =>
    cases hy : ys.find? p with
    | none => exact absurd (List.find?_some hx) (List.find?_eq_none.1 hy x (h.mem_iff.1 (List.mem_of_find?_eq_some hx)))
    | some y =>
      rw [hone x (List.mem_of_find?_eq_some hx) y (h.mem_iff.2 (List.mem_of_find?_eq_some hy)) (List.find?_some hx)
        (List.find?_some hy)]

theorem not_mem_takeWhile_of_sublist {α : Type} [DecidableEq α] {a b : α} : ∀ {xs : List α}, xs.Nodup →
    [a, b].Sublist xs → b ∉ xs.takeWhile (· ≠ a)
  | x :: xs, hnodup, hsub => by
    rw [List.nodup_cons] at hnodup
    by_cases hx : x = a
    · simp [hx]
    · rw [List.takeWhile_cons_of_pos (by simpa using hx), List.mem_cons, not_or]
      have hsub' : [a, b].Sublist xs := by
        cases hsub with
        | cons _ h => exact h
        | cons_cons _ h => exact absurd rfl hx
      refine ⟨?_, not_mem_takeWhile_of_sublist hnodup.2 hsub'⟩
      rintro rfl
      exact hnodup.1 (hsub'.subset (by simp))

namespace Rules

/-- **Rules in some order**: the guards and the marks of punctuation of the grammar, each of them once. -/
structure Reordered (rules : Rules) : Prop where
  guards : rules.guards.Perm standard.guards
  punctuation : rules.punctuation.Perm standard.punctuation

/-- **One guard is asked before another.** -/
def AsksBefore (rules : Rules) (g g' : Guard) : Prop := [g, g'].Sublist rules.guards

instance (rules : Rules) (g g' : Guard) : Decidable (rules.AsksBefore g g') :=
  inferInstanceAs (Decidable ([g, g'].Sublist rules.guards))

variable {rules : Rules} {options : Options} {set : Candidates} {cs : List Char}

theorem Reordered.punctuationVerdict_eq (h : rules.Reordered) (first : Option Char) :
    Guard.punctuationVerdict rules.punctuation set first = Guard.punctuationVerdict standard.punctuation set first := by
  -- No two marks of punctuation share a character.
  have hmarks : ∀ x ∈ standard.punctuation, ∀ y ∈ standard.punctuation, x.1 = y.1 → x = y := by decide
  unfold Guard.punctuationVerdict
  rw [find?_eq_of_perm h.punctuation]
  intro x hx y hy hpx hpy
  simp only [Bool.and_eq_true, beq_iff_eq] at hpx hpy
  have hfirst : some x.1 = some y.1 := hpx.2.symm.trans hpy.2
  exact hmarks x (h.punctuation.mem_iff.1 hx) y (h.punctuation.mem_iff.1 hy) (Option.some.inj hfirst)

theorem Reordered.guard_reading_eq (h : rules.Reordered) (g : Guard) :
    g.reading rules options set cs = g.reading standard options set cs := by
  cases g with
  | punctuation => exact h.punctuationVerdict_eq cs.head?
  | _ => rfl

/-- **A guard that is called for decides if it is asked before every other that is called for.** -/
theorem Reordered.reading_of_first (h : rules.Reordered) {g : Guard} (hg : g.triggered standard set cs.head? = true)
    (hfirst : ∀ g', g'.triggered standard set cs.head? = true → g' ≠ g → rules.AsksBefore g g') :
    rules.reading options set cs = g.reading standard options set cs := by
  have hnodup : rules.guards.Nodup := h.guards.nodup_iff.2 (by decide)
  have hdecides : g.reading rules options set cs ≠ .pass := by
    rw [h.guard_reading_eq, ne_eq, Guard.reading_eq_pass_iff, hg]
    exact Bool.noConfusion
  rw [← h.guard_reading_eq]
  refine firstReading_eq_of_before hdecides (h.guards.mem_iff.2 (mem_standard_guards g)) fun g' hg' => ?_
  have hne : g' ≠ g := by simpa using List.mem_takeWhile_imp hg'
  rw [h.guard_reading_eq, Guard.reading_eq_pass_iff, Bool.eq_false_iff]
  exact fun ht => not_mem_takeWhile_of_sublist hnodup (hfirst g' ht hne) hg'

/-- Of the guards that are called for, one has no rival among the others. -/
theorem exists_triggered_without_rival {first : Option Char} {g : Guard} (hg : g.triggered standard set first = true) :
    ∃ g' : Guard, g'.triggered standard set first = true ∧
      ∀ r, g'.rival = some r → r.triggered standard set first = false := by
  by_cases hr : ∃ r, g.rival = some r ∧ r.triggered standard set first = true
  · obtain ⟨r, hr, hrt⟩ := hr
    -- A rival has no rival itself.
    have hnone : r.rival = none := by cases g <;> cases hr <;> rfl
    exact ⟨r, hrt, fun r' hr' => by rw [hnone] at hr'; cases hr'⟩
  · exact ⟨g, hg, fun r hgr => Bool.eq_false_iff.2 fun hrt => hr ⟨r, hgr, hrt⟩⟩

/-- **Rules that keep both pairs of rivals in order read what the rules of the grammar read.** -/
theorem Reordered.reading_eq (h : rules.Reordered) (hequals : rules.AsksBefore .namedParamEq .envEqual)
    (hname : rules.AsksBefore .byteString .declaration) :
    rules.reading options set cs = standard.reading options set cs := by
  by_cases hany : ∃ g : Guard, g.triggered standard set cs.head? = true
  · obtain ⟨g₀, hg₀⟩ := hany
    obtain ⟨g, hg, hrival⟩ := exists_triggered_without_rival hg₀
    rw [standard_reading_of_triggered hg hrival]
    refine h.reading_of_first hg fun g' hg' hne => ?_
    rcases Guard.rival_of_triggered hg hg' with rfl | hgr | hgr
    · exact absurd rfl hne
    · rw [hrival g' hgr] at hg'
      cases hg'
    · cases g' <;> cases hgr
      · exact hequals
      · exact hname
  · have hpass : ∀ g : Guard, g.reading standard options set cs = .pass :=
      fun g => Guard.reading_eq_pass_iff.2 (Bool.eq_false_iff.2 fun ht => hany ⟨g, ht⟩)
    have hleft : rules.reading options set cs = .pass :=
      firstReading_eq_pass_iff.2 fun g _ => (h.guard_reading_eq g).trans (hpass g)
    exact hleft.trans (firstReading_eq_pass_iff.2 fun g _ => hpass g).symm

/-- **Where a guard is asked before its rival and both are called for, the answer is the guard's own.** -/
theorem Reordered.recognize_ne (h : rules.Reordered) {g r : Guard} (hrival : g.rival = some r)
    (hswap : rules.AsksBefore g r) (hg : g.triggered standard set cs.head? = true)
    (hr : r.triggered standard set cs.head? = true)
    (hne : g.reading standard options set cs ≠ r.reading standard options set cs) :
    rules.recognize options set cs.head? (.ofList cs) ≠ standard.recognize options set cs.head? (.ofList cs) := by
  have hleft : rules.reading options set cs = g.reading standard options set cs := by
    refine h.reading_of_first hg fun g' hg' hother => ?_
    rcases Guard.rival_of_triggered hg hg' with rfl | hgr | hgr
    · exact absurd rfl hother
    · rw [hrival] at hgr
      cases hgr
      exact hswap
    · cases g' <;> cases hgr <;> cases hrival
  have hright : standard.reading options set cs = r.reading standard options set cs :=
    standard_reading_of_triggered hr fun r' hr' => by cases g <;> cases hrival <;> cases hr'
  rw [recognize_eq_reading (Lookahead.shows_ofList cs), recognize_eq_reading (Lookahead.shows_ofList cs), hleft, hright]
  exact fun heq => hne (Except.ok.inj heq)

/-- **Only two of the priorities among the guards can be observed.**

Take the guards in any order, and the marks of punctuation in any order.  If the guard for the equals sign of a parameter
is asked before the one for that of a binding, and the guard for byte strings before the one for declarations, then
every text is given the verdict that the rules of the grammar give it, for every set and all options.  If one of the two
is the other way round, some text is given another verdict for some set. -/
theorem recognize_of_reordered (h : rules.Reordered) :
    (rules.AsksBefore .namedParamEq .envEqual → rules.AsksBefore .byteString .declaration →
      ∀ (options : Options) (set : Candidates) (cs : List Char) (look : Lookahead), look.Shows cs →
        ∃ v, rules.recognize options set cs.head? look = .ok v ∧
          standard.recognize options set cs.head? look = .ok v) ∧
    (rules.AsksBefore .envEqual .namedParamEq ∨ rules.AsksBefore .declaration .byteString →
      ∀ options : Options, ∃ set cs, rules.recognize options set cs.head? (.ofList cs) ≠
        standard.recognize options set cs.head? (.ofList cs)) := by
  constructor
  · intro hequals hname options set cs look hlook
    refine ⟨_, recognize_eq_reading hlook, ?_⟩
    rw [recognize_eq_reading hlook, h.reading_eq hequals hname]
  · rintro (hswap | hswap) options
    · refine ⟨.ofList [.namedParamEq, .envEqual], ['='], h.recognize_ne rfl hswap (by decide) (by decide) ?_⟩
      show Guard.envEqual.reading standard {} (.ofList [.namedParamEq, .envEqual]) ['='] ≠
        Guard.namedParamEq.reading standard {} (.ofList [.namedParamEq, .envEqual]) ['=']
      decide
    · refine ⟨.ofList [.byteStringMarker, .envVarName], ['b', '='], h.recognize_ne rfl hswap (by decide) (by decide) ?_⟩
      show Guard.declaration.reading standard {} (.ofList [.byteStringMarker, .envVarName]) ['b', '='] ≠
        Guard.byteString.reading standard {} (.ofList [.byteStringMarker, .envVarName]) ['b', '=']
      decide

/-- The guards back to front but for the two pairs of rivals, and the guards back to front altogether. -/
theorem recognize_of_reordered_back_to_front :
    (∃ v, Rules.recognize
        ⟨[.byteString, .declaration, .namedParamEq, .envEqual, .hatExpansion, .dollarExpansion, .punctuation, .terminator],
          standard.punctuation.reverse⟩ {} .all (some 'b') (.ofList ['b', '=']) = .ok v ∧
      standard.recognize {} .all (some 'b') (.ofList ['b', '=']) = .ok v) ∧
    ∃ set cs, Rules.recognize ⟨standard.guards.reverse, standard.punctuation⟩ {} set cs.head? (.ofList cs) ≠
      standard.recognize {} set cs.head? (.ofList cs) := by
  constructor
  · exact (recognize_of_reordered ⟨by decide, by decide⟩).1 (by decide) (by decide) {} .all ['b', '='] (.ofList ['b', '='])
      (Lookahead.shows_ofList _)
  · exact (recognize_of_reordered ⟨by decide, by decide⟩).2 (.inl (by decide)) {}

end Rules
end ContextScan
