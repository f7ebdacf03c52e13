import ContextScan.Guard
/-!
# Guard.Lemmas — what an emitting verdict tells

A guard emits only if it has seen a first character, and its token covers that one at least (`verdict_eq_emit`).  What
the guards say together is what one of them says (`firstVerdict_eq_ok`), so the same holds of `Rules.recognize`.
-/
namespace ContextScan

namespace Guard

variable {options : Options} {set : Candidates} {first : Option Char} {ahead : Lookahead} {k : Kind} {n : Nat}

theorem isSome_of_called {called : Bool} {c : Char} (h : (called && first == some c) = true) : first.isSome = true := by
  rw [Bool.and_eq_true, beq_iff_eq] at h
  rw [h.2]
  rfl

/-- A guard that watches for one character, and looks at the one behind it. -/
theorem emitIf_peek_eq_emit {called : Bool} {mark : Char} {test : Option Char → Bool} {kind : Kind}
    (h : (if called && first == some mark then do return .emitIf (test (← ahead.peek 1)) kind 1 else return .pass) =
      (.ok (.emit k n) : Checked Verdict)) : first.isSome = true ∧ 0 < n := by
  split at h
  · rename_i hcalled
    obtain ⟨c, -, h⟩ := Checked.bind_eq_ok_iff.1 h
    obtain ⟨-, -, rfl⟩ := Verdict.emitIf_eq_emit (Checked.pure_eq_ok_iff.1 h)
    exact ⟨isSome_of_called hcalled, Nat.one_pos⟩
  · cases Checked.pure_eq_ok_iff.1 h

theorem terminatorVerdict_eq_emit (h : terminatorVerdict set first ahead = .ok (.emit k n)) :
    first.isSome = true ∧ 0 < n := by
  unfold terminatorVerdict at h
  split at h
  · rename_i hcalled
    refine ⟨isSome_of_called hcalled, ?_⟩
    split at h
    · obtain ⟨next, -, h⟩ := Checked.bind_eq_ok_iff.1 h
      obtain ⟨c, -, h⟩ := Checked.bind_eq_ok_iff.1 h
      split at h
      · cases Checked.pure_eq_ok_iff.1 h
      · cases Checked.pure_eq_ok_iff.1 h
        exact Nat.one_pos
    · cases Checked.pure_eq_ok_iff.1 h
      exact Nat.one_pos
  · cases Checked.pure_eq_ok_iff.1 h

theorem punctuationVerdict_eq_emit {table : List (Char × Kind)} (h : punctuationVerdict table set first = .emit k n) :
    first.isSome = true ∧ 0 < n := by
  unfold punctuationVerdict at h
  split at h
  · rename_i entry hentry
    cases h
    have hcalled := List.find?_some hentry
    exact ⟨isSome_of_called hcalled, Nat.one_pos⟩
  · cases h

theorem dollarExpansionVerdict_eq_emit (h : dollarExpansionVerdict options set first ahead = .ok (.emit k n)) :
    first.isSome = true ∧ 0 < n := by
  have hoperator : 0 < options.dollarSpan.operatorLength := by cases options.dollarSpan <;> decide
  unfold dollarExpansionVerdict at h
  split at h
  · rename_i hcalled
    refine ⟨isSome_of_called hcalled, ?_⟩
    obtain ⟨c, -, h⟩ := Checked.bind_eq_ok_iff.1 h
    split at h
    · cases Checked.pure_eq_ok_iff.1 h
    · split at h
      · cases Checked.pure_eq_ok_iff.1 h
        exact Nat.one_pos
      · split at h
        · obtain ⟨d, -, h⟩ := Checked.bind_eq_ok_iff.1 h
          obtain ⟨-, -, rfl⟩ := Verdict.emitIf_eq_emit (Checked.pure_eq_ok_iff.1 h)
          exact hoperator
        · obtain ⟨-, -, rfl⟩ := Verdict.emitIf_eq_emit (Checked.pure_eq_ok_iff.1 h)
          exact hoperator
  · cases Checked.pure_eq_ok_iff.1 h

theorem declarationVerdict_eq_emit (h : declarationVerdict set first ahead = .ok (.emit k n)) :
    first.isSome = true ∧ 0 < n := by
  unfold declarationVerdict at h
  split at h
  · rename_i hcalled
    rw [Bool.and_eq_true] at hcalled
    obtain ⟨length, hlength, h⟩ := Checked.bind_eq_ok_iff.1 h
    have hpos : 0 < length := (Lookahead.skip_eq_ok hlength).1
    refine ⟨by cases first with | none => cases hcalled.2 | some c => rfl, ?_⟩
    obtain ⟨next, -, h⟩ := Checked.bind_eq_ok_iff.1 h
    split at h
    · cases Checked.pure_eq_ok_iff.1 h
      exact hpos
    · split at h
      · obtain ⟨equals, -, h⟩ := Checked.bind_eq_ok_iff.1 h
        obtain ⟨c, -, h⟩ := Checked.bind_eq_ok_iff.1 h
        split at h
        · obtain ⟨d, -, h⟩ := Checked.bind_eq_ok_iff.1 h
          obtain ⟨-, -, rfl⟩ := Verdict.emitIf_eq_emit (Checked.pure_eq_ok_iff.1 h)
          exact hpos
        · cases Checked.pure_eq_ok_iff.1 h
      · cases Checked.pure_eq_ok_iff.1 h
  · cases Checked.pure_eq_ok_iff.1 h

/-- **A guard emits only where there is a character, and at least that one.** -/
theorem verdict_eq_emit {rules : Rules} {g : Guard} (h : g.verdict rules options set first ahead = .ok (.emit k n)) :
    first.isSome = true ∧ 0 < n := by
  cases g with
  | terminator => exact terminatorVerdict_eq_emit h
  | punctuation => exact punctuationVerdict_eq_emit (Except.ok.inj h)
  | dollarExpansion => exact dollarExpansionVerdict_eq_emit h
  | namedParamEq => exact emitIf_peek_eq_emit h
  | hatExpansion => exact emitIf_peek_eq_emit h
  | byteString => exact emitIf_peek_eq_emit h
  | envEqual => exact emitIf_peek_eq_emit h
  | declaration => exact declarationVerdict_eq_emit h

end Guard

/-- **A decided verdict is some guard's own.** -/
theorem firstVerdict_eq_ok {ask : Guard → Checked Verdict} : ∀ {gs : List Guard} {v : Verdict},
    firstVerdict ask gs = .ok v → v = .pass ∨ ∃ g ∈ gs, ask g = .ok v
  | [], v, h => .inl (Except.ok.inj h).symm
  | g :: gs, v, h => by
    obtain ⟨w, hw, h⟩ := Checked.bind_eq_ok_iff.1 h
    split at h
    · rcases firstVerdict_eq_ok h with h | ⟨g', hg, h⟩
      · exact .inl h
      · exact .inr ⟨g', List.mem_cons_of_mem _ hg, h⟩
    · cases Checked.pure_eq_ok_iff.1 h
      exact .inr ⟨g, List.mem_cons_self, hw⟩

theorem Rules.recognize_eq_emit {rules : Rules} {options : Options} {set : Candidates} {first : Option Char}
    {ahead : Lookahead} {k : Kind} {n : Nat}
    (h : rules.recognize options set first ahead = .ok (.emit k n)) : first.isSome = true ∧ 0 < n := by
  rcases firstVerdict_eq_ok h with h | ⟨g, -, h⟩
  · cases h
  · exact Guard.verdict_eq_emit h

end ContextScan
