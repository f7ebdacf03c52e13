/-!
# Word — 64-bit arithmetic that refuses to wrap

Positions are counted in unsigned 64-bit words.  A sum or a difference that a word cannot hold is an `Overflow`, never
a wrapped number, so whatever is computed here agrees with the same computation on natural numbers
(`Word.add_eq_ok_iff`, `Word.sub_eq_ok_iff`).
-/
namespace ContextScan

universe u

/-- **The two ways word arithmetic fails**: the exact sum is too large, or the exact difference is negative. -/
inductive Overflow where
  | addition
  | subtraction
  deriving DecidableEq

def Overflow.message : Overflow → String
  | .addition => "attempt to add with overflow"
  | .subtraction => "attempt to subtract with overflow"

abbrev Checked (α : Type u) : Type u := Except Overflow α

namespace Checked

variable {α : Type u} {β : Type u}

/-- **A sequence of steps has a value exactly when every step has one.** -/
theorem bind_eq_ok_iff {x : Checked α} {f : α → Checked β} {b : β} :
    (x >>= f) = .ok b ↔ ∃ a, x = .ok a ∧ f a = .ok b := by
  cases x with
  | error e => exact ⟨(nomatch ·), fun ⟨_, h, _⟩ => nomatch h⟩
  | ok a => exact ⟨fun h => ⟨a, rfl, h⟩, fun ⟨_, rfl, h⟩ => h⟩

/-- **A sequence of steps fails where one of them does.** -/
theorem bind_eq_error_iff {x : Checked α} {f : α → Checked β} {e : Overflow} :
    (x >>= f) = .error e ↔ x = .error e ∨ ∃ a, x = .ok a ∧ f a = .error e := by
  cases x with
  | error e' =>
    refine ⟨fun h => .inl (congrArg _ (Except.error.inj h)), ?_⟩
    rintro (h | ⟨a, h, -⟩)
    · exact congrArg _ (Except.error.inj h)
    · cases h
  | ok a =>
    refine ⟨fun h => .inr ⟨a, rfl, h⟩, ?_⟩
    rintro (h | ⟨a, ha, h⟩)
    · cases h
    · cases ha
      exact h

theorem ok_bind (a : α) (f : α → Checked β) : ((.ok a : Checked α) >>= f) = f a := rfl

theorem pure_eq_ok_iff {a b : α} : (pure a : Checked α) = .ok b ↔ a = b :=
  ⟨fun h => Except.ok.inj h, fun h => h ▸ rfl⟩

end Checked

namespace Word

/-- **The exact sum**, if a word holds it. -/
def add (a b : UInt64) : Checked UInt64 :=
  if a.toNat + b.toNat < UInt64.size then .ok (a + b) else .error .addition

/-- **The exact difference**, if it is not negative. -/
def sub (a b : UInt64) : Checked UInt64 :=
  if b ≤ a then .ok (a - b) else .error .subtraction

theorem add_eq_ok_iff {a b c : UInt64} : add a b = .ok c ↔ c.toNat = a.toNat + b.toNat := by
  unfold add
  split
  · rename_i h
    rw [Except.ok.injEq, ← UInt64.toNat_inj, UInt64.toNat_add, Nat.mod_eq_of_lt h, eq_comm]
  · rename_i h
    exact ⟨(nomatch ·), fun e => absurd (e ▸ UInt64.toNat_lt_size c) h⟩

theorem add_eq_error_iff {a b : UInt64} {e : Overflow} :
    add a b = .error e ↔ UInt64.size ≤ a.toNat + b.toNat ∧ e = .addition := by
  unfold add
  split
  · rename_i h
    exact ⟨(nomatch ·), fun e => absurd h (Nat.not_lt.2 e.1)⟩
  · rename_i h
    rw [Except.error.injEq, eq_comm (a := Overflow.addition)]
    exact ⟨fun e => ⟨Nat.not_lt.1 h, e⟩, And.right⟩

theorem exists_add_iff {a b : UInt64} : (∃ c, add a b = .ok c) ↔ a.toNat + b.toNat < UInt64.size :=
  ⟨fun ⟨c, h⟩ => add_eq_ok_iff.1 h ▸ UInt64.toNat_lt_size c, fun h => ⟨a + b, if_pos h⟩⟩

theorem sub_eq_ok_iff {a b c : UInt64} : sub a b = .ok c ↔ a.toNat = b.toNat + c.toNat := by
  unfold sub
  split
  · rename_i h
    have hn := UInt64.le_iff_toNat_le.1 h
    rw [Except.ok.injEq, ← UInt64.toNat_inj, UInt64.toNat_sub_of_le _ _ h]
    omega
  · rename_i h
    have hn : ¬ b.toNat ≤ a.toNat := fun hle => h (UInt64.le_iff_toNat_le.2 hle)
    exact ⟨(nomatch ·), fun e => by omega⟩

theorem sub_eq_error_iff {a b : UInt64} {e : Overflow} :
    sub a b = .error e ↔ a.toNat < b.toNat ∧ e = .subtraction := by
  unfold sub
  split
  · rename_i h
    exact ⟨(nomatch ·), fun e => absurd (UInt64.le_iff_toNat_le.1 h) (Nat.not_le.2 e.1)⟩
  · rename_i h
    rw [Except.error.injEq, eq_comm (a := Overflow.subtraction)]
    exact ⟨fun e => ⟨Nat.not_le.1 fun hle => h (UInt64.le_iff_toNat_le.2 hle), e⟩, And.right⟩

end Word
end ContextScan
