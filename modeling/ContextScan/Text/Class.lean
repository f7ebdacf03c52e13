/-!
# Text.Class — the character classes of the token grammar

Blanks separate tokens; identifiers name variables.  All classes are ASCII by definition of the grammar: a letter or
digit of another script belongs to none of them, and no line ending or exotic space is a blank.
-/
namespace ContextScan

/-- **Blanks** are the space and the tab, and nothing else. -/
def isBlank (c : Char) : Bool := c == ' ' || c == '\t'

def isIdentStart (c : Char) : Bool := c.isAlpha || c == '_'

def isIdentChar (c : Char) : Bool := isIdentStart c || c.isDigit

theorem isIdentChar_of_isIdentStart {c : Char} (h : isIdentStart c = true) : isIdentChar c = true := by
  simp [isIdentChar, h]

theorem isIdentStart_iff {c : Char} : isIdentStart c = true ↔ 'A' ≤ c ∧ c ≤ 'Z' ∨ 'a' ≤ c ∧ c ≤ 'z' ∨ c = '_' := by
  have hupper : c.isUpper = true ↔ 'A' ≤ c ∧ c ≤ 'Z' := decide_eq_true_iff
  have hlower : c.isLower = true ↔ 'a' ≤ c ∧ c ≤ 'z' := by
    show (decide ('a' ≤ c) && decide (c ≤ 'z')) = true ↔ _
    rw [Bool.and_eq_true, decide_eq_true_iff, decide_eq_true_iff]
  show (c.isUpper || c.isLower || c == '_') = true ↔ _
  rw [Bool.or_eq_true, Bool.or_eq_true, hupper, hlower, beq_iff_eq, or_assoc]

theorem isIdentChar_iff {c : Char} : isIdentChar c = true ↔ isIdentStart c = true ∨ '0' ≤ c ∧ c ≤ '9' := by
  show (isIdentStart c || (decide ('0' ≤ c) && decide (c ≤ '9'))) = true ↔ _
  rw [Bool.or_eq_true, Bool.and_eq_true, decide_eq_true_iff, decide_eq_true_iff]

/-- **Identifiers are ASCII.** -/
theorem toNat_lt_of_isIdentChar {c : Char} (h : isIdentChar c = true) : c.toNat < 128 := by
  have hle : ∀ d : Char, d.toNat < 128 → c ≤ d → c.toNat < 128 := fun d hd hc => Nat.lt_of_le_of_lt hc hd
  rcases isIdentChar_iff.1 h with h | h
  · rcases isIdentStart_iff.1 h with h | h | rfl
    · exact hle 'Z' (by decide) h.2
    · exact hle 'z' (by decide) h.2
    · decide
  · exact hle '9' (by decide) h.2

theorem isIdentChar_eq_false_of_isBlank {c : Char} (h : isBlank c = true) : isIdentChar c = false := by
  simp only [isBlank, Bool.or_eq_true, beq_iff_eq] at h
  rcases h with rfl | rfl <;> decide

end ContextScan
