import ContextScan.Word
import ContextScan.Text.Debug
/-!
# Position — where in a text

A position counts the characters, the UTF-8 bytes and the lines before it, and the characters since the line began.
Characters are Unicode scalar values; only a line feed ends a line.  Index and byte offset start at 0, line and column
at 1.  All four are words, so stepping over a character may overflow; `after_eq_ok` says what a step that does not
overflow computes, and `exists_after_iff` which steps these are.
-/
namespace ContextScan

/-- **A place between two characters of a text.** -/
structure Position where
  index : UInt64 := 0
  byteOffset : UInt64 := 0
  line : UInt64 := 1
  column : UInt64 := 1
  deriving DecidableEq

namespace Position

def start : Position := {}

instance : Inhabited Position := ⟨start⟩

/-- **The position past one character.** -/
def after (p : Position) (c : Char) : Checked Position := do
  let index ← Word.add p.index 1
  let byteOffset ← Word.add p.byteOffset (UInt64.ofNat c.utf8Size)
  if c = '\n' then
    return { index, byteOffset, line := ← Word.add p.line 1, column := 1 }
  else
    return { index, byteOffset, line := p.line, column := ← Word.add p.column 1 }

def through (p : Position) (cs : List Char) : Checked Position := cs.foldlM after p

instance : ToString Position := ⟨fun p => s!"{p.line},{p.column}"⟩

def debug (p : Position) : String :=
  debugRecord "SourcePosition"
    [("index", toString p.index), ("byte_offset", toString p.byteOffset), ("line", toString p.line),
      ("column", toString p.column)]

theorem toNat_utf8Size (c : Char) : (UInt64.ofNat c.utf8Size).toNat = c.utf8Size :=
  UInt64.toNat_ofNat_of_lt' (Nat.lt_of_le_of_lt c.utf8Size_le_four (by decide))

/-- **One step, counted in natural numbers.** -/
theorem after_eq_ok {p q : Position} {c : Char} (h : p.after c = .ok q) :
    q.index.toNat = p.index.toNat + 1 ∧
    q.byteOffset.toNat = p.byteOffset.toNat + c.utf8Size ∧
    q.line.toNat = p.line.toNat + (if c = '\n' then 1 else 0) ∧
    q.column.toNat = if c = '\n' then 1 else p.column.toNat + 1 := by
  obtain ⟨i, hi, h⟩ := Checked.bind_eq_ok_iff.1 h
  obtain ⟨b, hb, h⟩ := Checked.bind_eq_ok_iff.1 h
  have hi := Word.add_eq_ok_iff.1 hi
  have hb := Word.add_eq_ok_iff.1 hb
  by_cases hc : c = '\n'
  · rw [if_pos hc] at h
    obtain ⟨l, hl, h⟩ := Checked.bind_eq_ok_iff.1 h
    cases Checked.pure_eq_ok_iff.1 h
    exact ⟨hi, toNat_utf8Size c ▸ hb, by rw [if_pos hc]; exact Word.add_eq_ok_iff.1 hl, by rw [if_pos hc]; rfl⟩
  · rw [if_neg hc] at h
    obtain ⟨n, hn, h⟩ := Checked.bind_eq_ok_iff.1 h
    cases Checked.pure_eq_ok_iff.1 h
    exact ⟨hi, toNat_utf8Size c ▸ hb, by rw [if_neg hc]; rfl, by rw [if_neg hc]; exact Word.add_eq_ok_iff.1 hn⟩

/-- **A step overflows in the counts that it raises, and only there.** -/
theorem exists_after_iff {p : Position} {c : Char} : (∃ q, p.after c = .ok q) ↔
    p.index.toNat + 1 < UInt64.size ∧ p.byteOffset.toNat + c.utf8Size < UInt64.size ∧
      (c = '\n' → p.line.toNat + 1 < UInt64.size) ∧ (c ≠ '\n' → p.column.toNat + 1 < UInt64.size) := by
  constructor
  · rintro ⟨q, h⟩
    obtain ⟨hindex, hbytes, hline, hcolumn⟩ := after_eq_ok h
    refine ⟨hindex ▸ q.index.toNat_lt_size, hbytes ▸ q.byteOffset.toNat_lt_size, fun hc => ?_, fun hc => ?_⟩
    · rw [if_pos hc] at hline
      exact hline ▸ q.line.toNat_lt_size
    · rw [if_neg hc] at hcolumn
      exact hcolumn ▸ q.column.toNat_lt_size
  · rintro ⟨hindex, hbytes, hline, hcolumn⟩
    rw [← toNat_utf8Size c] at hbytes
    obtain ⟨i, hi⟩ := (Word.exists_add_iff (a := p.index) (b := 1)).2 hindex
    obtain ⟨b, hb⟩ := Word.exists_add_iff.2 hbytes
    rw [after, hi, Checked.ok_bind, hb, Checked.ok_bind]
    by_cases hc : c = '\n'
    · obtain ⟨l, hl⟩ := (Word.exists_add_iff (a := p.line) (b := 1)).2 (hline hc)
      rw [if_pos hc, hl]
      exact ⟨_, rfl⟩
    · obtain ⟨n, hn⟩ := (Word.exists_add_iff (a := p.column) (b := 1)).2 (hcolumn hc)
      rw [if_neg hc, hn]
      exact ⟨_, rfl⟩

theorem after_eq_error {p : Position} {c : Char} {e : Overflow} (h : p.after c = .error e) : e = .addition := by
  have sum {a b : UInt64} (h : Word.add a b = .error e) : e = .addition := (Word.add_eq_error_iff.1 h).2
  rcases Checked.bind_eq_error_iff.1 h with h | ⟨i, -, h⟩
  · exact sum h
  rcases Checked.bind_eq_error_iff.1 h with h | ⟨b, -, h⟩
  · exact sum h
  by_cases hc : c = '\n'
  · rw [if_pos hc] at h
    rcases Checked.bind_eq_error_iff.1 h with h | ⟨l, -, h⟩
    · exact sum h
    · cases h
  · rw [if_neg hc] at h
    rcases Checked.bind_eq_error_iff.1 h with h | ⟨n, -, h⟩
    · exact sum h
    · cases h

theorem through_cons (p : Position) (c : Char) (cs : List Char) :
    p.through (c :: cs) = p.after c >>= (·.through cs) := List.foldlM_cons

theorem through_append (p : Position) (xs ys : List Char) :
    p.through (xs ++ ys) = p.through xs >>= (·.through ys) := List.foldlM_append

end Position
end ContextScan
