import ContextScan.Proofs.Reading
import Mathlib.Data.List.TakeWhile
/-!
# Proofs.LineEnd — a line ending reads like the end of the text

No token but the line ending itself has a line ending in it, and no guard that looks for something behind its token
accepts one there, or looks past it.  So once a token can begin on a line, what comes after the line does not matter:
a request there brings the same, and leaves the same entries in the log, as it does on the line alone
(`Decision.reading_append_newline`).  Only a request before blanks and a line ending can look further.
-/
namespace ContextScan

section

variable {p : Char → Bool}

theorem takeWhile_append_newline (h : p '\n' = false) (r : List Char) : ∀ cs : List Char,
    (cs ++ '\n' :: r).takeWhile p = cs.takeWhile p
  | [] => by rw [List.nil_append, List.takeWhile_cons_of_neg (by simp [h]), List.takeWhile_nil]
  | c :: cs => by
    rw [List.cons_append, List.takeWhile_cons, List.takeWhile_cons, takeWhile_append_newline h r cs]

theorem dropWhile_append_newline (h : p '\n' = false) (r : List Char) : ∀ cs : List Char,
    (cs ++ '\n' :: r).dropWhile p = cs.dropWhile p ++ '\n' :: r
  | [] => by rw [List.nil_append, List.dropWhile_cons_of_neg (by simp [h]), List.dropWhile_nil, List.nil_append]
  | c :: cs => by
    rw [List.cons_append, List.dropWhile_cons, List.dropWhile_cons, dropWhile_append_newline h r cs]
    split <;> rfl

theorem any_head?_append_newline (h : p '\n' = false) (cs r : List Char) :
    (cs ++ '\n' :: r).head?.any p = cs.head?.any p := by
  cases cs with
  | nil => exact h
  | cons c cs => rfl

theorem beq_head?_append_newline {x : Char} (h : x ≠ '\n') (cs r : List Char) :
    ((cs ++ '\n' :: r).head? == some x) = (cs.head? == some x) := by
  cases cs with
  | nil => simpa using Ne.symm h
  | cons c cs => rfl

end

namespace Guard

theorem bindsSpaced_append_newline (cs r : List Char) : bindsSpaced (cs ++ '\n' :: r) = bindsSpaced cs := by
  match cs with
  | [] => rfl
  | [c] =>
    by_cases hc : c = '='
    · subst hc
      rfl
    · simp [bindsSpaced, hc]
  | c :: d :: cs => by_cases hc : c = '=' <;> simp [bindsSpaced, hc]

/-- **A guard reads a line ending behind its first character as it reads the end of the text.** -/
theorem reading_append_newline {rules : Rules} {options : Options} {set : Candidates} {c : Char} (hc : c ≠ '\n')
    (cs r : List Char) (g : Guard) :
    g.reading rules options set (c :: cs ++ '\n' :: r) = g.reading rules options set (c :: cs) := by
  cases g with
  | terminator => simp [reading, hc]
  | punctuation => rfl
  | namedParamEq =>
    simp only [reading, List.cons_append, List.tail_cons, bne, beq_head?_append_newline (by decide : '=' ≠ '\n')]
    rfl
  | dollarExpansion =>
    cases cs with
    | nil => rfl
    | cons d cs =>
      simp only [reading, List.cons_append, List.tail_cons,
        any_head?_append_newline (by decide : isIdentChar '\n' = false)]
      rfl
  | hatExpansion =>
    simp only [reading, List.cons_append, List.tail_cons]
    rw [any_head?_append_newline (by decide)]
    rfl
  | byteString =>
    simp only [reading, List.cons_append, List.tail_cons, beq_head?_append_newline (by decide : '\'' ≠ '\n')]
    rfl
  | envEqual =>
    simp only [reading, List.cons_append, List.tail_cons, any_head?_append_newline (by decide : isBlank '\n' = false)]
    rfl
  | declaration =>
    have hid : isIdentChar '\n' = false := by decide
    have hblank : isBlank '\n' = false := by decide
    simp only [reading, takeWhile_append_newline hid, dropWhile_append_newline hid, dropWhile_append_newline hblank,
      beq_head?_append_newline (by decide : '=' ≠ '\n'), any_head?_append_newline hblank, bindsSpaced_append_newline]
    rfl

end Guard

/-- **A request on a line is decided by the line.**  What counts is that the first character that is no blank is there
and is no line ending. -/
theorem Decision.reading_append_newline {options : Options} {set : Candidates} {cs word : List Char} {c : Char}
    (hcs : cs.dropWhile isBlank = c :: word) (hc : c ≠ '\n') (r : List Char) :
    reading options set (cs ++ '\n' :: r) = reading options set cs := by
  have hblank : isBlank '\n' = false := by decide
  have hguards : Guard.reading .standard options set (c :: word ++ '\n' :: r) =
      Guard.reading .standard options set (c :: word) := by
    funext g
    exact Guard.reading_append_newline hc word r g
  unfold reading
  rw [takeWhile_append_newline hblank, dropWhile_append_newline hblank, hcs, Rules.reading, hguards]
  rfl

/-- **A line that holds more than blanks is read as it is alone.** -/
theorem Decision.reading_append_line {options : Options} {set : Candidates} {line : List Char} (hline : '\n' ∉ line)
    (hblank : line.all isBlank = false) (r : List Char) :
    reading options set (line ++ '\n' :: r) = reading options set line := by
  have hword : line.dropWhile isBlank ≠ [] := by
    rw [ne_eq, List.dropWhile_eq_nil_iff, ← List.all_eq_true, hblank]
    exact Bool.false_ne_true
  obtain ⟨c, word, hc⟩ := List.exists_cons_of_ne_nil hword
  refine reading_append_newline hc ?_ r
  rintro rfl
  exact hline ((List.dropWhile_sublist _).subset (hc ▸ List.mem_cons_self))

end ContextScan
