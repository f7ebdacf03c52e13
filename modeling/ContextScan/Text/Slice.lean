/-!
# Text.Slice — cutting a text at byte offsets

Offsets into a text count UTF-8 bytes, while a text is a list of characters.  A cut exists only between two
characters, so cutting is partial: an offset inside a character or past the end has no cut.  At the byte length of a
first part, a text falls into its two parts (`dropBytes_append`, `takeBytes_append`).
-/
namespace ContextScan

def byteLength : List Char → Nat
  | [] => 0
  | c :: cs => c.utf8Size + byteLength cs

/-- What is left of a text after its first `n` bytes. -/
def dropBytes : Nat → List Char → Option (List Char)
  | 0, cs => some cs
  | _ + 1, [] => none
  | n + 1, c :: cs => if c.utf8Size ≤ n + 1 then dropBytes (n + 1 - c.utf8Size) cs else none

def takeBytes : Nat → List Char → Option (List Char)
  | 0, _ => some []
  | _ + 1, [] => none
  | n + 1, c :: cs =>
    if c.utf8Size ≤ n + 1 then (takeBytes (n + 1 - c.utf8Size) cs).map (c :: ·) else none

/-- **The text between two byte offsets**, if they are in order and both lie between characters. -/
def sliceBytes (start stop : Nat) (cs : List Char) : Option (List Char) :=
  if start ≤ stop then (dropBytes start cs).bind (takeBytes (stop - start)) else none

theorem byteLength_append : ∀ (xs ys : List Char), byteLength (xs ++ ys) = byteLength xs + byteLength ys
  | [], ys => (Nat.zero_add _).symm
  | x :: xs, ys => by
    rw [List.cons_append, byteLength, byteLength, byteLength_append xs ys, Nat.add_assoc]

theorem length_le_byteLength : ∀ (cs : List Char), cs.length ≤ byteLength cs
  | [] => Nat.le_refl _
  | c :: cs => by
    have := length_le_byteLength cs
    have := c.utf8Size_pos
    rw [List.length_cons, byteLength]
    omega

theorem dropBytes_utf8Size_add (c : Char) (n : Nat) (cs : List Char) :
    dropBytes (c.utf8Size + n) (c :: cs) = dropBytes n cs := by
  obtain ⟨m, hm⟩ : ∃ m, c.utf8Size + n = m + 1 := ⟨c.utf8Size + n - 1, by have := c.utf8Size_pos; omega⟩
  rw [hm, dropBytes, if_pos (by omega), ← hm, Nat.add_sub_cancel_left]

theorem takeBytes_utf8Size_add (c : Char) (n : Nat) (cs : List Char) :
    takeBytes (c.utf8Size + n) (c :: cs) = (takeBytes n cs).map (c :: ·) := by
  obtain ⟨m, hm⟩ : ∃ m, c.utf8Size + n = m + 1 := ⟨c.utf8Size + n - 1, by have := c.utf8Size_pos; omega⟩
  rw [hm, takeBytes, if_pos (by omega), ← hm, Nat.add_sub_cancel_left]

theorem dropBytes_append : ∀ (xs ys : List Char), dropBytes (byteLength xs) (xs ++ ys) = some ys
  | [], ys => by cases ys <;> rfl
  | x :: xs, ys => by
    rw [byteLength, List.cons_append, dropBytes_utf8Size_add, dropBytes_append xs ys]

theorem takeBytes_append : ∀ (xs ys : List Char), takeBytes (byteLength xs) (xs ++ ys) = some xs
  | [], ys => by cases ys <;> rfl
  | x :: xs, ys => by
    rw [byteLength, List.cons_append, takeBytes_utf8Size_add, takeBytes_append xs ys, Option.map_some]

/-- **A slice between the ends of two parts is the part between.** -/
theorem sliceBytes_append (xs ys zs : List Char) :
    sliceBytes (byteLength xs) (byteLength xs + byteLength ys) (xs ++ ys ++ zs) = some ys := by
  rw [sliceBytes, if_pos (Nat.le_add_right _ _), List.append_assoc, dropBytes_append, Option.bind_some,
    Nat.add_sub_cancel_left, takeBytes_append]

end ContextScan
