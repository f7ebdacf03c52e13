import ContextScan.Word
/-!
# Lookahead — what can be seen without moving

A lookahead shows the character at each offset from where a reader stands, or none past the end.  An offset is a
natural number; a reader that keeps its place in a word refuses an offset whose place no word holds.  Every counter of
the scanner is shown to the lookahead right after it grows, so one refusal there covers all of them.

Only finitely many characters can be seen (`extent`).  This is what ends the one loop of the scanner, `skip`, which
runs over the characters of a class (`skip_eq_ok`; `Shows.skip` on a text).
-/
namespace ContextScan

/-- **The characters ahead**, by offset. -/
structure Lookahead where
  peek : Nat → Checked (Option Char)
  /-- No character is at this offset or beyond. -/
  extent : Nat
  peek_ne_some : ∀ (i : Nat) (c : Char), extent ≤ i → peek i ≠ .ok (some c)

namespace Lookahead

theorem lt_extent {look : Lookahead} {i : Nat} {c : Char} (h : look.peek i = .ok (some c)) : i < look.extent :=
  Nat.lt_of_not_le fun hle => look.peek_ne_some i c hle h

/-- **The first offset, from `i` on, without a character of the class.** -/
def skip (look : Lookahead) (p : Char → Bool) (i : Nat) : Checked Nat :=
  match _h : look.peek i with
  | .error e => .error e
  | .ok none => .ok i
  | .ok (some c) => if p c then look.skip p (i + 1) else .ok i
termination_by look.extent - i
decreasing_by
  have := lt_extent _h
  omega

def drop (look : Lookahead) (n : Nat) : Lookahead where
  peek i := look.peek (n + i)
  extent := look.extent - n
  peek_ne_some i c h := look.peek_ne_some (n + i) c (by omega)

def ofList (cs : List Char) : Lookahead where
  peek i := .ok cs[i]?
  extent := cs.length
  peek_ne_some i c h := by rw [List.getElem?_eq_none h]; exact fun e => nomatch e

/-- **Skipping never goes back, and stops where no character of the class is.** -/
theorem skip_eq_ok {look : Lookahead} {p : Char → Bool} {i j : Nat} (h : look.skip p i = .ok j) :
    i ≤ j ∧ (∀ k, i ≤ k → k < j → ∃ c, look.peek k = .ok (some c) ∧ p c = true) ∧
      (look.peek j = .ok none ∨ ∃ c, look.peek j = .ok (some c) ∧ p c = false) := by
  fun_induction skip look p i with
  | case1 i e he => exact nomatch h
  | case2 i he =>
    cases h
    exact ⟨Nat.le_refl _, fun k h₁ h₂ => absurd h₁ (Nat.not_le.2 h₂), .inl he⟩
  | case3 i c he hp ih =>
    obtain ⟨hle, hin, hout⟩ := ih h
    refine ⟨by omega, fun k h₁ h₂ => ?_, hout⟩
    rcases Nat.eq_or_lt_of_le h₁ with rfl | hlt
    · exact ⟨c, he, hp⟩
    · exact hin k hlt h₂
  | case4 i c he hp =>
    cases h
    exact ⟨Nat.le_refl _, fun k h₁ h₂ => absurd h₁ (Nat.not_le.2 h₂), .inr ⟨c, he, by simpa using hp⟩⟩

/-! ## Texts in view -/

/-- **A lookahead shows a text** if every offset up to the text's end can be asked for and holds the text's character.
What lies further on does not matter. -/
def Shows (look : Lookahead) (cs : List Char) : Prop := ∀ i, i ≤ cs.length → look.peek i = .ok cs[i]?

theorem shows_ofList (cs : List Char) : (ofList cs).Shows cs := fun _ _ => rfl

theorem Shows.drop {look : Lookahead} {xs ys : List Char} (h : look.Shows (xs ++ ys)) :
    (look.drop xs.length).Shows ys := by
  intro i hi
  have hx := h (xs.length + i) (by rw [List.length_append]; omega)
  rwa [List.getElem?_append_right (by omega), Nat.add_sub_cancel_left] at hx

/-- **On a text in view, skipping passes the longest run of the class.** -/
theorem Shows.skip {look : Lookahead} {cs : List Char} (h : look.Shows cs) (p : Char → Bool) (i : Nat)
    (hi : i ≤ cs.length) : look.skip p i = .ok (i + ((cs.drop i).takeWhile p).length) := by
  fun_induction Lookahead.skip look p i with
  | case1 i e he => rw [h i hi] at he; cases he
  | case2 i he =>
    rw [h i hi, Except.ok.injEq, List.getElem?_eq_none_iff] at he
    rw [List.drop_eq_nil_of_le he]
    rfl
  | case3 i c he hp ih =>
    rw [h i hi, Except.ok.injEq, List.getElem?_eq_some_iff] at he
    obtain ⟨hlt, hc⟩ := he
    rw [ih hlt, List.drop_eq_getElem_cons hlt, hc, List.takeWhile_cons_of_pos hp, List.length_cons]
    congr 1
    omega
  | case4 i c he hp =>
    rw [h i hi, Except.ok.injEq, List.getElem?_eq_some_iff] at he
    obtain ⟨hlt, hc⟩ := he
    rw [List.drop_eq_getElem_cons hlt, hc, List.takeWhile_cons_of_neg hp]
    rfl

/-- **A lookahead is clear** if no offset up to its extent is refused. -/
def Clear (look : Lookahead) : Prop := ∀ i, i ≤ look.extent → ∃ c, look.peek i = .ok c

theorem Clear.exists_drop_shows {look : Lookahead} (h : look.Clear) :
    ∀ (n i : Nat), i + n = look.extent → ∃ cs, (look.drop i).Shows cs
  | 0, i, hi => by
    obtain ⟨c, hc⟩ := h i (by omega)
    cases c with
    | none => exact ⟨[], fun j hj => by rw [Nat.le_zero.1 hj]; exact hc⟩
    | some c => exact absurd hc (look.peek_ne_some i c (by omega))
  | n + 1, i, hi => by
    obtain ⟨c, hc⟩ := h i (by omega)
    cases c with
    | none => exact ⟨[], fun j hj => by rw [Nat.le_zero.1 hj]; exact hc⟩
    | some c =>
      obtain ⟨cs, hcs⟩ := Clear.exists_drop_shows h n (i + 1) (by omega)
      refine ⟨c :: cs, fun j hj => ?_⟩
      cases j with
      | zero => exact hc
      | succ j =>
        have hj' := hcs j (by simpa using hj)
        rw [List.getElem?_cons_succ, ← hj']
        show look.peek (i + (j + 1)) = look.peek (i + 1 + j)
        congr 1
        omega

theorem Clear.exists_shows {look : Lookahead} (h : look.Clear) : ∃ cs, look.Shows cs := by
  obtain ⟨cs, hcs⟩ := h.exists_drop_shows look.extent 0 (Nat.zero_add _)
  exact ⟨cs, fun i hi => by rw [← hcs i hi]; show _ = look.peek (0 + i); rw [Nat.zero_add]⟩

end Lookahead
end ContextScan
