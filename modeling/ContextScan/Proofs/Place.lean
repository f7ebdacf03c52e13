import ContextScan.Cursor.Text
import ContextScan.Proofs.Counting
/-!
# Proofs.Place — a cursor between what it has read and what is left

A text in memory has fewer bytes than half the words (`Fits`), so there is room to count its characters, bytes, lines and
columns, and going over any first part of it from the start leads to the position that counts that part
(`Position.past`, `Position.start_through`).  A cursor stands between two parts of its text (`TextCursor.Between`): its
position is the one past the first part, and what it shows, and what it calls the rest, is the second.  Carrying out a
token moves it over the token (`TextCursor.Between.perform_emission`).
-/
namespace ContextScan

/-- **A text that a memory can hold**: half the words number all of its bytes. -/
def Fits (cs : List Char) : Prop := 2 * byteLength cs < UInt64.size

instance (cs : List Char) : Decidable (Fits cs) := inferInstanceAs (Decidable (2 * byteLength cs < UInt64.size))

theorem Fits.left {xs ys : List Char} (h : Fits (xs ++ ys)) : Fits xs := by
  unfold Fits at *
  rw [byteLength_append] at h
  omega

theorem Fits.right {xs ys : List Char} (h : Fits (xs ++ ys)) : Fits ys := by
  unfold Fits at *
  rw [byteLength_append] at h
  omega

theorem Fits.assoc {done gap word rest : List Char} (h : Fits (done ++ (gap ++ word ++ rest))) :
    Fits (done ++ gap ++ word ++ rest) := by
  simpa only [List.append_assoc] using h

theorem Fits.double_length_lt {cs : List Char} (h : Fits cs) : 2 * cs.length < UInt64.size :=
  Nat.lt_of_le_of_lt (Nat.mul_le_mul_left 2 (length_le_byteLength cs)) h

theorem Fits.length_lt {cs : List Char} (h : Fits cs) : cs.length < UInt64.size := by
  have := h.double_length_lt
  omega

theorem Fits.byteLength_lt {cs : List Char} (h : Fits cs) : byteLength cs < UInt64.size := by
  unfold Fits at h
  omega

/-- One line and one column more than there are characters can be numbered. -/
theorem Fits.one_add_length_lt {cs : List Char} (h : Fits cs) : 1 + cs.length < UInt64.size := by
  have hdouble := h.double_length_lt
  have hone : 1 < UInt64.size := by decide
  omega

namespace Position

/-- **The position past a text**, counted from the start. -/
def past (cs : List Char) : Position where
  index := .ofNat cs.length
  byteOffset := .ofNat (byteLength cs)
  line := .ofNat (1 + cs.count '\n')
  column := .ofNat (1 + (cs.reverse.takeWhile (· ≠ '\n')).length)

theorem toNat_index_past {cs : List Char} (h : Fits cs) : (past cs).index.toNat = cs.length :=
  UInt64.toNat_ofNat_of_lt' h.length_lt

theorem toNat_byteOffset_past {cs : List Char} (h : Fits cs) : (past cs).byteOffset.toNat = byteLength cs :=
  UInt64.toNat_ofNat_of_lt' h.byteLength_lt

theorem toNat_line_past {cs : List Char} (h : Fits cs) : (past cs).line.toNat = 1 + cs.count '\n' :=
  UInt64.toNat_ofNat_of_lt' (Nat.lt_of_le_of_lt (Nat.add_le_add_left List.count_le_length 1) h.one_add_length_lt)

theorem toNat_column_past {cs : List Char} (h : Fits cs) :
    (past cs).column.toNat = 1 + (cs.reverse.takeWhile (· ≠ '\n')).length :=
  UInt64.toNat_ofNat_of_lt' (Nat.lt_of_le_of_lt (Nat.add_le_add_left (length_lastLine_le cs) 1) h.one_add_length_lt)

/-- **There is room for every count on the way over a text that fits.** -/
theorem past_roomFor {done cs : List Char} (h : Fits (done ++ cs)) : (past done).RoomFor cs where
  index := by
    rw [toNat_index_past h.left, ← List.length_append]
    exact h.length_lt
  byteOffset := by
    rw [toNat_byteOffset_past h.left, ← byteLength_append]
    exact h.byteLength_lt
  line := by
    rw [toNat_line_past h.left, Nat.add_assoc, ← List.count_append]
    exact toNat_line_past h ▸ UInt64.toNat_lt_size _
  first := by
    have hroom := h.one_add_length_lt
    have hlast := length_lastLine_le done
    have hfirst := (List.takeWhile_sublist (l := cs) (· ≠ '\n')).length_le
    rw [List.length_append] at hroom
    rw [toNat_column_past h.left]
    omega
  later rest hrest := by
    have hroom := h.right.one_add_length_lt
    have hline := (List.takeWhile_sublist (l := rest) (· ≠ '\n')).length_le
    have hlen := hrest.length_le
    rw [List.length_cons] at hlen
    omega

theorem past_counts {done cs : List Char} (h : Fits (done ++ cs)) : (past done).Counts cs (past (done ++ cs)) where
  index := by rw [toNat_index_past h, toNat_index_past h.left, List.length_append]
  byteOffset := by rw [toNat_byteOffset_past h, toNat_byteOffset_past h.left, byteLength_append]
  line := by rw [toNat_line_past h, toNat_line_past h.left, List.count_append, Nat.add_assoc]
  column := by
    rw [toNat_column_past h, toNat_column_past h.left, length_lastLine_append]
    split
    · exact (Nat.add_assoc _ _ _).symm
    · rfl

/-- **Stepping over a text that fits never overflows.** -/
theorem through_past {cs done : List Char} (h : Fits (done ++ cs)) :
    (past done).through cs = .ok (past (done ++ cs)) := by
  obtain ⟨q, hq⟩ := exists_through_iff.2 (past_roomFor h)
  rw [hq, (through_counts hq).unique (past_counts h)]

theorem after_past {done : List Char} {c : Char} (h : Fits (done ++ [c])) :
    (past done).after c = .ok (past (done ++ [c])) := by
  obtain ⟨q, hq, hp⟩ := Checked.bind_eq_ok_iff.1 ((through_cons _ _ _).symm.trans (through_past h))
  rw [hq]
  exact hp

theorem start_through {cs : List Char} (h : Fits cs) : start.through cs = .ok (past cs) :=
  through_past (show Fits ([] ++ cs) from h)

end Position

namespace TextCursor

/-- **A cursor stands between two parts of its text.** -/
structure Between (c : TextCursor) (done left : List Char) : Prop where
  text_eq : c.text = done ++ left
  position_eq : c.position = .past done

theorem between_ofString (text : String) : (ofString text).Between [] text.toList := ⟨rfl, rfl⟩

namespace Between

variable {c : TextCursor} {done left : List Char}

theorem offset_eq (h : c.Between done left) (fits : Fits (done ++ left)) : c.offset = done.length := by
  rw [offset, h.position_eq, Position.toNat_index_past fits.left]

theorem getElem?_chars (h : c.Between done left) (i : Nat) : c.chars[done.length + i]? = left[i]? := by
  rw [← Array.getElem?_toList, ← text, h.text_eq, List.getElem?_append_right (Nat.le_add_right _ _),
    Nat.add_sub_cancel_left]

/-- **What lies ahead of a cursor is the rest of its text.** -/
theorem shows (h : c.Between done left) (fits : Fits (done ++ left)) : c.lookahead.Shows left := by
  intro i hi
  have hlt := fits.length_lt
  rw [List.length_append] at hlt
  show c.peek i = _
  rw [peek, h.offset_eq fits, if_pos (by omega), h.getElem?_chars]

theorem rest_eq (h : c.Between done left) (fits : Fits (done ++ left)) : c.rest = left := by
  rw [rest, h.position_eq, Position.toNat_byteOffset_past fits.left, h.text_eq, dropBytes_append]
  rfl

theorem beginToken (h : c.Between done left) : c.beginToken.Between done left := ⟨h.text_eq, h.position_eq⟩

theorem markEnd (h : c.Between done left) : c.markEnd.Between done left := ⟨h.text_eq, h.position_eq⟩

/-! ## Moving -/

/-- Moving over a character that is there, in full. -/
theorem advance_eq {x : Char} (h : c.Between done (x :: left)) (fits : Fits (done ++ x :: left)) (skip : Bool) :
    c.advance skip = .ok
      { c with
        position := .past (done ++ [x])
        tokenStart := if skip && !c.started then .past (done ++ [x]) else c.tokenStart
        started := c.started || !skip } := by
  have hx : c.chars[c.offset]? = some x := by
    have := h.getElem?_chars 0
    rwa [Nat.add_zero, ← h.offset_eq fits] at this
  have hfit : Fits (done ++ [x]) := by
    rw [← List.singleton_append, ← List.append_assoc] at fits
    exact fits.left
  unfold advance
  rw [hx]
  dsimp only
  rw [h.position_eq, Position.after_past hfit, Checked.ok_bind]
  cases skip with
  | false => simp [pure, Except.pure]
  | true => cases hs : c.started <;> simp [pure, Except.pure]

/-- Moving over a character that is there leaves the cursor behind it. -/
theorem advance_between {x : Char} {c' : TextCursor} (h : c.Between done (x :: left)) (fits : Fits (done ++ x :: left))
    {skip : Bool} (ha : c.advance skip = .ok c') : c'.Between (done ++ [x]) left := by
  rw [h.advance_eq fits skip, Except.ok.injEq] at ha
  subst ha
  refine ⟨?_, rfl⟩
  rw [List.append_assoc]
  exact h.text_eq

/-- Skipping a stretch moves over it, and moves the start of a token that has not started along. -/
theorem perform_skips : ∀ {gap left done : List Char} {c : TextCursor}, c.Between done (gap ++ left) →
    Fits (done ++ (gap ++ left)) → ∃ c', performAll (List.replicate gap.length (.advance true)) c = .ok c' ∧
      c'.Between (done ++ gap) left ∧ c'.started = c.started ∧
      (c.started = false → c.tokenStart = c.position → c'.tokenStart = c'.position)
  | [], left, done, c, h, _ => ⟨c, rfl, by rwa [List.append_nil], rfl, fun _ hs => hs⟩
  | x :: gap, left, done, c, h, fits => by
    have ha := h.advance_eq fits true
    have hb := h.advance_between fits ha
    have hfits : Fits (done ++ [x] ++ (gap ++ left)) := by rwa [List.append_assoc, List.singleton_append]
    obtain ⟨c', hrun, hc', hstarted, hstart⟩ := perform_skips hb hfits
    refine ⟨c', ?_, by rwa [List.append_assoc, List.singleton_append] at hc', by simpa using hstarted, ?_⟩
    · rw [List.length_cons, List.replicate_succ, performAll_cons]
      show c.advance true >>= _ = _
      rw [ha]
      exact hrun
    · intro hs _
      exact hstart (by simpa using hs) (by simp [hs])

/-- Reading a stretch moves over it, and leaves the start of the token where it is. -/
theorem perform_reads : ∀ {word left done : List Char} {c : TextCursor}, c.Between done (word ++ left) →
    Fits (done ++ (word ++ left)) → ∃ c', performAll (List.replicate word.length (.advance false)) c = .ok c' ∧
      c'.Between (done ++ word) left ∧ c'.tokenStart = c.tokenStart
  | [], left, done, c, h, _ => ⟨c, rfl, by rwa [List.append_nil], rfl⟩
  | x :: word, left, done, c, h, fits => by
    have ha := h.advance_eq fits false
    have hb := h.advance_between fits ha
    have hfits : Fits (done ++ [x] ++ (word ++ left)) := by rwa [List.append_assoc, List.singleton_append]
    obtain ⟨c', hrun, hc', hstart⟩ := perform_reads hb hfits
    refine ⟨c', ?_, by rwa [List.append_assoc, List.singleton_append] at hc', by simpa using hstart⟩
    rw [List.length_cons, List.replicate_succ, performAll_cons]
    show c.advance false >>= _ = _
    rw [ha]
    exact hrun

/-- **The calls of a token move over its blanks and its characters, and mark the end.** -/
theorem perform_emission {gap word : List Char} {e : Emission} (h : c.Between done (gap ++ word ++ left))
    (fits : Fits (done ++ (gap ++ word ++ left))) (hgap : gap.length = e.leading) (hword : word.length = e.length) :
    ∃ c', performAll e.calls c = .ok c' ∧ c'.Between (done ++ gap ++ word) left ∧
      c'.tokenStop = some (.past (done ++ gap ++ word)) ∧
      (c.started = false → c.tokenStart = c.position → c'.tokenStart = .past (done ++ gap)) := by
  rw [List.append_assoc] at h fits
  obtain ⟨c₁, hrun₁, h₁, -, hstart₁⟩ := h.perform_skips fits
  obtain ⟨c₂, hrun₂, h₂, hstart₂⟩ := h₁.perform_reads (by rwa [List.append_assoc])
  refine ⟨c₂.markEnd, ?_, h₂.markEnd, congrArg some h₂.position_eq, fun hs hp => ?_⟩
  · rw [Emission.calls, ← hgap, ← hword, performAll_append, performAll_append, hrun₁, Checked.ok_bind, hrun₂]
    rfl
  · show c₂.tokenStart = _
    rw [hstart₂, hstart₁ hs hp, h₁.position_eq]

end Between
end TextCursor
end ContextScan
