import ContextScan.Proofs.Request
/-!
# Proofs.Handling — whatever is done with a text cursor

A host may do anything with a cursor, in any order: begin a token, move over a character, mark an end, make a request,
keep a copy and go back to a copy.  None of it is ever refused, and all of it leaves the cursor faithful to its text
(`TextCursor.Faithful`): its position counts what stands before its place, its rest is what comes after, and the ends of
its token are places in what it has read.

What carries this from call to call is that both ends of the token are positions past a first part of what has been
read, and that a token which has not started is one whose start is where the cursor stands (`TextCursor.Sound`).
-/
namespace ContextScan

/-! ## Places in a text -/

/-- **A position marks a place in a text**: it counts what stands before the place. -/
structure Position.Marks (p : Position) (cs : List Char) : Prop where
  index_le : p.index.toNat ≤ cs.length
  through_eq : Position.start.through (cs.take p.index.toNat) = .ok p
  byteOffset_eq : p.byteOffset.toNat = byteLength (cs.take p.index.toNat)
  line_eq : p.line.toNat = 1 + (cs.take p.index.toNat).count '\n'
  column_eq : p.column.toNat = 1 + ((cs.take p.index.toNat).reverse.takeWhile (· ≠ '\n')).length

namespace Position

theorem take_index_past {done left : List Char} (fits : Fits (done ++ left)) :
    (done ++ left).take (past done).index.toNat = done := by
  rw [toNat_index_past fits.left, List.take_left]

theorem past_marks {done left : List Char} (fits : Fits (done ++ left)) : (past done).Marks (done ++ left) := by
  have htake := take_index_past fits
  refine ⟨?_, ?_, ?_, ?_, ?_⟩
  · rw [toNat_index_past fits.left, List.length_append]
    exact Nat.le_add_right _ _
  · rw [htake, start_through fits.left]
  · rw [htake, toNat_byteOffset_past fits.left]
  · rw [htake, toNat_line_past fits.left]
  · rw [htake, toNat_column_past fits.left]

theorem past_inj {before done : List Char} (fits : Fits done) (h : before <+: done) :
    past before = past done ↔ before = done := by
  refine ⟨fun e => h.eq_of_length ?_, congrArg past⟩
  obtain ⟨r, rfl⟩ := h
  have hindex := congrArg (fun p => p.index.toNat) e
  simpa only [toNat_index_past fits, toNat_index_past fits.left] using hindex

end Position

/-! ## What every call keeps -/

namespace TextCursor

/-- **A sound cursor** stands between two parts of its text, and the ends of its token lie in the first. -/
structure Sound (c : TextCursor) (done left : List Char) : Prop extends c.Between done left where
  start : ∃ before, before <+: done ∧ c.tokenStart = .past before ∧ (c.started = false ↔ before = done)
  stop : ∀ p ∈ c.tokenStop, ∃ before, before <+: done ∧ p = .past before

theorem sound_ofString (text : String) : (ofString text).Sound [] text.toList :=
  ⟨between_ofString text, ⟨[], List.prefix_rfl, rfl, by simp [ofString]⟩, fun p hp => by cases hp⟩

namespace Sound

variable {c : TextCursor} {done left : List Char}

theorem beginToken (h : c.Sound done left) : c.beginToken.Sound done left :=
  ⟨h.toBetween.beginToken, ⟨done, List.prefix_rfl, h.position_eq, by simp [TextCursor.beginToken]⟩,
    fun p hp => by cases hp⟩

theorem markEnd (h : c.Sound done left) : c.markEnd.Sound done left := by
  refine ⟨h.toBetween.markEnd, h.start, fun p hp => ?_⟩
  cases hp
  exact ⟨done, List.prefix_rfl, h.position_eq⟩

/-- Moving at the end of the text does nothing; elsewhere the token's start follows until the token has started. -/
theorem advance (h : c.Sound done left) (fits : Fits (done ++ left)) (skip : Bool) :
    ∃ c' done' left', c.advance skip = .ok c' ∧ c'.Sound done' left' ∧ done' ++ left' = done ++ left := by
  cases left with
  | nil =>
    have hend := h.getElem?_chars 0
    rw [Nat.add_zero, ← h.offset_eq fits] at hend
    refine ⟨c, done, [], ?_, h, rfl⟩
    unfold TextCursor.advance
    rw [hend]
    rfl
  | cons x left =>
    have ha := h.advance_eq fits skip
    obtain ⟨before, hbefore, hstart, hstarted⟩ := h.start
    have hlater : done <+: done ++ [x] := List.prefix_append ..
    have hne : before ≠ done ++ [x] := by
      rintro rfl
      have := hbefore.length_le
      rw [List.length_append, List.length_singleton] at this
      omega
    refine ⟨_, done ++ [x], left, ha, ⟨h.advance_between fits ha, ?_, fun p hp => ?_⟩, by
      rw [List.append_assoc, List.singleton_append]⟩
    · cases skip with
      | false => exact ⟨before, hbefore.trans hlater, by simpa using hstart, by simpa using hne⟩
      | true =>
        cases hs : c.started with
        | false => exact ⟨_, List.prefix_rfl, by simp, by simp⟩
        | true => exact ⟨before, hbefore.trans hlater, by simpa using hstart, by simpa using hne⟩
    · obtain ⟨b, hb, hp⟩ := h.stop p hp
      exact ⟨b, hb.trans hlater, hp⟩

theorem perform (h : c.Sound done left) (fits : Fits (done ++ left)) (call : Call) :
    ∃ c' done' left', Cursor.perform call c = .ok c' ∧ c'.Sound done' left' ∧ done' ++ left' = done ++ left := by
  cases call with
  | advance skip => exact h.advance fits skip
  | markEnd => exact ⟨_, done, left, rfl, h.markEnd, rfl⟩

theorem performAll : ∀ (calls : List Call) {c : TextCursor} {done left : List Char}, c.Sound done left →
    Fits (done ++ left) → ∃ c' done' left', ContextScan.performAll calls c = .ok c' ∧ c'.Sound done' left' ∧
      done' ++ left' = done ++ left
  | [], c, done, left, h, _ => ⟨c, done, left, rfl, h, rfl⟩
  | call :: calls, c, done, left, h, fits => by
    obtain ⟨c₁, done₁, left₁, hrun₁, h₁, hall₁⟩ := h.perform fits call
    obtain ⟨c₂, done₂, left₂, hrun₂, h₂, hall₂⟩ := performAll calls h₁ (hall₁ ▸ fits)
    refine ⟨c₂, done₂, left₂, ?_, h₂, hall₂.trans hall₁⟩
    rw [performAll_cons, hrun₁, Checked.ok_bind, hrun₂]

theorem resolve (h : c.Sound done left) (fits : Fits (done ++ left)) (options : Options) (set : Candidates) :
    ∃ d c' done' left', ContextScan.resolve options set c = .ok (d, c') ∧ c'.Sound done' left' ∧
      done' ++ left' = done ++ left := by
  obtain ⟨c', done', left', hrun, hc', hall⟩ := performAll (Decision.reading options set left).calls h fits
  refine ⟨Decision.reading options set left, c', done', left', ?_, hc', hall⟩
  rw [resolve_of_shows (h.shows fits), hrun]
  rfl

end Sound

/-! ## What a sound cursor shows -/

/-- **A cursor is faithful to a text**: all that it shows of the text is so. -/
structure Faithful (c : TextCursor) (cs : List Char) : Prop where
  text : c.text = cs
  position : c.position.Marks cs
  /-- The rest begins between two characters, so it can always be cut off. -/
  cut : dropBytes c.position.byteOffset.toNat c.text = some (cs.drop c.offset)
  remaining : c.remaining = String.ofList (cs.drop c.offset)
  peek : ∀ k, c.offset + k < UInt64.size → c.peek k = .ok (cs.drop c.offset)[k]?
  atEnd : c.atEnd = true ↔ c.offset = cs.length
  start : c.tokenStart.Marks cs ∧ c.tokenStart.index.toNat ≤ c.offset
  started : c.started = false ↔ c.tokenStart = c.position
  stop : ∀ p ∈ c.tokenStop, p.Marks cs ∧ p.index.toNat ≤ c.offset
  tokenText : c.tokenText =
    String.ofList ((cs.take c.tokenSpan.stop.index.toNat).drop c.tokenSpan.start.index.toNat)

theorem take_eq_append_drop {m n : Nat} (h : m ≤ n) (cs : List Char) : cs.take n = cs.take m ++ (cs.take n).drop m := by
  conv => lhs; rw [← List.take_append_drop m (cs.take n), List.take_take, Nat.min_eq_left h]

/-- A slice that ends before it starts is empty, or refused if it starts between no two characters. -/
theorem getD_sliceBytes_of_le {i j : Nat} (h : j ≤ i) (cs : List Char) : (sliceBytes i j cs).getD [] = [] := by
  unfold sliceBytes
  split
  · rw [Nat.sub_eq_zero_of_le h]
    cases dropBytes i cs <;> simp [takeBytes]
  · rfl

/-- The slice between two places is the text between them, and empty if they are out of order. -/
theorem getD_sliceBytes {cs : List Char} {p q : Position} (hp : p.Marks cs) (hq : q.Marks cs) :
    (sliceBytes p.byteOffset.toNat q.byteOffset.toNat cs).getD [] = (cs.take q.index.toNat).drop p.index.toNat := by
  rw [hp.byteOffset_eq, hq.byteOffset_eq]
  generalize p.index.toNat = m
  generalize q.index.toNat = n
  rcases Nat.le_total m n with hle | hle
  · have htake := take_eq_append_drop hle cs
    have hcs : cs = cs.take m ++ (cs.take n).drop m ++ cs.drop n := by rw [← htake, List.take_append_drop]
    rw [htake, byteLength_append, ← htake]
    conv => lhs; arg 1; arg 3; rw [hcs]
    rw [sliceBytes_append]
    rfl
  · rw [List.drop_eq_nil_of_le (Nat.le_trans (List.length_take_le ..) hle)]
    apply getD_sliceBytes_of_le
    rw [take_eq_append_drop hle cs, byteLength_append]
    exact Nat.le_add_right _ _

namespace Sound

variable {c : TextCursor} {done left : List Char}

theorem marks (h : c.Sound done left) (fits : Fits (done ++ left)) {before : List Char} (hbefore : before <+: done) :
    (Position.past before).Marks (done ++ left) ∧ (Position.past before).index.toNat ≤ c.offset := by
  rw [h.offset_eq fits]
  obtain ⟨between, rfl⟩ := hbefore
  rw [List.append_assoc] at fits ⊢
  refine ⟨Position.past_marks fits, ?_⟩
  rw [Position.toNat_index_past fits.left, List.length_append]
  exact Nat.le_add_right _ _

/-- The ends of a token are places in what has been read. -/
theorem tokenSpan_marks (h : c.Sound done left) (fits : Fits (done ++ left)) :
    c.tokenSpan.start.Marks (done ++ left) ∧ c.tokenSpan.stop.Marks (done ++ left) := by
  obtain ⟨before, hbefore, hstart, -⟩ := h.start
  refine ⟨?_, ?_⟩
  · rw [tokenSpan, hstart]
    exact (h.marks fits hbefore).1
  · rw [tokenSpan]
    cases hs : c.tokenStop with
    | none =>
      show c.position.Marks _
      rw [h.position_eq]
      exact Position.past_marks fits
    | some p =>
      obtain ⟨b, hb, rfl⟩ := h.stop p hs
      exact (h.marks fits hb).1

theorem faithful (h : c.Sound done left) (fits : Fits (done ++ left)) : c.Faithful (done ++ left) := by
  have hoffset := h.offset_eq fits
  have hdrop : (done ++ left).drop c.offset = left := by rw [hoffset, List.drop_left]
  obtain ⟨before, hbefore, hstart, hstarted⟩ := h.start
  refine ⟨h.text_eq, h.position_eq ▸ Position.past_marks fits, ?_, ?_, ?_, ?_, hstart ▸ h.marks fits hbefore, ?_, ?_, ?_⟩
  · rw [hdrop, h.position_eq, Position.toNat_byteOffset_past fits.left, h.text_eq, dropBytes_append]
  · rw [hdrop, TextCursor.remaining, h.rest_eq fits]
  · intro k hk
    rw [hdrop, TextCursor.peek, if_pos hk, hoffset, h.getElem?_chars]
  · rw [TextCursor.atEnd, h.rest_eq fits, hoffset, List.isEmpty_iff, List.length_append]
    cases left <;> simp
  · rw [hstarted, hstart, h.position_eq, Position.past_inj fits.left hbefore]
  · intro p hp
    obtain ⟨b, hb, rfl⟩ := h.stop p hp
    exact h.marks fits hb
  · obtain ⟨hfirst, hlast⟩ := h.tokenSpan_marks fits
    rw [TextCursor.tokenText, h.text_eq, getD_sliceBytes hfirst hlast]

end Sound

end TextCursor

/-! ## Anything, in any order -/

/-- **What a host can do with a cursor**, besides looking. -/
inductive Move where
  | beginToken
  | advance (skip : Bool)
  | markEnd
  | resolve (options : Options) (set : Candidates)
  /-- Keep a copy of the cursor. -/
  | keep
  /-- Go back to a copy, the last one kept having number 0. -/
  | goBack (n : Nat)

/-- **A cursor in use**, with the copies kept of it. -/
structure Handled where
  cursor : TextCursor
  copies : List TextCursor

namespace Handled

def ofString (text : String) : Handled := ⟨.ofString text, []⟩

/-- Going back to a copy that was never kept does nothing. -/
def move (h : Handled) : Move → Checked Handled
  | .beginToken => .ok { h with cursor := h.cursor.beginToken }
  | .advance skip => do return { h with cursor := ← h.cursor.advance skip }
  | .markEnd => .ok { h with cursor := h.cursor.markEnd }
  | .resolve options set => do return { h with cursor := (← ContextScan.resolve options set h.cursor).2 }
  | .keep => .ok { h with copies := h.cursor :: h.copies }
  | .goBack n => .ok { h with cursor := h.copies.getD n h.cursor }

def moveAll (moves : List Move) (h : Handled) : Checked Handled := moves.foldlM move h

/-- All cursors at hand are sound, on one text. -/
def Sound (h : Handled) (cs : List Char) : Prop :=
  ∀ c ∈ h.cursor :: h.copies, ∃ done left, c.Sound done left ∧ done ++ left = cs

theorem Sound.of_cursor {h : Handled} {cs : List Char} (hs : h.Sound cs) {c : TextCursor} {done left : List Char}
    (hc : c.Sound done left) (hall : done ++ left = cs) : ({ h with cursor := c } : Handled).Sound cs :=
  List.forall_mem_cons.2 ⟨⟨done, left, hc, hall⟩, (List.forall_mem_cons.1 hs).2⟩

/-- **Nothing that is done with a sound cursor is refused, and it stays sound.** -/
theorem Sound.move {h : Handled} {cs : List Char} (hs : h.Sound cs) (fits : Fits cs) (m : Move) :
    ∃ h', h.move m = .ok h' ∧ h'.Sound cs := by
  obtain ⟨done, left, hc, hall⟩ := hs h.cursor List.mem_cons_self
  have fits' : Fits (done ++ left) := hall ▸ fits
  cases m with
  | beginToken => exact ⟨_, rfl, hs.of_cursor hc.beginToken hall⟩
  | markEnd => exact ⟨_, rfl, hs.of_cursor hc.markEnd hall⟩
  | keep => exact ⟨_, rfl, List.forall_mem_cons.2 ⟨hs _ List.mem_cons_self, hs⟩⟩
  | advance skip =>
    obtain ⟨c', done', left', hrun, hc', hall'⟩ := hc.advance fits' skip
    refine ⟨_, ?_, hs.of_cursor hc' (hall'.trans hall)⟩
    rw [Handled.move, hrun]
    rfl
  | resolve options set =>
    obtain ⟨d, c', done', left', hrun, hc', hall'⟩ := hc.resolve fits' options set
    refine ⟨_, ?_, hs.of_cursor hc' (hall'.trans hall)⟩
    rw [Handled.move, hrun]
    rfl
  | goBack n =>
    refine ⟨_, rfl, List.forall_mem_cons.2 ⟨?_, (List.forall_mem_cons.1 hs).2⟩⟩
    rw [List.getD_eq_getElem?_getD]
    cases hn : h.copies[n]? with
    | none => exact hs _ List.mem_cons_self
    | some c => exact hs c (List.mem_cons_of_mem _ (List.mem_of_getElem? hn))

theorem Sound.moveAll : ∀ (moves : List Move) {h : Handled} {cs : List Char}, h.Sound cs → Fits cs →
    ∃ h', Handled.moveAll moves h = .ok h' ∧ h'.Sound cs
  | [], h, cs, hs, _ => ⟨h, rfl, hs⟩
  | m :: moves, h, cs, hs, fits => by
    obtain ⟨h₁, hrun₁, hs₁⟩ := hs.move fits m
    obtain ⟨h₂, hrun₂, hs₂⟩ := moveAll moves hs₁ fits
    refine ⟨h₂, ?_, hs₂⟩
    rw [Handled.moveAll, List.foldlM_cons, hrun₁, Checked.ok_bind]
    exact hrun₂

/-- **Whatever is done with a cursor over a text, and in whatever order, is done, and leaves the cursor and every copy
of it faithful to the text.** -/
theorem moveAll_faithful (text : String) (moves : List Move) (fits : Fits text.toList) :
    ∃ h, moveAll moves (.ofString text) = .ok h ∧ ∀ c ∈ h.cursor :: h.copies, c.Faithful text.toList := by
  have hstart : (ofString text).Sound text.toList :=
    List.forall_mem_singleton.2 ⟨[], text.toList, TextCursor.sound_ofString text, rfl⟩
  obtain ⟨h, hrun, hs⟩ := hstart.moveAll moves fits
  refine ⟨h, hrun, fun c hc => ?_⟩
  obtain ⟨done, left, hc, hall⟩ := hs c hc
  rw [← hall] at fits ⊢
  exact hc.faithful fits

/-- A mark set before blanks are skipped, a request, a way back to an earlier copy, and moves past the end of the text. -/
theorem moveAll_faithful_to_accented : ∃ h,
    moveAll [.advance false, .keep, .markEnd, .advance true, .resolve {} (.singleton .semicolon), .advance true, .goBack 0,
        .beginToken, .advance true] (.ofString "é\n ;") = .ok h ∧
      h.cursor.Faithful "é\n ;".toList ∧ ∀ c ∈ h.copies, c.Faithful "é\n ;".toList := by
  obtain ⟨h, hrun, hall⟩ := moveAll_faithful "é\n ;"
    [.advance false, .keep, .markEnd, .advance true, .resolve {} (.singleton .semicolon), .advance true, .goBack 0,
      .beginToken, .advance true] (by decide)
  exact ⟨h, hrun, List.forall_mem_cons.1 hall⟩

end Handled
end ContextScan
