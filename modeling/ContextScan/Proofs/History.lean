import ContextScan.Proofs.Bounds
import Mathlib.Data.List.Basic
import Mathlib.Data.List.GetD
/-!
# Proofs.History — the pending token told by its history

A cursor keeps three pieces of state for the token that is being read.  All three are told by the calls since the token
began (`Chronicle.Kept`): the token starts where its first character was read, or where the cursor stands if none was;
it ends at the last mark, or where the cursor stands if there is none; and moving at the end of the text counts for
nothing.

A mark does not keep the start of a token that has not started from moving on.  So the token ends before it starts
exactly if something is skipped past the last mark before anything is read (`SkipsPastMark`), and such a span cannot be
measured.  A request cannot bring this about: it reads last, and marks the end after that.
-/
namespace ContextScan

/-! ## Histories -/

/-- **One call on a cursor**, with the place it was made at. -/
structure Deed where
  call : Call
  place : Position
  /-- The character that stood there; the end of the text has none. -/
  char : Option Char

namespace Deed

def reads (d : Deed) : Bool := d.call == .advance false && d.char.isSome

def skips (d : Deed) : Bool := d.call == .advance true && d.char.isSome

def marks (d : Deed) : Bool := d.call == .markEnd

variable (skip : Bool) (p : Position) (x : Option Char)

@[simp] theorem reads_advance : reads ⟨.advance skip, p, x⟩ = (!skip && x.isSome) := by
  cases skip <;> rfl

@[simp] theorem skips_advance : skips ⟨.advance skip, p, x⟩ = (skip && x.isSome) := by
  cases skip <;> rfl

@[simp] theorem marks_advance : marks ⟨.advance skip, p, x⟩ = false := rfl

@[simp] theorem reads_markEnd : reads ⟨.markEnd, p, x⟩ = false := rfl

@[simp] theorem skips_markEnd : skips ⟨.markEnd, p, x⟩ = false := rfl

@[simp] theorem marks_markEnd : marks ⟨.markEnd, p, x⟩ = true := rfl

end Deed

/-- **Something is skipped past the last mark**, and nothing has been read before. -/
def SkipsPastMark (ds : List Deed) : Prop :=
  ∃ pre d post, ds = pre ++ d :: post ∧ d.skips = true ∧ pre.any Deed.marks = true ∧ post.any Deed.marks = false ∧
    pre.any Deed.reads = false

theorem not_skipsPastMark_nil : ¬SkipsPastMark [] := by
  rintro ⟨pre, d, post, h, -⟩
  simp at h

theorem SkipsPastMark.any_marks {ds : List Deed} (h : SkipsPastMark ds) : ds.any Deed.marks = true := by
  obtain ⟨pre, d, post, rfl, -, hmark, -⟩ := h
  rw [List.any_append, hmark, Bool.true_or]

theorem skipsPastMark_append_singleton {ds : List Deed} {d : Deed} : SkipsPastMark (ds ++ [d]) ↔
    SkipsPastMark ds ∧ d.marks = false ∨ d.skips = true ∧ ds.any Deed.marks = true ∧ ds.any Deed.reads = false := by
  constructor
  · rintro ⟨pre, e, post, hds, hskip, hmark, hpost, hread⟩
    rcases List.eq_nil_or_concat' post with rfl | ⟨post, f, rfl⟩
    · obtain ⟨rfl, rfl⟩ : ds = pre ∧ d = e := by simpa using hds
      exact .inr ⟨hskip, hmark, hread⟩
    · rw [← List.cons_append, ← List.append_assoc] at hds
      obtain ⟨rfl, hd⟩ := List.append_inj' hds rfl
      cases hd
      simp only [List.any_append, List.any_cons, List.any_nil, Bool.or_false, Bool.or_eq_false_iff] at hpost
      exact .inl ⟨⟨pre, e, post, rfl, hskip, hmark, hpost.1, hread⟩, hpost.2⟩
  · rintro (⟨⟨pre, e, post, rfl, hskip, hmark, hpost, hread⟩, hd⟩ | ⟨hskip, hmark, hread⟩)
    · exact ⟨pre, e, post ++ [d], by simp, hskip, hmark, by simp [hpost, hd], hread⟩
    · exact ⟨ds, d, [], rfl, hskip, hmark, rfl, hread⟩

/-! ## A cursor with its history -/

/-- **A cursor with the calls since its token began**, first call first. -/
structure Chronicle where
  cursor : TextCursor
  history : List Deed

namespace Chronicle

def ofString (text : String) : Chronicle := ⟨.ofString text, []⟩

def beginToken (r : Chronicle) : Chronicle := ⟨r.cursor.beginToken, []⟩

def write (r : Chronicle) (call : Call) (cursor : TextCursor) : Chronicle :=
  ⟨cursor, r.history ++ [⟨call, r.cursor.position, r.cursor.chars[r.cursor.offset]?⟩]⟩

/-- Every call is carried out on the cursor, so a request writes down the calls of its token, and none without one. -/
instance : Cursor Chronicle where
  lookahead r := r.cursor.lookahead
  perform call r := do return r.write call (← Cursor.perform call r.cursor)

variable {r r' : Chronicle} {c : TextCursor} {call : Call}

theorem perform_eq_ok_iff : Cursor.perform call r = .ok r' ↔
    ∃ c, Cursor.perform call r.cursor = .ok c ∧ r.write call c = r' := by
  refine Checked.bind_eq_ok_iff.trans ?_
  simp only [Checked.pure_eq_ok_iff]

end Chronicle

/-! ## What the history tells -/

theorem Span.isEmpty_eq_error_iff {s : Span} {o : Overflow} : s.isEmpty = .error o ↔ s.length = .error o := by
  unfold isEmpty
  cases s.length with
  | error e =>
    show Except.error e = _ ↔ _
    rw [Except.error.injEq, Except.error.injEq]
  | ok n => exact ⟨(nomatch ·), (nomatch ·)⟩

/-- What moving does: nothing at the end of the text, and elsewhere a step over one character. -/
theorem TextCursor.advance_eq_ok {c c' : TextCursor} {skip : Bool} (h : c.advance skip = .ok c') :
    c.chars[c.offset]? = none ∧ c' = c ∨ ∃ (x : Char) (p : Position), c.chars[c.offset]? = some x ∧
      c.position.index.toNat < p.index.toNat ∧ c' = { c with
        position := p
        tokenStart := if skip && !c.started then p else c.tokenStart
        started := c.started || !skip } := by
  unfold advance at h
  split at h
  · rename_i hnone
    exact .inl ⟨hnone, (Except.ok.inj h).symm⟩
  · rename_i x hx
    obtain ⟨p, hp, h⟩ := Checked.bind_eq_ok_iff.1 h
    have hlt := (Position.after_eq_ok hp).1
    refine .inr ⟨x, p, hx, by omega, ?_⟩
    cases skip with
    | false =>
      cases Checked.pure_eq_ok_iff.1 h
      simp
    | true =>
      cases hs : c.started with
      | false =>
        rw [hs] at h
        cases Checked.pure_eq_ok_iff.1 h
        simp
      | true =>
        rw [hs] at h
        cases Checked.pure_eq_ok_iff.1 h
        simp

namespace Chronicle

/-- **A chronicle is kept** if the history tells the token of the cursor. -/
structure Kept (r : Chronicle) : Prop where
  start : r.cursor.tokenStart = (r.history.find? Deed.reads).elim r.cursor.position Deed.place
  started : r.cursor.started = r.history.any Deed.reads
  stop : r.cursor.tokenStop = (r.history.reverse.find? Deed.marks).map Deed.place
  /-- No end of the token lies ahead, so the start can pass the mark only by moving along with the cursor. -/
  start_le : r.cursor.tokenStart.index.toNat ≤ r.cursor.position.index.toNat
  stop_le : ∀ p ∈ r.cursor.tokenStop, p.index.toNat ≤ r.cursor.position.index.toNat
  inverted : (∃ p ∈ r.cursor.tokenStop, p.index.toNat < r.cursor.tokenStart.index.toNat) ↔ SkipsPastMark r.history

namespace Kept

variable {r r' : Chronicle} {call : Call}

theorem ofString (text : String) : (ofString text).Kept :=
  ⟨rfl, rfl, rfl, Nat.le_refl _, by simp [Chronicle.ofString, TextCursor.ofString],
    by simp [Chronicle.ofString, TextCursor.ofString, not_skipsPastMark_nil]⟩

theorem beginToken (r : Chronicle) : r.beginToken.Kept :=
  ⟨rfl, rfl, rfl, Nat.le_refl _, by simp [Chronicle.beginToken, TextCursor.beginToken],
    by simp [Chronicle.beginToken, TextCursor.beginToken, not_skipsPastMark_nil]⟩

/-- A mark ends the token where the cursor stands, which is not before the start. -/
theorem markEnd (h : r.Kept) : (r.write .markEnd r.cursor.markEnd).Kept := by
  refine ⟨?_, ?_, ?_, h.start_le, ?_, ?_⟩
  · simpa [write, TextCursor.markEnd] using h.start
  · simpa [write, TextCursor.markEnd] using h.started
  · simp [write, TextCursor.markEnd, List.find?_cons]
  · simp [write, TextCursor.markEnd]
  · simp [write, TextCursor.markEnd, skipsPastMark_append_singleton, h.start_le]

theorem still (h : r.Kept) (skip : Bool) (hend : r.cursor.chars[r.cursor.offset]? = none) :
    (r.write (.advance skip) r.cursor).Kept := by
  refine ⟨?_, ?_, ?_, h.start_le, h.stop_le, ?_⟩
  · simpa [write, hend] using h.start
  · simpa [write, hend] using h.started
  · simpa [write, List.find?_cons] using h.stop
  · simpa [write, skipsPastMark_append_singleton, hend] using h.inverted

theorem isSome_tokenStop (h : r.Kept) : r.cursor.tokenStop.isSome = r.history.any Deed.marks := by
  rw [h.stop, Option.isSome_map, List.isSome_find?, List.any_reverse]

theorem find?_eq_none (h : r.Kept) (hs : r.cursor.started = false) : r.history.find? Deed.reads = none := by
  rw [List.find?_eq_none]
  simpa [h.started] using hs

theorem find?_eq_some (h : r.Kept) (hs : r.cursor.started = true) : ∃ d, r.history.find? Deed.reads = some d := by
  rw [← Option.isSome_iff_exists, List.find?_isSome]
  simpa [h.started] using hs

variable {x : Char} {p : Position}

theorem read (h : r.Kept) (hx : r.cursor.chars[r.cursor.offset]? = some x)
    (hlt : r.cursor.position.index.toNat < p.index.toNat) :
    (r.write (.advance false) { r.cursor with position := p, started := true }).Kept := by
  refine ⟨?_, ?_, ?_, Nat.le_trans h.start_le (Nat.le_of_lt hlt), fun q hq => ?_, ?_⟩
  · -- The first character that is read starts the token, and a later one leaves the start where it is.
    have hstart := h.start
    cases hf : r.history.find? Deed.reads with
    | none => simpa [write, hx, hf] using hstart
    | some d => simpa [write, hf] using hstart
  · simp [write, hx]
  · simpa [write, List.find?_cons] using h.stop
  · exact Nat.le_trans (h.stop_le q hq) (Nat.le_of_lt hlt)
  · simpa [write, skipsPastMark_append_singleton] using h.inverted

theorem skip_started (h : r.Kept) (hs : r.cursor.started = true)
    (hlt : r.cursor.position.index.toNat < p.index.toNat) :
    (r.write (.advance true) { r.cursor with position := p }).Kept := by
  obtain ⟨d, hd⟩ := h.find?_eq_some hs
  have hread : r.history.any Deed.reads = true := h.started ▸ hs
  refine ⟨?_, ?_, ?_, Nat.le_trans h.start_le (Nat.le_of_lt hlt), fun q hq => ?_, ?_⟩
  · simpa [write, hd] using h.start
  · simpa [write] using h.started
  · simpa [write, List.find?_cons] using h.stop
  · exact Nat.le_trans (h.stop_le q hq) (Nat.le_of_lt hlt)
  · simpa [write, skipsPastMark_append_singleton, -List.any_eq_true, -List.any_eq_false, hread] using h.inverted

/-- Skipping before moves the start along, and past the mark if there is one. -/
theorem skip_unstarted (h : r.Kept) (hs : r.cursor.started = false) (hx : r.cursor.chars[r.cursor.offset]? = some x)
    (hlt : r.cursor.position.index.toNat < p.index.toNat) :
    (r.write (.advance true) { r.cursor with position := p, tokenStart := p }).Kept := by
  have hread : r.history.any Deed.reads = false := h.started ▸ hs
  refine ⟨?_, ?_, ?_, Nat.le_refl _, fun q hq => ?_, ?_⟩
  · simp [write, h.find?_eq_none hs]
  · simpa [write] using h.started
  · simpa [write, List.find?_cons] using h.stop
  · exact Nat.le_trans (h.stop_le q hq) (Nat.le_of_lt hlt)
  · -- Any mark now lies before the start, since it does not lie ahead of where the cursor stood.
    show (∃ q ∈ r.cursor.tokenStop, q.index.toNat < p.index.toNat) ↔ _
    have hmark : (∃ q ∈ r.cursor.tokenStop, q.index.toNat < p.index.toNat) ↔ r.history.any Deed.marks = true := by
      rw [← h.isSome_tokenStop, Option.isSome_iff_exists]
      exact exists_congr fun q => ⟨And.left, fun hq => ⟨hq, Nat.lt_of_le_of_lt (h.stop_le q hq) hlt⟩⟩
    rw [hmark]
    show _ ↔ SkipsPastMark (r.history ++ [_])
    rw [skipsPastMark_append_singleton]
    simp only [Deed.marks_advance, Deed.skips_advance, hx, Option.isSome_some, Bool.and_self, hread, and_true, true_and]
    exact ⟨.inr, fun hor => hor.elim SkipsPastMark.any_marks id⟩

/-- **Every call keeps a chronicle.** -/
theorem perform (h : r.Kept) (hr : Cursor.perform call r = .ok r') : r'.Kept := by
  obtain ⟨c, hc, rfl⟩ := perform_eq_ok_iff.1 hr
  cases call with
  | markEnd =>
    cases hc
    exact h.markEnd
  | advance skip =>
    rcases TextCursor.advance_eq_ok hc with ⟨hend, rfl⟩ | ⟨x, p, hx, hlt, rfl⟩
    · exact h.still skip hend
    · cases skip with
      | false => simpa using h.read hx hlt
      | true =>
        cases hs : r.cursor.started with
        | true => simpa [hs] using h.skip_started hs hlt
        | false => simpa [hs] using h.skip_unstarted hs hx hlt

end Kept

/-! ## Calls and requests, written down -/

variable {r : Chronicle} {c : TextCursor}

theorem Kept.exists_perform (h : r.Kept) (call : Call) (hc : Cursor.perform call r.cursor = .ok c) :
    ∃ r', Cursor.perform call r = .ok r' ∧ r'.cursor = c ∧ r'.Kept ∧
      r'.history.map Deed.call = r.history.map Deed.call ++ [call] := by
  have hr := perform_eq_ok_iff.2 ⟨c, hc, rfl⟩
  exact ⟨_, hr, rfl, h.perform hr, List.map_append⟩

theorem Kept.exists_performAll : ∀ (calls : List Call) {r : Chronicle}, r.Kept → performAll calls r.cursor = .ok c →
    ∃ r', performAll calls r = .ok r' ∧ r'.cursor = c ∧ r'.Kept ∧
      r'.history.map Deed.call = r.history.map Deed.call ++ calls
  | [], r, h, hc => by
    cases hc
    exact ⟨r, rfl, rfl, h, (List.append_nil _).symm⟩
  | call :: calls, r, h, hc => by
    rw [performAll_cons] at hc
    obtain ⟨c₁, hc₁, hc⟩ := Checked.bind_eq_ok_iff.1 hc
    obtain ⟨r₁, hr₁, rfl, h₁, hcalls₁⟩ := h.exists_perform call hc₁
    obtain ⟨r₂, hr₂, rfl, h₂, hcalls₂⟩ := exists_performAll calls h₁ hc
    refine ⟨r₂, ?_, rfl, h₂, ?_⟩
    · rw [performAll_cons, hr₁]
      exact hr₂
    · rw [hcalls₂, hcalls₁, List.append_assoc, List.singleton_append]

/-- **A request writes down the calls of its token**, and nothing without one. -/
theorem Kept.exists_resolve (h : r.Kept) {options : Options} {set : Candidates} {d : Decision}
    (hc : resolve options set r.cursor = .ok (d, c)) : ∃ r', resolve options set r = .ok (d, r') ∧ r'.cursor = c ∧
      r'.Kept ∧ r'.history.map Deed.call = r.history.map Deed.call ++ d.calls := by
  obtain ⟨d', hd, hc⟩ := Checked.bind_eq_ok_iff.1 hc
  have hd' : Decision.of options set (Cursor.lookahead r) = .ok d' := hd
  rw [resolve, hd', Checked.ok_bind]
  split at hc
  · rename_i he
    cases Checked.pure_eq_ok_iff.1 hc
    exact ⟨r, rfl, rfl, h, by rw [Decision.calls_of_none he, List.append_nil]⟩
  · rename_i e he
    obtain ⟨c', hc', hc⟩ := Checked.bind_eq_ok_iff.1 hc
    cases Checked.pure_eq_ok_iff.1 hc
    obtain ⟨r', hr', hcursor, h', hcalls⟩ := h.exists_performAll e.calls hc'
    refine ⟨r', ?_, hcursor, h', by rwa [Decision.calls_of_some he]⟩
    rw [hr']
    rfl

end Chronicle

/-! ## Anything, in any order, written down -/

/-- **A cursor in use, with its history**, and the copies kept of both. -/
structure Recorded where
  cursor : Chronicle
  copies : List Chronicle

namespace Recorded

def ofString (text : String) : Recorded := ⟨.ofString text, []⟩

/-- What a host does with a cursor; a history goes with the cursor it belongs to. -/
def move (r : Recorded) : Move → Checked Recorded
  | .beginToken => .ok { r with cursor := r.cursor.beginToken }
  | .advance skip => do return { r with cursor := ← Cursor.perform (.advance skip) r.cursor }
  | .markEnd => do return { r with cursor := ← Cursor.perform .markEnd r.cursor }
  | .resolve options set => do return { r with cursor := (← ContextScan.resolve options set r.cursor).2 }
  | .keep => .ok { r with copies := r.cursor :: r.copies }
  | .goBack n => .ok { r with cursor := r.copies.getD n r.cursor }

def moveAll (moves : List Move) (r : Recorded) : Checked Recorded := moves.foldlM move r

def forget (r : Recorded) : Handled := ⟨r.cursor.cursor, r.copies.map Chronicle.cursor⟩

def Kept (r : Recorded) : Prop := ∀ c ∈ r.cursor :: r.copies, c.Kept

theorem Kept.of_cursor {r : Recorded} (h : r.Kept) {c : Chronicle} (hc : c.Kept) :
    ({ r with cursor := c } : Recorded).Kept :=
  List.forall_mem_cons.2 ⟨hc, (List.forall_mem_cons.1 h).2⟩

/-- **Whatever a host does can be written down**, and is then told by the histories. -/
theorem Kept.exists_move {r : Recorded} (h : r.Kept) {m : Move} {u : Handled} (hu : r.forget.move m = .ok u) :
    ∃ r', r.move m = .ok r' ∧ r'.forget = u ∧ r'.Kept := by
  have hc : r.cursor.Kept := h _ List.mem_cons_self
  cases m with
  | beginToken =>
    cases hu
    exact ⟨_, rfl, rfl, h.of_cursor (.beginToken _)⟩
  | advance skip =>
    obtain ⟨c, hrun, hu⟩ := Checked.bind_eq_ok_iff.1 hu
    cases Checked.pure_eq_ok_iff.1 hu
    obtain ⟨r', hr', rfl, hkept, -⟩ := hc.exists_perform (.advance skip) hrun
    refine ⟨_, ?_, rfl, h.of_cursor hkept⟩
    rw [move, hr']
    rfl
  | markEnd =>
    cases hu
    obtain ⟨r', hr', hcursor, hkept, -⟩ := hc.exists_perform .markEnd rfl
    refine ⟨⟨r', r.copies⟩, ?_, congrArg (Handled.mk · _) hcursor, h.of_cursor hkept⟩
    rw [move, hr']
    rfl
  | resolve options set =>
    obtain ⟨⟨d, c⟩, hrun, hu⟩ := Checked.bind_eq_ok_iff.1 hu
    cases Checked.pure_eq_ok_iff.1 hu
    obtain ⟨r', hr', rfl, hkept, -⟩ := hc.exists_resolve hrun
    refine ⟨_, ?_, rfl, h.of_cursor hkept⟩
    rw [move, hr']
    rfl
  | keep =>
    cases hu
    exact ⟨_, rfl, rfl, List.forall_mem_cons.2 ⟨hc, h⟩⟩
  | goBack n =>
    cases hu
    refine ⟨_, rfl, congrArg (Handled.mk · _) (List.getD_map _ _ _).symm, h.of_cursor ?_⟩
    rw [List.getD_eq_getElem?_getD]
    cases hn : r.copies[n]? with
    | none => exact hc
    | some c => exact h c (List.mem_cons_of_mem _ (List.mem_of_getElem? hn))

theorem Kept.exists_moveAll : ∀ (moves : List Move) {r : Recorded} {u : Handled}, r.Kept →
    Handled.moveAll moves r.forget = .ok u → ∃ r', moveAll moves r = .ok r' ∧ r'.forget = u ∧ r'.Kept
  | [], r, u, h, hu => by
    cases hu
    exact ⟨r, rfl, rfl, h⟩
  | m :: moves, r, u, h, hu => by
    rw [Handled.moveAll, List.foldlM_cons] at hu
    obtain ⟨u₁, hu₁, hu⟩ := Checked.bind_eq_ok_iff.1 hu
    obtain ⟨r₁, hr₁, rfl, h₁⟩ := h.exists_move hu₁
    obtain ⟨r₂, hr₂, rfl, h₂⟩ := exists_moveAll moves h₁ hu
    refine ⟨r₂, ?_, rfl, h₂⟩
    rw [moveAll, List.foldlM_cons, hr₁]
    exact hr₂

end Recorded

/-! ## What is told -/

namespace TextCursor

variable {c c' : TextCursor} {done left : List Char}

theorem Between.done_unique {done' left' : List Char} (h : c.Between done left) (h' : c.Between done' left')
    (fits : Fits (done ++ left)) : done = done' := by
  have htext : done ++ left = done' ++ left' := h.text_eq.symm.trans h'.text_eq
  apply List.append_inj_left htext
  rw [← h.offset_eq fits, ← h'.offset_eq (htext ▸ fits)]

/-- The calls of a token start it before its characters, or leave the start where it is. -/
theorem Sound.start_of_emission {gap word : List Char} {e : Emission} (h : c.Sound done (gap ++ word ++ left))
    (fits : Fits (done ++ (gap ++ word ++ left))) (hgap : gap.length = e.leading) (hword : word.length = e.length)
    (hrun : ContextScan.performAll e.calls c = .ok c') : ∃ before, before <+: done ++ gap ∧ c'.tokenStart = .past before ∧
      (c.started = false → before = done ++ gap) := by
  rw [List.append_assoc] at h fits
  obtain ⟨c₁, hrun₁, hbetween, hstarted, -⟩ := h.toBetween.perform_skips fits
  obtain ⟨c₁', done₁, left₁, hrun₁', h₁, hall⟩ := h.performAll (List.replicate gap.length (.advance true)) fits
  rw [hrun₁, Except.ok.injEq] at hrun₁'
  subst hrun₁'
  obtain rfl := h₁.toBetween.done_unique hbetween (hall ▸ fits)
  obtain ⟨before, hbefore, hstart, hwhole⟩ := h₁.start
  obtain ⟨c₂, hrun₂, -, hstart₂⟩ := hbetween.perform_reads (by rwa [List.append_assoc])
  rw [Emission.calls, ← hgap, ← hword, performAll_append, performAll_append, hrun₁, Checked.ok_bind, hrun₂] at hrun
  cases hrun
  exact ⟨before, hbefore, hstart₂.trans hstart, fun hs => hwhole.1 (hstarted.trans hs)⟩

/-- **A token leaves a span that ends at the cursor** and holds its characters, and no others if none had been read. -/
theorem Sound.resolve_span (h : c.Sound done left) (fits : Fits (done ++ left)) {options : Options} {set : Candidates}
    {e : Emission} (he : (Decision.reading options set left).emission = some e) : ∃ c' n,
      ContextScan.resolve options set c = .ok (Decision.reading options set left, c') ∧
      c'.tokenSpan.stop = c'.position ∧ c'.tokenSpan.length = .ok n ∧ c'.tokenSpan.isEmpty = .ok false ∧
      e.length ≤ n.toNat ∧ (c.started = false → n.toNat = e.length) := by
  obtain ⟨gap, word, rest, hcut⟩ := Decision.exists_cut he
  obtain rfl := hcut.eq
  obtain ⟨c', hcalls, hc', hstop, -⟩ := h.toBetween.perform_emission fits hcut.leading hcut.length
  obtain ⟨before, hbefore, hstart, hwhole⟩ := h.start_of_emission fits hcut.leading hcut.length hcalls
  have hfits := fits.assoc.left
  have hspan : c'.tokenSpan = ⟨.past before, .past (done ++ gap ++ word)⟩ := by rw [tokenSpan, hstart, hstop]; rfl
  -- What is measured: the word, with what of the text before it belongs to the token.
  obtain ⟨n, hn⟩ := (Position.past_measured (hbefore.trans (List.prefix_append _ word)) hfits).length
  have hmeasure := Word.sub_eq_ok_iff.1 hn
  obtain ⟨between, hbetween⟩ := hbefore
  rw [← hbetween] at hfits hmeasure
  dsimp only at hmeasure
  rw [Position.toNat_index_past hfits, Position.toNat_index_past hfits.left.left, List.length_append,
    List.length_append, hcut.length] at hmeasure
  have hpos : 0 < e.length := hcut.length ▸ List.length_pos_iff.2 hcut.ne_nil
  refine ⟨c', n, ?_, ?_, by rw [hspan, hn], ?_, by omega, fun hs => ?_⟩
  · rw [resolve_of_shows (h.shows fits), Decision.calls_of_some he, hcalls]
    rfl
  · rw [hspan, hc'.position_eq]
  · have hne : n ≠ 0 := by
      rintro rfl
      rw [UInt64.toNat_zero] at hmeasure
      omega
    rw [hspan, Span.isEmpty, hn]
    simp [hne]
  · have hwhole := congrArg List.length (hwhole hs)
    rw [← hbetween, List.length_append] at hwhole
    omega

end TextCursor

namespace Chronicle

/-- **What the history of a cursor tells of its token**, and of the token after any request. -/
structure Told (r : Chronicle) : Prop where
  start : r.cursor.tokenSpan.start = (r.history.find? Deed.reads).elim r.cursor.position Deed.place
  stop : r.cursor.tokenSpan.stop = (r.history.reverse.find? Deed.marks).elim r.cursor.position Deed.place
  length : (∃ o, r.cursor.tokenSpan.length = .error o) ↔ SkipsPastMark r.history
  isEmpty : (∃ o, r.cursor.tokenSpan.isEmpty = .error o) ↔ SkipsPastMark r.history
  /-- A request adds the calls of its token, and none without one.  With a token, the span then ends at the cursor and
  holds the characters of the token, and no others if none had been read. -/
  resolve : ∀ (options : Options) (set : Candidates), ∃ d r', resolve options set r = .ok (d, r') ∧
    resolve options set r.cursor = .ok (d, r'.cursor) ∧
    r'.history.map Deed.call = r.history.map Deed.call ++ d.calls ∧
    ∀ e ∈ d.emission, r'.cursor.tokenSpan.stop = r'.cursor.position ∧ r'.cursor.tokenSpan.isEmpty = .ok false ∧
      ∃ n, r'.cursor.tokenSpan.length = .ok n ∧ e.length ≤ n.toNat ∧
        (r.history.any Deed.reads = false → n.toNat = e.length)

theorem Kept.length_eq_error_iff {r : Chronicle} (h : r.Kept) :
    (∃ o, r.cursor.tokenSpan.length = .error o) ↔ SkipsPastMark r.history := by
  simp only [Span.length, Word.sub_eq_error_iff, exists_and_left, exists_eq, and_true]
  rw [← h.inverted]
  show (r.cursor.tokenStop.getD r.cursor.position).index.toNat < r.cursor.tokenStart.index.toNat ↔ _
  have hle := h.start_le
  cases r.cursor.tokenStop with
  | none => simpa using hle
  | some p => simp

theorem Kept.told {r : Chronicle} (h : r.Kept) {done left : List Char} (hs : r.cursor.Sound done left)
    (fits : Fits (done ++ left)) : r.Told := by
  refine ⟨h.start, ?_, h.length_eq_error_iff, ?_, fun options set => ?_⟩
  · show r.cursor.tokenStop.getD _ = _
    rw [h.stop]
    cases r.history.reverse.find? Deed.marks <;> rfl
  · rw [← h.length_eq_error_iff]
    exact exists_congr fun o => Span.isEmpty_eq_error_iff
  · cases he : (Decision.reading options set left).emission with
    | none =>
      have hc := resolve_of_shows_none (s := r.cursor) (hs.shows fits) he
      obtain ⟨r', hr', hcursor, -, hcalls⟩ := h.exists_resolve hc
      refine ⟨_, r', hr', hcursor ▸ hc, hcalls, fun e' he' => ?_⟩
      rw [he] at he'
      cases he'
    | some e =>
      obtain ⟨c, n, hc, hstop, hlength, hempty, hle, heq⟩ := hs.resolve_span fits he
      obtain ⟨r', hr', rfl, -, hcalls⟩ := h.exists_resolve hc
      refine ⟨_, r', hr', hc, hcalls, fun e' he' => ⟨hstop, hempty, n, hlength, ?_⟩⟩
      rw [he] at he'
      cases he'
      exact ⟨hle, fun hread => heq (h.started.trans hread)⟩

end Chronicle

/-- **The pending token is told by its history.**

Whatever is done with a cursor over a text, and in whatever order, is done, and the calls since its token began tell
where the token starts, where it ends, and whether its span can be measured; so it is for every copy of the cursor. -/
theorem Recorded.moveAll_told (text : String) (moves : List Move) (fits : Fits text.toList) :
    ∃ r, moveAll moves (.ofString text) = .ok r ∧ Handled.moveAll moves (.ofString text) = .ok r.forget ∧
      ∀ c ∈ r.cursor :: r.copies, c.Told := by
  have hkept : (ofString text).Kept := List.forall_mem_singleton.2 (Chronicle.Kept.ofString text)
  have hsound : (Handled.ofString text).Sound text.toList :=
    List.forall_mem_singleton.2 ⟨[], text.toList, TextCursor.sound_ofString text, rfl⟩
  obtain ⟨u, hu, hs⟩ := hsound.moveAll moves fits
  obtain ⟨r, hr, rfl, hkept'⟩ := hkept.exists_moveAll moves hu
  refine ⟨r, hr, hu, fun c hc => ?_⟩
  have hmem : c.cursor ∈ r.forget.cursor :: r.forget.copies := List.mem_map_of_mem (f := Chronicle.cursor) hc
  obtain ⟨done, left, hc', hall⟩ := hs c.cursor hmem
  exact (hkept' c hc).told hc' (hall ▸ fits)

example : ((TextCursor.ofString " a").markEnd.advance true).map (·.tokenSpan.length) = .ok (.error .subtraction) := by
  decide

/-- A mark that the start of the token then passes, a request that finds nothing, one that finds a token, and a move at
the end of the text. -/
theorem Recorded.moveAll_told_past_a_mark : ∃ r,
    moveAll [.markEnd, .advance true, .keep, .resolve {} (.singleton .comma), .advance false,
        .resolve {} (.singleton .semicolon), .advance true] (.ofString "\té ;") = .ok r ∧
      r.cursor.Told ∧ ∀ c ∈ r.copies, c.Told := by
  obtain ⟨r, hr, -, hall⟩ := Recorded.moveAll_told "\té ;"
    [.markEnd, .advance true, .keep, .resolve {} (.singleton .comma), .advance false,
      .resolve {} (.singleton .semicolon), .advance true] (by decide)
  exact ⟨r, hr, List.forall_mem_cons.1 hall⟩

end ContextScan
