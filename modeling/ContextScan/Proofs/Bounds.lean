import ContextScan.Proofs.Exchange
import ContextScan.Proofs.Handling
/-!
# Proofs.Bounds — no number runs out

Over a text that fits, no sum of a run is too large for a word and no difference is negative, whatever is asked and in
whatever order.  The reason is that nothing looks further than one place behind the text: a request asks for no offset
beyond the number of characters left (`TextCursor.Bounded.decide`), which its counters therefore never pass, and every
loop over a class of characters stops there at the latest (`TextCursor.Bounded.loop`).  Spans begin before they end, so
they can be measured (`Span.Measured`).

The one way to ask for too much is to ask a cursor for a far character by hand (`TextCursor.Bounded.peek`).
-/
namespace ContextScan

/-! ## What a request asks for -/

/-- **A lookahead that refuses every offset beyond `n`.** -/
def Lookahead.within (look : Lookahead) (n : Nat) : Lookahead where
  peek i := if i ≤ n then look.peek i else .error .addition
  extent := look.extent
  peek_ne_some i c h e := by
    split at e
    · exact look.peek_ne_some i c h e
    · cases e

theorem Lookahead.Shows.within {look : Lookahead} {cs : List Char} (h : look.Shows cs) :
    (look.within cs.length).Shows cs := by
  intro i hi
  show (if i ≤ cs.length then look.peek i else .error .addition) = _
  rw [if_pos hi, h i hi]

/-- On a text in view, a loop over a class ends at the end of the text at the latest. -/
theorem Lookahead.Shows.exists_skip {look : Lookahead} {cs : List Char} (h : look.Shows cs) (p : Char → Bool) {i : Nat}
    (hi : i ≤ cs.length) : ∃ j, look.skip p i = .ok j ∧ i ≤ j ∧ j ≤ cs.length := by
  refine ⟨_, h.skip p i hi, Nat.le_add_right _ _, ?_⟩
  have hrun := (List.takeWhile_sublist (l := cs.drop i) p).length_le
  rw [List.length_drop] at hrun
  omega

theorem Decision.reading_length_le {options : Options} {set : Candidates} {cs : List Char} {e : Emission}
    (he : (reading options set cs).emission = some e) : e.leading + e.length ≤ cs.length := by
  obtain ⟨gap, word, rest, hcut⟩ := exists_cut he
  rw [hcut.eq, ← hcut.leading, ← hcut.length, List.length_append, List.length_append]
  exact Nat.le_add_right _ _

/-! ## Measuring a span -/

/-- **A span that can be measured**, in characters and in bytes. -/
structure Span.Measured (s : Span) : Prop where
  length : ∃ n, s.length = .ok n
  isEmpty : ∃ b, s.isEmpty = .ok b
  byteExtent : ∃ a n, s.byteExtent = .ok (a, n)

theorem Word.exists_sub {a b : UInt64} (h : b.toNat ≤ a.toNat) : ∃ c, sub a b = .ok c :=
  ⟨a - b, if_pos (UInt64.le_iff_toNat_le.2 h)⟩

theorem Span.measured_of_le {s : Span} (hindex : s.start.index.toNat ≤ s.stop.index.toNat)
    (hbytes : s.start.byteOffset.toNat ≤ s.stop.byteOffset.toNat) : s.Measured := by
  obtain ⟨n, hn⟩ : ∃ n, s.length = .ok n := Word.exists_sub hindex
  obtain ⟨m, hm⟩ := Word.exists_sub hbytes
  refine ⟨⟨n, hn⟩, ⟨n == 0, ?_⟩, ⟨s.start.byteOffset, m, ?_⟩⟩
  · rw [isEmpty, hn]
    rfl
  · rw [byteExtent, hm]
    rfl

/-- A span between two places can be measured if they are in order. -/
theorem Position.past_measured {before done : List Char} (h : before <+: done) (fits : Fits done) :
    Span.Measured ⟨past before, past done⟩ := by
  obtain ⟨between, rfl⟩ := h
  apply Span.measured_of_le
  · show (past before).index.toNat ≤ (past (before ++ between)).index.toNat
    rw [toNat_index_past fits, toNat_index_past fits.left, List.length_append]
    exact Nat.le_add_right _ _
  · show (past before).byteOffset.toNat ≤ (past (before ++ between)).byteOffset.toNat
    rw [toNat_byteOffset_past fits, toNat_byteOffset_past fits.left, byteLength_append]
    exact Nat.le_add_right _ _

theorem Exchange.measured {options : Options} {done left done' left' : List Char} {sets : List Candidates}
    {ts : List (Option Token)} (h : Exchange options done left sets ts done' left') :
    Fits (done ++ left) → ∀ t, some t ∈ ts → t.span.Measured := by
  induction h with
  | nil => exact fun _ t ht => absurd ht List.not_mem_nil
  | declined he hlater ih =>
    intro fits t ht
    rcases List.mem_cons.1 ht with ht | ht
    · cases ht
    · exact ih fits t ht
  | @token done left gap word rest _ _ set sets ts e he hcut hlater ih =>
    intro fits t ht
    rw [hcut.eq] at fits
    rcases List.mem_cons.1 ht with ht | ht
    · cases ht
      exact Position.past_measured (List.prefix_append _ _) fits.assoc.left
    · exact ih fits.assoc t ht

/-! ## Cursors -/

namespace TextCursor

/-- **A cursor that no request can drive out of its words.** -/
structure Bounded (c : TextCursor) : Prop where
  /-- Every place of the text has a number, with room for as many more. -/
  room : 2 * (c.offset + c.unread) < UInt64.size
  /-- Looking by hand is refused exactly where the number of the place is no word. -/
  peek : ∀ n, (∃ o, c.peek n = .error o) ↔ UInt64.size ≤ c.position.index.toNat + n
  /-- A loop over a class of characters ends, and never looks beyond the end of the text. -/
  loop : ∀ (p : Char → Bool) (i : Nat), i ≤ c.unread →
    ∃ j, (c.lookahead.within c.unread).skip p i = .ok j ∧ i ≤ j ∧ j ≤ c.unread
  /-- A request never looks beyond the end of the text, and its token ends before. -/
  decide : ∀ (options : Options) (set : Candidates), ∃ d, Decision.of options set c.lookahead = .ok d ∧
    Decision.of options set (c.lookahead.within c.unread) = .ok d ∧
    ∀ e ∈ d.emission, e.leading + e.length ≤ c.unread
  /-- A request is carried out, and the span of its token can be measured. -/
  resolve : ∀ (options : Options) (set : Candidates), ∃ d c', resolve options set c = .ok (d, c') ∧
    (d.emission.isSome = true → c'.tokenSpan.Measured)

namespace Sound

variable {c : TextCursor} {done left : List Char}

theorem resolve_measured (h : c.Sound done left) (fits : Fits (done ++ left)) (options : Options) (set : Candidates) :
    ∃ d c', ContextScan.resolve options set c = .ok (d, c') ∧
      (d.emission.isSome = true → c'.tokenSpan.Measured) := by
  obtain ⟨d, c', done', left', hrun, hc', hall⟩ := h.resolve fits options set
  refine ⟨d, c', hrun, fun hsome => ?_⟩
  obtain ⟨e, he⟩ := Option.isSome_iff_exists.1 hsome
  -- The mark is where the cursor stands now, and the start lies in what it has read.
  have hd : d = Decision.reading options set left := by
    obtain ⟨c₁, hrun₁, -⟩ := h.toBetween.exists_resolve fits options set
    rw [hrun, Except.ok.injEq, Prod.mk.injEq] at hrun₁
    exact hrun₁.1
  rw [hd] at he
  obtain ⟨gap, word, rest, hcut⟩ := Decision.exists_cut he
  obtain rfl := hcut.eq
  obtain ⟨c₁, hrun₁, hc₁, hstop, -⟩ := h.toBetween.resolve_of_emission fits he hcut.leading hcut.length
  rw [hrun, Except.ok.injEq, Prod.mk.injEq] at hrun₁
  obtain ⟨-, rfl⟩ := hrun₁
  obtain ⟨before, hbefore, hstart, -⟩ := hc'.start
  have hplace : c'.tokenStop.getD c'.position = .past done' := by
    rw [hstop, Option.getD_some, ← hc₁.position_eq, hc'.position_eq]
  rw [tokenSpan, hplace, hstart]
  exact Position.past_measured hbefore (hall ▸ fits).left

/-- **A sound cursor over a text that fits stays in its words.** -/
theorem bounded (h : c.Sound done left) (fits : Fits (done ++ left)) : c.Bounded := by
  have hoffset := h.offset_eq fits
  have hunread : c.unread = left.length := by
    rw [unread, hoffset, ← Array.length_toList, ← text, h.text_eq, List.length_append, Nat.add_sub_cancel_left]
  have hshows := h.shows fits
  refine ⟨?_, fun n => ?_, fun p i hi => ?_, fun options set => ?_, h.resolve_measured fits⟩
  · rw [hoffset, hunread, ← List.length_append]
    exact fits.double_length_lt
  · unfold TextCursor.peek
    split
    · rename_i hlt
      refine ⟨fun h => ?_, fun hle => absurd hlt (Nat.not_lt.2 hle)⟩
      obtain ⟨o, ho⟩ := h
      cases ho
    · rename_i hlt
      exact ⟨fun _ => Nat.not_lt.1 hlt, fun _ => ⟨_, rfl⟩⟩
  · rw [hunread] at hi ⊢
    exact hshows.within.exists_skip p hi
  · rw [hunread]
    exact ⟨_, Decision.of_eq_reading hshows options set, Decision.of_eq_reading hshows.within options set,
      fun e he => Decision.reading_length_le he⟩

end Sound
end TextCursor

/-! ## Runs -/

/-- **The moves of a session on its cursor**: every request begins a token. -/
def Session.moves (options : Options) (sets : List Candidates) : List Move :=
  sets.flatMap fun set => [.beginToken, .resolve options set]

theorem Session.moveAll_next {s : Session} {set : Candidates} {a : Answer} (h : s.next set = .ok a)
    (copies : List TextCursor) : a.session.options = s.options ∧
      Handled.moveAll [.beginToken, .resolve s.options set] ⟨s.cursor, copies⟩ = .ok ⟨a.session.cursor, copies⟩ := by
  obtain ⟨⟨d, c⟩, hc, h⟩ := Checked.bind_eq_ok_iff.1 h
  cases Checked.pure_eq_ok_iff.1 h
  refine ⟨rfl, ?_⟩
  show Handled.move ⟨s.cursor.beginToken, copies⟩ (.resolve s.options set) >>= pure = _
  rw [Handled.move, hc]
  rfl

/-- **A session is a cursor in use.** -/
theorem Session.moveAll_moves : ∀ {sets : List Candidates} {s s' : Session} {ts : List (Option Token)},
    s.replies sets = .ok (ts, s') → ∀ copies,
      Handled.moveAll (moves s.options sets) ⟨s.cursor, copies⟩ = .ok ⟨s'.cursor, copies⟩
  | [], s, s', ts, h, copies => by
    cases h
    rfl
  | set :: sets, s, s', ts, h, copies => by
    obtain ⟨a, ha, h⟩ := Checked.bind_eq_ok_iff.1 h
    obtain ⟨⟨us, s₁⟩, hs₁, h⟩ := Checked.bind_eq_ok_iff.1 h
    cases Checked.pure_eq_ok_iff.1 h
    obtain ⟨hoptions, hnext⟩ := moveAll_next ha copies
    have hlater := moveAll_moves hs₁ copies
    rw [hoptions] at hlater
    rw [moves, List.flatMap_cons, Handled.moveAll, List.foldlM_append]
    rw [Handled.moveAll] at hnext
    rw [hnext]
    exact hlater

/-- **No run over a text overflows, and every run ends.**

Whatever is done with a cursor over a text is carried out, and leaves a cursor, and copies of it, on which again every
request is carried out, without a look beyond the end of the text.  The same holds of a session after any
requests, and the spans of its tokens can be measured.  A scan makes the requests of a session, so it is carried out
too, against any host. -/
theorem no_run_overflows (options : Options) (text : String) (fits : Fits text.toList) :
    (∀ moves, ∃ h, Handled.moveAll moves (.ofString text) = .ok h ∧ ∀ c ∈ h.cursor :: h.copies, c.Bounded) ∧
    (∀ sets, ∃ ts s, (Session.start text options).replies sets = .ok (ts, s) ∧ s.cursor.Bounded ∧
      ∀ t, some t ∈ ts → t.span.Measured) ∧
    ∀ host, ∃ scan sets ts s, Scan.of options text host = .ok scan ∧
      (Session.start text options).replies sets = .ok (ts, s) ∧ sets.length = scan.queries.length ∧
      ts.filterMap id = scan.tokens ∧ ∀ t ∈ scan.tokens, t.span.Measured := by
  have hmoves : ∀ moves, ∃ h, Handled.moveAll moves (.ofString text) = .ok h ∧
      ∀ c ∈ h.cursor :: h.copies, c.Bounded := by
    intro moves
    have hstart : (Handled.ofString text).Sound text.toList :=
      List.forall_mem_singleton.2 ⟨[], text.toList, TextCursor.sound_ofString text, rfl⟩
    obtain ⟨h, hrun, hs⟩ := hstart.moveAll moves fits
    refine ⟨h, hrun, fun c hc => ?_⟩
    obtain ⟨done, left, hc, hall⟩ := hs c hc
    exact hc.bounded (hall ▸ fits)
  refine ⟨hmoves, fun sets => ?_, fun host => ?_⟩
  · obtain ⟨ts, c, done, left, hrun, hexchange, -⟩ := Session.exists_replies options text sets fits
    obtain ⟨h, hh, hbounded⟩ := hmoves (Session.moves options sets)
    have hcursor : Handled.moveAll (Session.moves options sets) (.ofString text) = .ok ⟨c, []⟩ :=
      Session.moveAll_moves hrun []
    rw [hh, Except.ok.injEq] at hcursor
    subst hcursor
    exact ⟨ts, _, hrun, hbounded _ List.mem_cons_self, hexchange.measured fits⟩
  · obtain ⟨scan, hrun, hcourse⟩ := Scan.exists_course options text host fits
    obtain ⟨sets, ts, done, left, hexchange, hlen, htokens⟩ := hcourse.exists_exchange
    obtain ⟨c, hreplies, -⟩ :=
      hexchange.replies_eq (s := .start text options) rfl (TextCursor.between_ofString text) fits
    refine ⟨_, sets, ts, _, hrun, hreplies, hlen, htokens, fun t ht => hexchange.measured fits t ?_⟩
    obtain ⟨o, ho, ht⟩ := List.mem_filterMap.1 (htokens.symm ▸ ht : t ∈ ts.filterMap id)
    rwa [show o = some t from ht] at ho

/-- An equals sign that ends the text: the place behind it is asked for, and nothing beyond. -/
theorem no_run_overflows_at_the_end : ∃ h,
    Handled.moveAll [.resolve {} (.singleton .envVarName), .resolve {} (.singleton .namedParamEq), .markEnd,
        .advance true, .resolve {} (.singleton .constDeclVar), .advance false] (.ofString "a=é_9 =") = .ok h ∧
      h.cursor.Bounded ∧
    ∃ ts s, (Session.start "a=é_9 =" {}).replies [.singleton .envVarName, .singleton .namedParamEq] = .ok (ts, s) ∧
      s.cursor.Bounded ∧
    ∃ scan, Scan.of {} "a=é_9 =" (fun _ _ => .ofList [.envVarName, .envEqual]) = .ok scan ∧
      ∀ t ∈ scan.tokens, t.span.Measured := by
  obtain ⟨hmoves, hreplies, hscan⟩ := no_run_overflows {} "a=é_9 =" (by decide)
  obtain ⟨h, hrun, hbounded⟩ := hmoves [.resolve {} (.singleton .envVarName), .resolve {} (.singleton .namedParamEq),
    .markEnd, .advance true, .resolve {} (.singleton .constDeclVar), .advance false]
  obtain ⟨ts, s, hs, hcursor, -⟩ := hreplies [.singleton .envVarName, .singleton .namedParamEq]
  obtain ⟨scan, -, -, -, hrun', -, -, -, hmeasured⟩ := hscan fun _ _ => .ofList [.envVarName, .envEqual]
  exact ⟨h, hrun, hbounded _ List.mem_cons_self, ts, s, hs, hcursor, scan, hrun', hmeasured⟩

end ContextScan
