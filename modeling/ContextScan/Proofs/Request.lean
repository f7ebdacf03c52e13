import ContextScan.Cursor.Recorder
import ContextScan.Proofs.Grammar
import ContextScan.Proofs.Place
/-!
# Proofs.Request — what one request emits and what it does

On any cursor that shows a text, a request takes the decision on that text and performs the calls of the decision, in
full or not at all (`resolve_of_shows`).  Two things follow.  On a text, a request emits exactly the tokens of the
grammar (`TextCursor.Between.resolve_emits_iff`).  And on every cursor, whatever its calls do, a request without a
token performs no call, and one with a token moves over characters that are there (`resolve_decides_then_commits`), so
that a cursor which would run past its end cannot be told from one which stays there.
-/
namespace ContextScan

/-- The calls that a decision leads to. -/
def Decision.calls (d : Decision) : List Call := d.emission.elim [] Emission.calls

theorem Decision.calls_of_none {d : Decision} (h : d.emission = none) : d.calls = [] := by
  rw [calls, h, Option.elim_none]

theorem Decision.calls_of_some {d : Decision} {e : Emission} (h : d.emission = some e) : d.calls = e.calls := by
  rw [calls, h, Option.elim_some]

section

variable {σ : Type} [Cursor σ] {s : σ} {cs : List Char}

/-- **A request decides on what is in view, then performs the calls of its decision.** -/
theorem resolve_of_shows (h : (Cursor.lookahead s).Shows cs) (options : Options) (set : Candidates) :
    resolve options set s =
      (performAll (Decision.reading options set cs).calls s).map fun s' => (Decision.reading options set cs, s') := by
  rw [resolve, Decision.of_eq_reading h, Checked.ok_bind]
  split
  · rename_i he
    rw [Decision.calls_of_none he]
    rfl
  · rename_i e he
    rw [Decision.calls_of_some he]
    cases performAll e.calls s <;> rfl

theorem resolve_of_shows_none (h : (Cursor.lookahead s).Shows cs) {options : Options} {set : Candidates}
    (he : (Decision.reading options set cs).emission = none) :
    resolve options set s = .ok (Decision.reading options set cs, s) := by
  rw [resolve_of_shows h, Decision.calls_of_none he]
  rfl

end

/-! ## On a text -/

namespace TextCursor.Between

variable {c : TextCursor} {done left : List Char} {options : Options} {set : Candidates}

/-- A token moves a text cursor past its blanks and its characters. -/
theorem resolve_of_emission {gap word rest : List Char} {e : Emission} (h : c.Between done (gap ++ word ++ rest))
    (fits : Fits (done ++ (gap ++ word ++ rest)))
    (he : (Decision.reading options set (gap ++ word ++ rest)).emission = some e) (hgap : gap.length = e.leading)
    (hword : word.length = e.length) :
    ∃ c', resolve options set c = .ok (Decision.reading options set (gap ++ word ++ rest), c') ∧
      c'.Between (done ++ gap ++ word) rest ∧ c'.tokenStop = some (.past (done ++ gap ++ word)) ∧
      (c.started = false → c.tokenStart = c.position → c'.tokenStart = .past (done ++ gap)) := by
  obtain ⟨c', hrun, hc'⟩ := h.perform_emission fits hgap hword
  refine ⟨c', ?_, hc'⟩
  rw [resolve_of_shows (h.shows fits), Decision.calls_of_some he, hrun]
  rfl

/-- **A request on a text is answered**, and moves the cursor by what it emits. -/
theorem exists_resolve (h : c.Between done left) (fits : Fits (done ++ left)) (options : Options) (set : Candidates) :
    ∃ c', resolve options set c = .ok (Decision.reading options set left, c') ∧ c'.offset =
      c.offset + (Decision.reading options set left).emission.elim 0 fun e => e.leading + e.length := by
  cases he : (Decision.reading options set left).emission with
  | none => exact ⟨c, resolve_of_shows_none (h.shows fits) he, rfl⟩
  | some e =>
    obtain ⟨gap, word, rest, rfl, hgap, hword, -⟩ := Decision.exists_split he
    obtain ⟨c', hc', hafter, -⟩ := h.resolve_of_emission fits he hgap hword
    refine ⟨c', hc', ?_⟩
    rw [hafter.offset_eq fits.assoc, h.offset_eq fits, Option.elim_some, ← hgap, ← hword, List.length_append,
      List.length_append, Nat.add_assoc]

/-- **A request emits exactly the tokens of the grammar**: after all the blanks, a form that the candidates admit,
unless they hold the sentinel of error recovery.  The cursor moves over the blanks and the token, and not at all
without one.  At most one kind and one length qualify. -/
theorem resolve_emits_iff (h : c.Between done left) (fits : Fits (done ++ left)) (options : Options)
    (set : Candidates) :
    (∃ d c', resolve options set c = .ok (d, c') ∧
      c'.offset = c.offset + d.emission.elim 0 (fun e => e.leading + e.length) ∧
      ∀ (k : Kind) (leading n : Nat), d.emission = some ⟨k, leading, n⟩ ↔
        .errorSentinel ∉ set ∧ leading = (left.takeWhile isBlank).length ∧ set.Admits (left.dropWhile isBlank) k ∧
          Form options k n (left.dropWhile isBlank)) ∧
    ∀ (k k' : Kind) (n n' : Nat), set.Admits (left.dropWhile isBlank) k → Form options k n (left.dropWhile isBlank) →
      set.Admits (left.dropWhile isBlank) k' → Form options k' n' (left.dropWhile isBlank) → k = k' ∧ n = n' := by
  constructor
  · obtain ⟨c', hc', hoffset⟩ := h.exists_resolve fits options set
    exact ⟨_, c', hc', hoffset, fun k leading n => Decision.reading_emission_iff⟩
  · intro k k' n n' hk hf hk' hf'
    have hr := Rules.standard_reading_eq_emit_iff.2 ⟨hk, hf⟩
    rw [Rules.standard_reading_eq_emit_iff.2 ⟨hk', hf'⟩, Verdict.emit.injEq] at hr
    exact ⟨hr.1.symm, hr.2.symm⟩

/-- A name bound with blanks on both sides, for a set that also takes the other ways to bind. -/
theorem resolve_emits_constant : ∃ d c',
    resolve {} (.ofList [.constDeclVar, .envVarName, .namedParamEq]) (TextCursor.ofString "\tb = 1") = .ok (d, c') ∧
      d.emission = some ⟨.constDeclVar, 1, 1⟩ ∧ c'.offset = 2 := by
  obtain ⟨⟨d, c', hrun, hoffset, hd⟩, -⟩ := resolve_emits_iff (between_ofString "\tb = 1") (by decide) {}
    (.ofList [.constDeclVar, .envVarName, .namedParamEq])
  have hname : IsName ['b'] := ⟨'b', [], rfl, rfl, nofun⟩
  have hform : Form {} .constDeclVar 1 ("\tb = 1".toList.dropWhile isBlank) :=
    Form.constDeclVar ['1'] hname (List.cons_ne_nil ' ' []) (List.forall_mem_singleton.2 rfl) (b := ' ') rfl
  have hemit : d.emission = some ⟨.constDeclVar, 1, 1⟩ := by
    refine (hd ..).2 ⟨by decide, rfl, ⟨?_, ?_⟩, hform⟩
    · exact Candidates.mem_ofList.2 (by decide)
    · intro h
      exact absurd h.1 (by decide)
  rw [hemit] at hoffset
  exact ⟨d, c', hrun, hemit, hoffset⟩

end TextCursor.Between

/-! ## On any cursor -/

/-- **A cursor with a record** of the calls made on it. -/
structure Traced (σ : Type) where
  state : σ
  calls : List Call

instance {σ : Type} [Cursor σ] : Cursor (Traced σ) where
  lookahead t := Cursor.lookahead t.state
  perform call t := do return ⟨← Cursor.perform call t.state, t.calls ++ [call]⟩

theorem performAll_traced {σ : Type} [Cursor σ] : ∀ (calls : List Call) (s : σ) (log : List Call),
    performAll calls (Traced.mk s log) = (performAll calls s).map fun s' => ⟨s', log ++ calls⟩
  | [], s, log => by
    rw [List.append_nil]
    rfl
  | call :: calls, s, log => by
    rw [performAll_cons, performAll_cons]
    show (do return (⟨← Cursor.perform call s, log ++ [call]⟩ : Traced σ)) >>= performAll calls = _
    cases hs : Cursor.perform call s with
    | error e => rfl
    | ok s' =>
      show performAll calls (Traced.mk s' (log ++ [call])) = (performAll calls s').map _
      rw [performAll_traced calls s', List.append_assoc, List.singleton_append]

/-- A request on a cursor with a record adds its calls to the record. -/
theorem resolve_traced {σ : Type} [Cursor σ] {s : σ} {cs : List Char} (h : (Cursor.lookahead s).Shows cs)
    (options : Options) (set : Candidates) (log : List Call) :
    resolve options set (Traced.mk s log) = (performAll (Decision.reading options set cs).calls s).map fun s' =>
      (Decision.reading options set cs, ⟨s', log ++ (Decision.reading options set cs).calls⟩) := by
  have ht : (Cursor.lookahead (Traced.mk s log)).Shows cs := h
  rw [resolve_of_shows ht, performAll_traced]
  cases performAll (Decision.reading options set cs).calls s <;> rfl

/-- **The characters of an emission are there**: its blanks are blanks, and none of the token's characters is one. -/
theorem Lookahead.Shows.emission {look : Lookahead} {cs : List Char} {options : Options} {set : Candidates}
    {e : Emission} (h : look.Shows cs) (he : (Decision.reading options set cs).emission = some e) : 0 < e.length ∧
      (∀ i, i < e.leading → ∃ c, look.peek i = .ok (some c) ∧ isBlank c = true) ∧
      ∀ i, e.leading ≤ i → i < e.leading + e.length → ∃ c, look.peek i = .ok (some c) ∧ isBlank c = false := by
  obtain ⟨gap, word, rest, rfl, hgap, hword, hblank, hne, hplain⟩ := Decision.exists_split he
  rw [← hgap, ← hword]
  refine ⟨List.length_pos_iff.2 hne, ?_, ?_⟩
  · intro i hi
    refine ⟨gap[i], ?_, hblank _ (List.getElem_mem hi)⟩
    rw [h i (by simp only [List.length_append]; omega), List.append_assoc, List.getElem?_append_left hi,
      List.getElem?_eq_getElem hi]
  · intro i hle hi
    have hj : i - gap.length < word.length := by omega
    refine ⟨word[i - gap.length], ?_, (hplain _ (List.getElem_mem hj)).1⟩
    rw [h i (by simp only [List.length_append]; omega), List.append_assoc, List.getElem?_append_right hle,
      List.getElem?_append_left hj, List.getElem?_eq_getElem hj]

/-! ## Two cursors that differ at the end of a text -/

/-- **One request for each set**, on one cursor. -/
def requests {σ : Type} [Cursor σ] (options : Options) : List Candidates → σ → Checked (List Decision × σ)
  | [], s => .ok ([], s)
  | set :: sets, s => do
    let (d, s) ← resolve options set s
    let (ds, s) ← requests options sets s
    return (d :: ds, s)

theorem Recorder.performAll_eq : ∀ (calls : List Call) (r : Recorder), performAll calls r =
    .ok ⟨r.chars, r.offset + calls.countP (· ≠ .markEnd), r.calls ++ calls⟩
  | [], r => by
    rw [List.append_nil]
    rfl
  | .advance skip :: calls, r => by
    rw [performAll_cons]
    show performAll calls (⟨r.chars, r.offset + 1, r.calls ++ [.advance skip]⟩ : Recorder) = _
    rw [Recorder.performAll_eq calls, List.append_assoc, List.singleton_append, List.countP_cons_of_pos (by simp)]
    show Except.ok (Recorder.mk r.chars (r.offset + 1 + _) _) = _
    rw [Nat.add_assoc, Nat.add_comm 1]
  | .markEnd :: calls, r => by
    rw [performAll_cons]
    show performAll calls (⟨r.chars, r.offset, r.calls ++ [.markEnd]⟩ : Recorder) = _
    rw [Recorder.performAll_eq calls, List.append_assoc, List.singleton_append, List.countP_cons_of_neg (by decide)]

theorem Emission.countP_calls (e : Emission) : e.calls.countP (· ≠ .markEnd) = e.leading + e.length := by
  simp [Emission.calls, List.countP_replicate]

/-- **A text cursor and a recorder keep in step**: both stand at the same place and have seen the same calls. -/
structure InStep (t : Traced TextCursor) (r : Recorder) (done left : List Char) : Prop where
  between : t.state.Between done left
  text_eq : r.chars.toList = done ++ left
  offset_eq : r.offset = done.length
  calls_eq : r.calls = t.calls

namespace InStep

variable {t : Traced TextCursor} {r : Recorder} {done left : List Char}

theorem shows (h : InStep t r done left) : (Cursor.lookahead r).Shows left := by
  intro i hi
  show Except.ok (r.chars[r.offset + i]?) = _
  rw [← Array.getElem?_toList, h.text_eq, h.offset_eq, List.getElem?_append_right (Nat.le_add_right _ _),
    Nat.add_sub_cancel_left]

/-- **A request keeps the two in step.** -/
theorem resolve_step (h : InStep t r done left) (fits : Fits (done ++ left)) (options : Options) (set : Candidates) :
    ∃ d t' r' done' left', resolve options set t = .ok (d, t') ∧ resolve options set r = .ok (d, r') ∧
      InStep t' r' done' left' ∧ done' ++ left' = done ++ left ∧ r'.calls = r.calls ++ d.calls := by
  have ht := resolve_traced (s := t.state) (h.between.shows fits) options set t.calls
  have hr := resolve_of_shows h.shows options set
  rw [Recorder.performAll_eq] at hr
  cases he : (Decision.reading options set left).emission with
  | none =>
    have hcalls := Decision.calls_of_none he
    rw [hcalls] at ht hr
    exact ⟨_, _, _, done, left, ht, hr, ⟨h.between, h.text_eq, h.offset_eq, congrArg (· ++ []) h.calls_eq⟩, rfl,
      congrArg (r.calls ++ ·) hcalls.symm⟩
  | some e =>
    obtain ⟨gap, word, rest, rfl, hgap, hword, -⟩ := Decision.exists_split he
    obtain ⟨c', hrun, hc', -⟩ := h.between.perform_emission fits hgap hword
    have hcalls := Decision.calls_of_some he
    rw [hcalls] at ht hr
    rw [hrun] at ht
    have hall : done ++ gap ++ word ++ rest = done ++ (gap ++ word ++ rest) := by simp only [List.append_assoc]
    refine ⟨_, _, _, done ++ gap ++ word, rest, ht, hr, ⟨hc', h.text_eq.trans hall.symm, ?_, ?_⟩, hall, ?_⟩
    · show r.offset + e.calls.countP _ = _
      rw [Emission.countP_calls, h.offset_eq, ← hgap, ← hword, List.length_append, List.length_append, Nat.add_assoc]
    · exact congrArg (· ++ e.calls) h.calls_eq
    · exact congrArg (r.calls ++ ·) hcalls.symm

/-- **A run of requests keeps the two in step.** -/
theorem requests_run (options : Options) : ∀ (sets : List Candidates) {t : Traced TextCursor} {r : Recorder}
    {done left : List Char}, InStep t r done left → Fits (done ++ left) → ∃ ds t' r' done' left',
      requests options sets t = .ok (ds, t') ∧ requests options sets r = .ok (ds, r') ∧ InStep t' r' done' left' ∧
        done' ++ left' = done ++ left ∧ r'.calls = r.calls ++ ds.flatMap Decision.calls
  | [], t, r, done, left, h, _ => ⟨[], t, r, done, left, rfl, rfl, h, rfl, (List.append_nil _).symm⟩
  | set :: sets, t, r, done, left, h, fits => by
    obtain ⟨d, t₁, r₁, done₁, left₁, ht₁, hr₁, h₁, hall₁, hcalls₁⟩ := h.resolve_step fits options set
    obtain ⟨ds, t₂, r₂, done₂, left₂, ht₂, hr₂, h₂, hall₂, hcalls₂⟩ := requests_run options sets h₁ (hall₁ ▸ fits)
    refine ⟨d :: ds, t₂, r₂, done₂, left₂, ?_, ?_, h₂, hall₂.trans hall₁, ?_⟩
    · rw [requests, ht₁, Checked.ok_bind]
      dsimp only
      rw [ht₂]
      rfl
    · rw [requests, hr₁, Checked.ok_bind]
      dsimp only
      rw [hr₂]
      rfl
    · rw [hcalls₂, hcalls₁, List.append_assoc, List.flatMap_cons]

end InStep

theorem inStep_ofString (text : String) :
    InStep (Traced.mk (TextCursor.ofString text) []) (Recorder.ofString text) [] text.toList :=
  ⟨TextCursor.between_ofString text, rfl, rfl, rfl⟩

/-- **A request looks, then moves, and moves only over what it has seen.**

On every cursor that can be asked for what lies ahead, the decision is settled by the characters in view.  Without a
token no call is made.  With one, the calls skip the blanks, read the token's characters, all of them there and none of
them a blank, and mark the end.  So a run of requests over a text makes the same decisions and the same calls on a
cursor that stays at the end of its text and on one that would run past it, and neither gets past the end. -/
theorem resolve_decides_then_commits :
    (∀ (σ : Type) [Cursor σ] (options : Options) (set : Candidates) (s : σ), (Cursor.lookahead s).Clear →
      ∃ d : Decision,
        (∀ (τ : Type) [Cursor τ] (t : τ), (∀ i, (Cursor.lookahead t).peek i = (Cursor.lookahead s).peek i) →
          Decision.of options set (Cursor.lookahead t) = .ok d) ∧
        (d.emission = none → resolve options set s = .ok (d, s) ∧
          ∀ log, resolve options set (Traced.mk s log) = .ok (d, ⟨s, log⟩)) ∧
        ∀ e, d.emission = some e →
          (0 < e.length ∧
            (∀ i, i < e.leading → ∃ c, (Cursor.lookahead s).peek i = .ok (some c) ∧ isBlank c = true) ∧
            ∀ i, e.leading ≤ i → i < e.leading + e.length →
              ∃ c, (Cursor.lookahead s).peek i = .ok (some c) ∧ isBlank c = false) ∧
          ∃ calls, calls = List.replicate e.leading (.advance true) ++ List.replicate e.length (.advance false) ++
              [.markEnd] ∧
            resolve options set s = (performAll calls s).map (fun s' => (d, s')) ∧
            ∀ log, resolve options set (Traced.mk s log) =
              (performAll calls s).map fun s' => (d, ⟨s', log ++ calls⟩)) ∧
    ∀ (options : Options) (text : String) (sets : List Candidates), Fits text.toList → ∃ ds t r,
      requests options sets (Traced.mk (TextCursor.ofString text) []) = .ok (ds, t) ∧
      requests options sets (Recorder.ofString text) = .ok (ds, r) ∧
      r.calls = ds.flatMap Decision.calls ∧ r.calls = t.calls ∧ r.offset = t.state.offset ∧
      r.offset ≤ text.toList.length := by
  constructor
  · intro σ _ options set s clear
    obtain ⟨cs, h⟩ := clear.exists_shows
    refine ⟨Decision.reading options set cs, ?_, ?_, ?_⟩
    · intro τ _ t ht
      exact Decision.of_eq_reading (fun i hi => (ht i).trans (h i hi)) options set
    · intro he
      refine ⟨resolve_of_shows_none h he, ?_⟩
      intro log
      rw [resolve_traced h, Decision.calls_of_none he, List.append_nil]
      rfl
    · intro e he
      have hcalls := Decision.calls_of_some he
      refine ⟨h.emission he, e.calls, rfl, ?_, ?_⟩
      · rw [resolve_of_shows h, hcalls]
      · intro log
        rw [resolve_traced h, hcalls]
  · intro options text sets fits
    obtain ⟨ds, t, r, done, left, ht, hr, h, hall, hcalls⟩ := (inStep_ofString text).requests_run options sets fits
    have hoffset := h.between.offset_eq (hall ▸ fits)
    refine ⟨ds, t, r, ht, hr, hcalls, h.calls_eq, h.offset_eq.trans hoffset.symm, ?_⟩
    rw [h.offset_eq]
    have hlen := congrArg List.length hall
    simp only [List.length_append, List.length_nil] at hlen
    omega

/-- A request in error recovery, and three requests on one text, the last of them at its end. -/
theorem requests_never_pass_the_end :
    (∃ d, resolve {} .all (Recorder.ofString " ,") = .ok (d, Recorder.ofString " ,")) ∧ ∃ ds t r,
      requests {} [.singleton .comma, .all, .singleton .comma] (Traced.mk (TextCursor.ofString " ,") []) = .ok (ds, t) ∧
      requests {} [.singleton .comma, .all, .singleton .comma] (Recorder.ofString " ,") = .ok (ds, r) ∧
      r.calls = t.calls ∧ r.offset ≤ 2 := by
  constructor
  · obtain ⟨d, hd, hnone, -⟩ :=
      resolve_decides_then_commits.1 Recorder {} .all (Recorder.ofString " ,") fun i _ => ⟨_, rfl⟩
    have h := hd Recorder (Recorder.ofString " ,") fun _ => rfl
    rw [Decision.of, if_pos (by decide), Except.ok.injEq] at h
    subst h
    exact ⟨_, (hnone rfl).1⟩
  · obtain ⟨ds, t, r, ht, hr, -, hcalls, -, hoffset⟩ :=
      resolve_decides_then_commits.2 {} " ," [.singleton .comma, .all, .singleton .comma] (by decide)
    exact ⟨ds, t, r, ht, hr, hcalls, hoffset⟩

end ContextScan
