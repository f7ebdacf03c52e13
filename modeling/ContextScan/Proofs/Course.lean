import ContextScan.Proofs.Request
import ContextScan.Scan
/-!
# Proofs.Course — the course of a scan

A scan over a text that fits runs to its end, and everything that can be seen of it follows from the text and the
host: at each place the host is asked, and either its answer admits no token, and the scan is stuck, or the token is
kept and the scan goes on behind it.  `Course` is this as a relation between the place, the questions before it, and
the rest of the scan; `Scan.exists_course` says that every scan takes such a course, so what holds of scans is shown by
induction on courses.
-/
namespace ContextScan

def Query.between (done left : List Char) : Query := ⟨.past done, String.ofList left⟩

/-- The token that a word is after what stands before it. -/
def Token.spelled (k : Kind) (before word : List Char) : Token :=
  ⟨k, String.ofList word, ⟨.past before, .past (before ++ word)⟩⟩

namespace Session

variable {s : Session} {done left : List Char} {set : Candidates}

theorem query_eq (h : s.cursor.Between done left) (fits : Fits (done ++ left)) : s.query = .between done left := by
  rw [query, position, h.position_eq, remaining, TextCursor.remaining, h.rest_eq fits]
  rfl

theorem isExhausted_eq (h : s.cursor.Between done left) (fits : Fits (done ++ left)) :
    s.isExhausted = left.all isBlank := by
  rw [isExhausted, h.rest_eq fits]

/-- **Without a token, a request leaves the session where it was.** -/
theorem next_of_none (h : s.cursor.Between done left) (fits : Fits (done ++ left))
    (he : (Decision.reading s.options set left).emission = none) : s.next set =
      .ok ⟨none, (Decision.reading s.options set left).events, { s with cursor := s.cursor.beginToken }⟩ := by
  rw [next, resolve_of_shows_none (h.beginToken.shows fits) he, Checked.ok_bind]
  dsimp only
  rw [he]
  rfl

/-- **With a token, a request goes behind it**, and the token is the text in between. -/
theorem next_of_emission {gap word rest : List Char} {e : Emission} (h : s.cursor.Between done (gap ++ word ++ rest))
    (fits : Fits (done ++ (gap ++ word ++ rest)))
    (he : (Decision.reading s.options set (gap ++ word ++ rest)).emission = some e) (hgap : gap.length = e.leading)
    (hword : word.length = e.length) : ∃ c', s.next set = .ok ⟨some (.spelled e.kind (done ++ gap) word),
      (Decision.reading s.options set (gap ++ word ++ rest)).events, { s with cursor := c' }⟩ ∧
        c'.Between (done ++ gap ++ word) rest := by
  obtain ⟨c', hrun, hc', hstop, hstart⟩ := h.beginToken.resolve_of_emission fits he hgap hword
  have hspan : c'.tokenSpan = ⟨.past (done ++ gap), .past (done ++ gap ++ word)⟩ := by
    rw [TextCursor.tokenSpan, hstop, hstart rfl rfl]
    rfl
  have hfit : Fits (done ++ gap ++ word) := fits.assoc.left
  have htext : c'.tokenText = String.ofList word := by
    rw [TextCursor.tokenText, hspan, Position.toNat_byteOffset_past hfit.left, Position.toNat_byteOffset_past hfit,
      hc'.text_eq, byteLength_append (done ++ gap), sliceBytes_append]
    rfl
  refine ⟨c', ?_, hc'⟩
  rw [next, hrun, Checked.ok_bind]
  dsimp only
  rw [he, Option.map_some, htext, hspan]
  rfl

end Session

/-- **The course of a scan from a place on**, after the questions `asked`. -/
inductive Course (options : Options) (host : Host) : List Query → List Char → List Char → Scan → Prop where
  | finished {asked : List Query} {done left : List Char} (h : left.all isBlank = true) :
      Course options host asked done left ⟨[], none, [], [.finished asked.length]⟩
  | stuck {asked : List Query} {done left : List Char} (h : left.all isBlank = false)
      (he : (Decision.reading options (host asked (.between done left)) left).emission = none) :
      Course options host asked done left ⟨[], some (.past done), [.between done left],
        (Decision.reading options (host asked (.between done left)) left).events⟩
  | token {asked : List Query} {done left gap word rest : List Char} {e : Emission} {later : Scan}
      (h : left.all isBlank = false)
      (he : (Decision.reading options (host asked (.between done left)) left).emission = some e)
      (hleft : left = gap ++ word ++ rest) (hgap : gap.length = e.leading) (hword : word.length = e.length)
      (hblank : ∀ c ∈ gap, isBlank c = true) (hne : word ≠ []) (hplain : ∀ c ∈ word, isBlank c = false ∧ c.toNat < 128)
      (hlater : Course options host (asked ++ [.between done left]) (done ++ gap ++ word) rest later) :
      Course options host asked done left ⟨.spelled e.kind (done ++ gap) word :: later.tokens, later.stuck,
        .between done left :: later.queries,
        (Decision.reading options (host asked (.between done left)) left).events ++
          .token asked.length (.spelled e.kind (done ++ gap) word) :: later.events⟩

namespace Scan

theorem stuck_of_result_ok {scan : Scan} {ts : List Token} (h : scan.result = .ok ts) :
    scan.stuck = none ∧ ts = scan.tokens := by
  unfold result at h
  split at h
  · rename_i hs
    exact ⟨hs, (Except.ok.inj h).symm⟩
  · cases h

theorem stuck_of_result_error {scan : Scan} {p : Position} (h : scan.result = .error (.noTokenAt p)) :
    scan.stuck = some p := by
  unfold result at h
  split at h
  · cases h
  · rename_i q hs
    rw [hs, ScanError.noTokenAt.inj (Except.error.inj h)]

/-! ## Every scan has a course -/

theorem run_of_exhausted {host : Host} {s : Session} {asked : List Query} {found : Nat} (h : s.isExhausted = true) :
    run host s asked found = .ok ⟨[], none, [], [.finished found]⟩ := by
  rw [run, if_pos h]

theorem run_of_declined {host : Host} {s : Session} {asked : List Query} {found : Nat} {a : Session.Answer}
    (h : s.isExhausted = false) (hn : s.next (host asked s.query) = .ok a) (ht : a.token = none) :
    run host s asked found = .ok ⟨[], some a.session.position, [s.query], a.events⟩ := by
  rw [run, if_neg (by rw [h]; exact Bool.false_ne_true)]
  split
  · rename_i e hn'
    rw [hn] at hn'
    cases hn'
  · rename_i a' hn'
    rw [hn, Except.ok.injEq] at hn'
    subst hn'
    split
    · rfl
    · rename_i t ht'
      rw [ht] at ht'
      cases ht'

theorem run_of_token {host : Host} {s : Session} {asked : List Query} {found : Nat} {a : Session.Answer} {t : Token}
    (h : s.isExhausted = false) (hn : s.next (host asked s.query) = .ok a) (ht : a.token = some t) :
    run host s asked found = (do
      let later ← run host a.session (asked ++ [s.query]) (found + 1)
      return ⟨t :: later.tokens, later.stuck, s.query :: later.queries,
        a.events ++ .token found t :: later.events⟩) := by
  conv => lhs; rw [run, if_neg (by rw [h]; exact Bool.false_ne_true)]
  split
  · rename_i e hn'
    rw [hn] at hn'
    cases hn'
  · rename_i a' hn'
    rw [hn, Except.ok.injEq] at hn'
    subst hn'
    split
    · rename_i ht'
      rw [ht] at ht'
      cases ht'
    · rename_i t' ht'
      rw [ht, Option.some.injEq] at ht'
      subst ht'
      rfl

/-- **A scan takes its course to the end.**  Every token leaves less of the text. -/
theorem exists_course_run (host : Host) : ∀ (n : Nat) {s : Session} {asked : List Query} {done left : List Char},
    left.length ≤ n → s.cursor.Between done left → Fits (done ++ left) →
      ∃ scan, run host s asked asked.length = .ok scan ∧ Course s.options host asked done left scan := by
  -- On a bound for what is left: the session, the questions and the place all change with a token.
  intro n
  induction n with
  | zero =>
    intro s asked done left hn h fits
    obtain rfl := List.length_eq_zero_iff.1 (Nat.le_zero.1 hn)
    exact ⟨_, run_of_exhausted (Session.isExhausted_eq h fits), .finished rfl⟩
  | succ n ih =>
    intro s asked done left hn h fits
    have hquery := Session.query_eq h fits
    cases hblank : left.all isBlank with
    | true => exact ⟨_, run_of_exhausted ((Session.isExhausted_eq h fits).trans hblank), .finished hblank⟩
    | false =>
      have hrun := (Session.isExhausted_eq h fits).trans hblank
      cases he : (Decision.reading s.options (host asked (.between done left)) left).emission with
      | none =>
        have hnext := Session.next_of_none h fits he
        rw [← hquery] at hnext
        refine ⟨_, run_of_declined hrun hnext rfl, ?_⟩
        rw [hquery]
        show Course _ _ _ _ _ ⟨_, some s.cursor.position, _, _⟩
        rw [h.position_eq]
        exact .stuck hblank he
      | some e =>
        obtain ⟨gap, word, rest, hleft, hgap, hword, hgaps, hne, hplain⟩ := Decision.exists_split he
        subst hleft
        obtain ⟨c', hnext, hc'⟩ := Session.next_of_emission h fits he hgap hword
        rw [← hquery] at hnext
        have hword' := List.length_pos_iff.2 hne
        have hrest : rest.length ≤ n := by
          simp only [List.length_append] at hn
          omega
        have hlater : ∃ later, run host { s with cursor := c' } (asked ++ [s.query]) (asked ++ [s.query]).length =
            .ok later ∧ Course s.options host (asked ++ [s.query]) (done ++ gap ++ word) rest later :=
          ih hrest hc' fits.assoc
        obtain ⟨later, hlater, hcourse⟩ := hlater
        rw [List.length_append, List.length_singleton] at hlater
        refine ⟨_, (run_of_token hrun hnext rfl).trans (by rw [hlater]; rfl), ?_⟩
        rw [hquery] at hcourse ⊢
        exact .token hblank he rfl hgap hword hgaps hne hplain hcourse

/-- **Every scan of a text that fits has a course**, from the start of the text. -/
theorem exists_course (options : Options) (text : String) (host : Host) (fits : Fits text.toList) :
    ∃ scan, Scan.of options text host = .ok { scan with events := .scanning :: scan.events } ∧
      Course options host [] [] text.toList scan := by
  have hstart : ∃ scan, run host (.start text options) [] 0 = .ok scan ∧ Course options host [] [] text.toList scan :=
    exists_course_run host text.toList.length (Nat.le_refl _) (TextCursor.between_ofString text) fits
  obtain ⟨scan, hrun, hcourse⟩ := hstart
  refine ⟨scan, ?_, hcourse⟩
  rw [Scan.of, hrun]
  rfl

end Scan

end ContextScan
