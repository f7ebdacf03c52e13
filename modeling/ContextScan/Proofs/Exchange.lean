import ContextScan.Proofs.Course
/-!
# Proofs.Exchange — requests put to a session

A parser puts one request after another to a session, and every request brings a token or none (`Session.replies`).  On
a text that fits, what a list of requests brings follows from the text that is left: `Exchange` says so as a relation
between the place before, the requests, their replies and the place after.  There is an exchange for every list of
requests (`exists_exchange`), and a session takes part in it (`Exchange.replies_eq`), so what holds of sessions
is shown by induction on exchanges.
-/
namespace ContextScan

/-- **One request for each set**: what each brings, and the session afterwards. -/
def Session.replies : List Candidates → Session → Checked (List (Option Token) × Session)
  | [], s => .ok ([], s)
  | set :: sets, s => do
    let answer ← s.next set
    let (ts, s) ← replies sets answer.session
    return (answer.token :: ts, s)

/-! ## Cutting a token out of a text -/

/-- **An emission cuts a text** into the blanks it skips, the word it covers and the rest. -/
structure Emission.Cuts (e : Emission) (left gap word rest : List Char) : Prop where
  eq : left = gap ++ word ++ rest
  leading : gap.length = e.leading
  length : word.length = e.length
  blank : ∀ c ∈ gap, isBlank c = true
  ne_nil : word ≠ []
  plain : ∀ c ∈ word, isBlank c = false ∧ c.toNat < 128

theorem Decision.exists_cut {options : Options} {set : Candidates} {left : List Char} {e : Emission}
    (h : (reading options set left).emission = some e) : ∃ gap word rest, e.Cuts left gap word rest := by
  obtain ⟨gap, word, rest, heq, hgap, hword, hblank, hne, hplain⟩ := exists_split h
  exact ⟨gap, word, rest, heq, hgap, hword, hblank, hne, hplain⟩

/-- There is one way to cut a text into parts of the lengths that an emission gives. -/
theorem Emission.Cuts.unique {e : Emission} {left gap word rest gap' word' rest' : List Char}
    (h : e.Cuts left gap word rest) (heq : left = gap' ++ word' ++ rest') (hgap : gap'.length = e.leading)
    (hword : word'.length = e.length) : gap = gap' ∧ word = word' ∧ rest = rest' := by
  rw [h.eq, List.append_assoc, List.append_assoc] at heq
  obtain ⟨hgaps, hwords⟩ := List.append_inj heq (h.leading.trans hgap.symm)
  exact ⟨hgaps, List.append_inj hwords (h.length.trans hword.symm)⟩

theorem Emission.Cuts.dropWhile_eq {e : Emission} {left gap word rest : List Char} (h : e.Cuts left gap word rest) :
    left.dropWhile isBlank = word ++ rest := by
  obtain ⟨c, word', rfl⟩ := List.exists_cons_of_ne_nil h.ne_nil
  rw [h.eq, List.append_assoc]
  exact dropWhile_append_cons h.blank (h.plain c List.mem_cons_self).1

/-! ## One step of a course -/

namespace Course

variable {options : Options} {host : Host} {asked : List Query} {done left gap word rest : List Char} {scan : Scan}

theorem of_blank (h : Course options host asked done left scan) (hblank : left.all isBlank = true) :
    scan.tokens = [] ∧ scan.stuck = none := by
  cases h with
  | finished => exact ⟨rfl, rfl⟩
  | stuck hblank' => rw [hblank] at hblank'; cases hblank'
  | token hblank' => rw [hblank] at hblank'; cases hblank'

theorem of_declined (h : Course options host asked done left scan) (hblank : left.all isBlank = false)
    (he : (Decision.reading options (host asked (.between done left)) left).emission = none) :
    scan.tokens = [] ∧ scan.stuck = some (.past done) := by
  cases h with
  | finished hblank' => rw [hblank] at hblank'; cases hblank'
  | stuck => exact ⟨rfl, rfl⟩
  | token _ he' => rw [he] at he'; cases he'

theorem of_emission {e : Emission} (h : Course options host asked done left scan)
    (he : (Decision.reading options (host asked (.between done left)) left).emission = some e)
    (hcut : e.Cuts left gap word rest) : ∃ asked' later, Course options host asked' (done ++ gap ++ word) rest later ∧
      scan.tokens = .spelled e.kind (done ++ gap) word :: later.tokens ∧ scan.stuck = later.stuck := by
  cases h with
  | finished hblank =>
    obtain ⟨c, word, rfl⟩ := List.exists_cons_of_ne_nil hcut.ne_nil
    have hc := List.all_eq_true.1 hblank c (by rw [hcut.eq]; simp)
    rw [(hcut.plain c List.mem_cons_self).1] at hc
    cases hc
  | stuck _ he' =>
    rw [he] at he'
    cases he'
  | @token _ _ _ gap' word' rest' e' later _ he' hleft hgap hword _ _ _ hlater =>
    rw [he, Option.some.injEq] at he'
    subst he'
    obtain ⟨rfl, rfl, rfl⟩ := hcut.unique hleft hgap hword
    exact ⟨_, later, hlater, rfl, rfl⟩

/-- **From one place, against one host, there is one course.** -/
theorem unique {scan' : Scan} (h : Course options host asked done left scan)
    (h' : Course options host asked done left scan') : scan' = scan := by
  induction h generalizing scan' with
  | finished hblank =>
    cases h' with
    | finished => rfl
    | stuck hblank' => rw [hblank] at hblank'; cases hblank'
    | token hblank' => rw [hblank] at hblank'; cases hblank'
  | stuck hblank he =>
    cases h' with
    | finished hblank' => rw [hblank] at hblank'; cases hblank'
    | stuck => rfl
    | token _ he' => rw [he] at he'; cases he'
  | @token asked done left gap word rest e later hblank he hleft hgap hword hgaps hne hplain hlater ih =>
    have hcut : e.Cuts left gap word rest := ⟨hleft, hgap, hword, hgaps, hne, hplain⟩
    cases h' with
    | finished hblank' => rw [hblank] at hblank'; cases hblank'
    | stuck _ he' => rw [he] at he'; cases he'
    | @token _ _ _ gap' word' rest' e' later' _ he' hleft' hgap' hword' _ _ _ hlater' =>
      rw [he, Option.some.injEq] at he'
      subst he'
      obtain ⟨rfl, rfl, rfl⟩ := hcut.unique hleft' hgap' hword'
      rw [ih hlater']

end Course

/-! ## What a list of requests brings -/

/-- **An exchange**: from the place between two parts of a text, through a list of requests and their replies, to the
place where it ends. -/
inductive Exchange (options : Options) : List Char → List Char → List Candidates → List (Option Token) →
    List Char → List Char → Prop where
  | nil (done left : List Char) : Exchange options done left [] [] done left
  | declined {done left done' left' : List Char} {set : Candidates} {sets : List Candidates}
      {ts : List (Option Token)} (he : (Decision.reading options set left).emission = none)
      (hlater : Exchange options done left sets ts done' left') :
      Exchange options done left (set :: sets) (none :: ts) done' left'
  | token {done left gap word rest done' left' : List Char} {set : Candidates} {sets : List Candidates}
      {ts : List (Option Token)} {e : Emission} (he : (Decision.reading options set left).emission = some e)
      (hcut : e.Cuts left gap word rest) (hlater : Exchange options (done ++ gap ++ word) rest sets ts done' left') :
      Exchange options done left (set :: sets) (some (.spelled e.kind (done ++ gap) word) :: ts) done' left'

theorem exists_exchange (options : Options) : ∀ (sets : List Candidates) (done left : List Char),
    ∃ ts done' left', Exchange options done left sets ts done' left'
  | [], done, left => ⟨[], done, left, .nil done left⟩
  | set :: sets, done, left => by
    cases he : (Decision.reading options set left).emission with
    | none =>
      obtain ⟨ts, done', left', hlater⟩ := exists_exchange options sets done left
      exact ⟨_, done', left', .declined he hlater⟩
    | some e =>
      obtain ⟨gap, word, rest, hcut⟩ := Decision.exists_cut he
      obtain ⟨ts, done', left', hlater⟩ := exists_exchange options sets (done ++ gap ++ word) rest
      exact ⟨_, done', left', .token he hcut hlater⟩

namespace Exchange

variable {options : Options} {done left done' left' : List Char} {sets : List Candidates} {ts : List (Option Token)}

theorem append_eq (h : Exchange options done left sets ts done' left') : done' ++ left' = done ++ left := by
  induction h with
  | nil => rfl
  | declined he hlater ih => exact ih
  | token he hcut hlater ih =>
    rw [ih, hcut.eq]
    simp only [List.append_assoc]

/-- **A session takes part in an exchange**: its requests bring the replies, and it ends up at the place after. -/
theorem replies_eq (h : Exchange options done left sets ts done' left') : ∀ {s : Session}, s.options = options →
    s.cursor.Between done left → Fits (done ++ left) →
      ∃ c', s.replies sets = .ok (ts, { s with cursor := c' }) ∧ c'.Between done' left' := by
  induction h with
  | nil done left => exact fun {s} _ hs _ => ⟨s.cursor, rfl, hs⟩
  | @declined done left _ _ set sets ts he hlater ih =>
    rintro s rfl hs fits
    obtain ⟨c', hrun, hc'⟩ := ih (s := { s with cursor := s.cursor.beginToken }) rfl hs.beginToken fits
    refine ⟨c', ?_, hc'⟩
    rw [Session.replies, Session.next_of_none hs fits he, Checked.ok_bind]
    dsimp only
    rw [hrun]
    rfl
  | @token done left gap word rest _ _ set sets ts e he hcut hlater ih =>
    rintro s rfl hs fits
    obtain rfl := hcut.eq
    obtain ⟨c₁, hnext, hc₁⟩ := Session.next_of_emission hs fits he hcut.leading hcut.length
    obtain ⟨c', hrun, hc'⟩ := ih (s := { s with cursor := c₁ }) rfl hc₁ fits.assoc
    refine ⟨c', ?_, hc'⟩
    rw [Session.replies, hnext, Checked.ok_bind]
    dsimp only
    rw [hrun]
    rfl

end Exchange

/-- **A scan makes the requests of a session**, one for each answer of its host. -/
theorem Course.exists_exchange {options : Options} {host : Host} {asked : List Query} {done left : List Char}
    {scan : Scan} (h : Course options host asked done left scan) : ∃ sets ts done' left',
      Exchange options done left sets ts done' left' ∧ sets.length = scan.queries.length ∧
        ts.filterMap id = scan.tokens := by
  induction h with
  | @finished asked done left hblank => exact ⟨[], [], done, left, .nil done left, rfl, rfl⟩
  | @stuck asked done left hblank he =>
    exact ⟨_, _, done, left, .declined he (.nil done left), rfl, rfl⟩
  | @token asked done left gap word rest e later hblank he hleft hgap hword hgaps hne hplain hlater ih =>
    obtain ⟨sets, ts, done', left', hexchange, hlen, htokens⟩ := ih
    refine ⟨_, _, done', left', .token he ⟨hleft, hgap, hword, hgaps, hne, hplain⟩ hexchange, ?_, ?_⟩
    · exact congrArg (· + 1) hlen
    · exact congrArg (Token.spelled e.kind (done ++ gap) word :: ·) htokens

/-- **Every list of requests on a text that fits is answered**, by an exchange from the start of the text. -/
theorem Session.exists_replies (options : Options) (text : String) (sets : List Candidates) (fits : Fits text.toList) :
    ∃ ts c done left, (Session.start text options).replies sets = .ok (ts, ⟨c, options⟩) ∧
      Exchange options [] text.toList sets ts done left ∧ c.Between done left ∧ done ++ left = text.toList := by
  obtain ⟨ts, done, left, hexchange⟩ := exists_exchange options sets [] text.toList
  obtain ⟨c, hrun, hc⟩ := hexchange.replies_eq (s := .start text options) rfl (TextCursor.between_ofString text) fits
  exact ⟨ts, c, done, left, hrun, hexchange, hc, hexchange.append_eq⟩

end ContextScan
