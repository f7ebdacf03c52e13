import ContextScan.Proofs.LineEnd
import ContextScan.Proofs.Translation
/-!
# Proofs.Lines — scanning goes line by line

Where a line ending is a token and nothing asks what the next line is like, the scan of a text is made of the scans of
its lines: their tokens in order, with a line ending between two lines, up to the first line that fails (`scan_lines`,
`joinLines`).

A line is scanned in a longer text as it is alone, since a line ending reads like the end of the text (`LineEnd`).  Only
blanks at the end of a line are treated differently: alone they end the scan, and before a line ending they are
skipped to get to it.  So the induction along the tokens of a line ends before these blanks
(`Course.exists_read_line`), and the induction along the lines takes them together with the line ending
(`Course.result_eq_joinLines`).
-/
namespace ContextScan

/-! ## Places in lines -/

/-- **A place in a text, for a place in one of its lines**: the line has a number, and stands behind `before`. -/
def Position.inLine (number : Nat) (before : List Char) (p : Position) : Position where
  index := .ofNat (before.length + p.index.toNat)
  byteOffset := .ofNat (byteLength before + p.byteOffset.toNat)
  line := .ofNat number
  column := p.column

def Token.inLine (number : Nat) (before : List Char) (t : Token) : Token :=
  { t with span := ⟨t.span.start.inLine number before, t.span.stop.inLine number before⟩ }

/-- The line ending after a line, from behind the line's last character to the front of the next line. -/
def Token.lineEnd (number : Nat) (before line : List Char) : Token where
  kind := .newline
  text := "\n"
  span.start :=
    { index := .ofNat (before.length + line.length)
      byteOffset := .ofNat (byteLength before + byteLength line)
      line := .ofNat number
      column := .ofNat (line.length + 1) }
  span.stop :=
    { index := .ofNat (before.length + line.length + 1)
      byteOffset := .ofNat (byteLength before + byteLength line + 1)
      line := .ofNat (number + 1)
      column := 1 }

def ScanError.inLine (number : Nat) (before : List Char) : ScanError → ScanError
  | noTokenAt p => noTokenAt (p.inLine number before)
  | e => e

/-- **What is found in a line**, told of a text that the line is part of. -/
def resultInLine (number : Nat) (before : List Char) : Except ScanError (List Token) → Except ScanError (List Token)
  | .ok ts => .ok (ts.map (Token.inLine number before))
  | .error e => .error (e.inLine number before)

/-- **What is found in lines in a row**, each given with what is found in it alone: the tokens of the lines, with a line
ending between two lines, or the error of the first line that has one.  The first line has a number, and stands behind
`before`. -/
def joinLines : Nat → List Char → List (List Char × Except ScanError (List Token)) → Except ScanError (List Token)
  | _, _, [] => .ok []
  | number, before, [(_, result)] => resultInLine number before result
  | number, before, (line, result) :: next :: later => do
    let ts ← resultInLine number before result
    let us ← joinLines (number + 1) (before ++ line ++ ['\n']) (next :: later)
    return ts ++ .lineEnd number before line :: us

theorem joinLines_cons_error (number : Nat) (before line : List Char) (e : ScanError)
    (later : List (List Char × Except ScanError (List Token))) :
    joinLines number before ((line, .error e) :: later) = .error (e.inLine number before) := by
  cases later <;> rfl

theorem joinLines_cons_ok (number : Nat) (before line : List Char) (ts : List Token)
    (next : List Char × Except ScanError (List Token)) (later : List (List Char × Except ScanError (List Token))) :
    joinLines number before ((line, .ok ts) :: next :: later) =
      (joinLines (number + 1) (before ++ line ++ ['\n']) (next :: later)).map
        (ts.map (Token.inLine number before) ++ .lineEnd number before line :: ·) := rfl

/-- **Lines in a row are read if each of them is.** -/
theorem joinLines_eq_ok_iff : ∀ (number : Nat) (before : List Char)
    (lines : List (List Char × Except ScanError (List Token))),
    (∃ ts, joinLines number before lines = .ok ts) ↔ ∀ r ∈ lines.map Prod.snd, ∃ ts, r = .ok ts
  | _, _, [] => ⟨fun _ => List.forall_mem_nil _, fun _ => ⟨[], rfl⟩⟩
  | number, before, (line, .error e) :: later => by
    rw [joinLines_cons_error]
    constructor
    · rintro ⟨ts, h⟩
      cases h
    · intro h
      obtain ⟨ts, h⟩ := h _ List.mem_cons_self
      cases h
  | number, before, [(line, .ok ts)] => ⟨fun _ => List.forall_mem_singleton.2 ⟨ts, rfl⟩, fun _ => ⟨_, rfl⟩⟩
  | number, before, (line, .ok ts) :: next :: later => by
    have ih := joinLines_eq_ok_iff (number + 1) (before ++ line ++ ['\n']) (next :: later)
    rw [joinLines_cons_ok, List.map_cons, List.forall_mem_cons, ← ih]
    constructor
    · intro h
      obtain ⟨us, h⟩ := h
      cases hl : joinLines (number + 1) (before ++ line ++ ['\n']) (next :: later) with
      | error e =>
        rw [hl] at h
        cases h
      | ok us => exact ⟨⟨ts, rfl⟩, us, rfl⟩
    · rintro ⟨-, us, hl⟩
      rw [hl]
      exact ⟨_, rfl⟩

/-- **A text of `n` whole lines**, each with its line ending. -/
structure WholeLines (n : Nat) (cs : List Char) : Prop where
  count : cs.count '\n' = n
  last : (cs.reverse.takeWhile (· ≠ '\n')).length = 0

theorem wholeLines_nil : WholeLines 0 [] := ⟨rfl, rfl⟩

theorem WholeLines.append {n : Nat} {before line : List Char} (h : WholeLines n before) (hline : '\n' ∉ line) :
    WholeLines (n + 1) (before ++ line ++ ['\n']) := by
  refine ⟨?_, by simp⟩
  rw [List.count_append, List.count_append, h.count, List.count_eq_zero.2 hline]
  rfl

theorem WholeLines.past_append {n : Nat} {before cs : List Char} (h : WholeLines n before) (hcs : '\n' ∉ cs)
    (fits : Fits cs) : Position.past (before ++ cs) = (Position.past cs).inLine (n + 1) before := by
  have hcount : cs.count '\n' = 0 := List.count_eq_zero.2 hcs
  have hlast := length_lastLine_append before cs
  rw [if_pos hcount, h.last, Nat.zero_add] at hlast
  rw [Position.inLine, Position.toNat_index_past fits, Position.toNat_byteOffset_past fits, Position.past,
    Position.past, hlast, length_lastLine_of_count_eq_zero hcount, List.length_append, byteLength_append,
    List.count_append, h.count, hcount, Nat.add_zero, Nat.add_comm 1 n]

theorem WholeLines.spelled_append {n : Nat} {before done word : List Char} (h : WholeLines n before)
    (hword : '\n' ∉ done ++ word) (fits : Fits (done ++ word)) (k : Kind) :
    Token.spelled k (before ++ done) word = (Token.spelled k done word).inLine (n + 1) before := by
  have hdone : '\n' ∉ done := fun hmem => hword (List.mem_append_left _ hmem)
  rw [Token.spelled, List.append_assoc, h.past_append hdone fits.left, h.past_append hword fits]
  rfl

theorem WholeLines.spelled_lineEnd {n : Nat} {before line : List Char} (h : WholeLines n before) (hline : '\n' ∉ line) :
    Token.spelled .newline (before ++ line) ['\n'] = .lineEnd (n + 1) before line := by
  have hcount : line.count '\n' = 0 := List.count_eq_zero.2 hline
  have hlast := length_lastLine_append before line
  rw [if_pos hcount, h.last, Nat.zero_add] at hlast
  have hend := h.append hline
  have hstart : Position.past (before ++ line) = (Token.lineEnd (n + 1) before line).span.start := by
    rw [Position.past, hlast, List.length_append, byteLength_append, List.count_append, h.count, hcount, Nat.add_zero,
      Nat.add_comm 1 n, Nat.add_comm 1 line.length]
    rfl
  have hstop : Position.past (before ++ line ++ ['\n']) = (Token.lineEnd (n + 1) before line).span.stop := by
    rw [Position.past, hend.last, hend.count, Nat.add_comm 1 (n + 1), byteLength_append, byteLength_append,
      List.length_append, List.length_append]
    rfl
  rw [Token.spelled, hstart, hstop]
  rfl

/-! ## Scanning a line -/

section

variable {options : Options} {set : Candidates}

/-- **A set that takes line endings as they come**: something calls for them, and nothing keeps them from it. -/
structure Candidates.TakesLineEnds (set : Candidates) : Prop where
  trigger : ∃ k, k ∈ terminatorTriggers ∧ k ∈ set
  lacks : ∀ k ∈ [.newline, .multilineCmdSentinel, .errorSentinel], k ∉ set

theorem Candidates.TakesLineEnds.emission (h : set.TakesLineEnds) {gap : List Char} (hgap : ∀ c ∈ gap, isBlank c = true)
    (r : List Char) : (Decision.reading options set (gap ++ '\n' :: r)).emission = some ⟨.newline, gap.length, 1⟩ := by
  have hnewline : Kind.newline ∉ set := h.lacks _ (by decide)
  have hcommand : Kind.multilineCmdSentinel ∉ set := h.lacks _ (by decide)
  rw [Decision.reading_emission_iff, takeWhile_append_cons hgap (by decide), dropWhile_append_cons hgap (by decide)]
  exact ⟨h.lacks _ (by decide), rfl, ⟨⟨h.trigger, hnewline, fun hm => hcommand hm.1⟩, id⟩, .newline r⟩

/-- What can come after a line. -/
def AfterLine (cs : List Char) : Prop := cs = [] ∨ ∃ r, cs = '\n' :: r

theorem Decision.reading_append_afterLine {line rest : List Char} (hrest : AfterLine rest) (hline : '\n' ∉ line)
    (hblank : line.all isBlank = false) : reading options set (line ++ rest) = reading options set line := by
  rcases hrest with rfl | ⟨r, rfl⟩
  · rw [List.append_nil]
  · exact reading_append_line hline hblank r

theorem all_isBlank_append {cs : List Char} (h : cs.all isBlank = false) (r : List Char) :
    (cs ++ r).all isBlank = false := by rw [List.all_append, h, Bool.false_and]

theorem Emission.Cuts.append_right {e : Emission} {left gap word rest : List Char} (h : e.Cuts left gap word rest)
    (r : List Char) : e.Cuts (left ++ r) gap word (rest ++ r) where
  eq := by rw [h.eq, List.append_assoc]
  leading := h.leading
  length := h.length
  blank := h.blank
  ne_nil := h.ne_nil
  plain := h.plain

/-- **A scan that comes to a line reads it as the scan of the line alone does.**  If that fails, the other fails too, at
the same place of the line; if it succeeds, the other stands before the last blanks of the line. -/
theorem Course.exists_read_line {asked : List Query} {done left : List Char} {alone : Scan}
    (h : Course options (fun _ _ => set) asked done left alone) : ∀ {n : Nat} {before rest : List Char}
      {asked' : List Query} {scan : Scan}, Course options (fun _ _ => set) asked' (before ++ done) (left ++ rest) scan →
      WholeLines n before → AfterLine rest → '\n' ∉ done ++ left → Fits (done ++ left) →
      (alone.stuck = none → ∃ asked'' read gap later, done ++ left = read ++ gap ∧ (∀ c ∈ gap, isBlank c = true) ∧
        Course options (fun _ _ => set) asked'' (before ++ read) (gap ++ rest) later ∧
        scan.tokens = alone.tokens.map (Token.inLine (n + 1) before) ++ later.tokens ∧ scan.stuck = later.stuck) ∧
      ∀ p, alone.stuck = some p → scan.tokens = alone.tokens.map (Token.inLine (n + 1) before) ∧
        scan.stuck = some (p.inLine (n + 1) before) := by
  -- On the scan of the line alone; the other scan keeps in step with it.
  induction h with
  | @finished asked done left hblank =>
    intro n before rest asked' scan hscan hbefore hrest hline fits
    refine ⟨fun _ => ?_, nofun⟩
    exact ⟨asked', done, left, scan, rfl, List.all_eq_true.1 hblank, hscan, rfl, rfl⟩
  | @stuck asked done left hblank he =>
    intro n before rest asked' scan hscan hbefore hrest hline fits
    have hleft : '\n' ∉ left := fun hmem => hline (List.mem_append_right _ hmem)
    have hdone : '\n' ∉ done := fun hmem => hline (List.mem_append_left _ hmem)
    refine ⟨nofun, fun p hp => ?_⟩
    cases hp
    rw [← Decision.reading_append_afterLine hrest hleft hblank] at he
    obtain ⟨htokens, hstuck⟩ := hscan.of_declined (all_isBlank_append hblank rest) he
    exact ⟨htokens, by rw [hstuck, hbefore.past_append hdone fits.left]⟩
  | @token asked done left gap word later' e later hblank he hleft hgap hword hgaps hne hplain hlater ih =>
    intro n before rest asked' scan hscan hbefore hrest hline fits
    have hcut : e.Cuts left gap word later' := ⟨hleft, hgap, hword, hgaps, hne, hplain⟩
    have hmem : '\n' ∉ left := fun hmem => hline (List.mem_append_right _ hmem)
    have hall : done ++ left = done ++ gap ++ word ++ later' := by
      rw [hleft]
      simp only [List.append_assoc]
    rw [hall] at hline fits ⊢
    rw [← Decision.reading_append_afterLine hrest hmem hblank] at he
    obtain ⟨asked₁, scan₁, hscan₁, htokens₁, hstuck₁⟩ := hscan.of_emission he (hcut.append_right rest)
    rw [List.append_assoc before, List.append_assoc before] at hscan₁
    rw [List.append_assoc before, hbefore.spelled_append (fun hmem => hline (List.mem_append_left _ hmem)) fits.left]
      at htokens₁
    obtain ⟨hfinished, hstuck⟩ := ih hscan₁ hbefore hrest hline fits
    refine ⟨fun hs => ?_, fun p hp => ?_⟩
    · obtain ⟨asked₂, read, blanks, scan₂, hread, hblanks, hscan₂, htokens₂, hstuck₂⟩ := hfinished hs
      refine ⟨asked₂, read, blanks, scan₂, hread, hblanks, hscan₂, ?_, hstuck₁.trans hstuck₂⟩
      rw [htokens₁, htokens₂]
      rfl
    · obtain ⟨htokens₂, hstuck₂⟩ := hstuck p hp
      refine ⟨?_, hstuck₁.trans hstuck₂⟩
      rw [htokens₁, htokens₂]
      rfl

/-- **The last line of a text** settles its scan. -/
theorem Course.result_of_last {n : Nat} {asked : List Query} {before line : List Char} {alone scan : Scan}
    (h : Course options (fun _ _ => set) [] [] line alone)
    (hscan : Course options (fun _ _ => set) asked before line scan) (hbefore : WholeLines n before)
    (hline : '\n' ∉ line) (fits : Fits line) :
    scan.result = resultInLine (n + 1) before alone.result := by
  rw [← List.append_nil before, ← List.append_nil line] at hscan
  obtain ⟨hfinished, hstuck⟩ := h.exists_read_line hscan hbefore (.inl rfl) hline fits
  cases hs : alone.stuck with
  | some p =>
    obtain ⟨-, hscan'⟩ := hstuck p hs
    simp only [Scan.result, hs, hscan', resultInLine, ScanError.inLine]
  | none =>
    obtain ⟨asked', read, gap, later, -, hgap, hlater, htokens, hscan'⟩ := hfinished hs
    obtain ⟨hnil, hnone⟩ := hlater.of_blank (by rw [List.append_nil, List.all_eq_true]; exact hgap)
    rw [hnil, List.append_nil] at htokens
    rw [hnone] at hscan'
    simp only [Scan.result, hs, hscan', htokens, resultInLine]

/-- **A line that another comes after**: if it fails, so does the text, and otherwise a line ending comes next, and the
scan of what is behind it settles the rest. -/
theorem Course.result_of_line (hset : set.TakesLineEnds) {n : Nat} {asked : List Query} {before line r : List Char}
    {alone scan : Scan} (h : Course options (fun _ _ => set) [] [] line alone)
    (hscan : Course options (fun _ _ => set) asked before (line ++ '\n' :: r) scan) (hbefore : WholeLines n before)
    (hline : '\n' ∉ line) (fits : Fits line) :
    (∃ e, alone.result = .error e ∧ scan.result = .error (e.inLine (n + 1) before)) ∨
      ∃ ts asked' later, alone.result = .ok ts ∧
        Course options (fun _ _ => set) asked' (before ++ line ++ ['\n']) r later ∧
        scan.result = later.result.map (ts.map (Token.inLine (n + 1) before) ++ .lineEnd (n + 1) before line :: ·) := by
  rw [← List.append_nil before] at hscan
  obtain ⟨hfinished, hstuck⟩ := h.exists_read_line hscan hbefore (.inr ⟨r, rfl⟩) hline fits
  cases hs : alone.stuck with
  | some p =>
    obtain ⟨-, hscan'⟩ := hstuck p hs
    left
    refine ⟨.noTokenAt p, ?_, ?_⟩
    · rw [Scan.result, hs]
    · rw [Scan.result, hscan', ScanError.inLine]
  | none =>
    obtain ⟨asked₁, read, gap, scan₁, hread, hgap, hscan₁, htokens₁, hstuck₁⟩ := hfinished hs
    rw [List.nil_append] at hread
    subst hread
    -- The line ending takes with it the blanks that the line ends in.
    have hcut : Emission.Cuts ⟨.newline, gap.length, 1⟩ (gap ++ '\n' :: r) gap ['\n'] r :=
      ⟨by rw [List.append_assoc]; rfl, rfl, rfl, hgap, List.cons_ne_nil _ _,
        List.forall_mem_singleton.2 ⟨rfl, by decide⟩⟩
    obtain ⟨asked₂, scan₂, hscan₂, htokens₂, hstuck₂⟩ := hscan₁.of_emission (hset.emission hgap r) hcut
    rw [List.append_assoc before] at hscan₂ htokens₂
    rw [hbefore.spelled_lineEnd hline] at htokens₂
    right
    refine ⟨alone.tokens, asked₂, scan₂, ?_, hscan₂, ?_⟩
    · rw [Scan.result, hs]
    · rw [Scan.result, Scan.result, hstuck₁.trans hstuck₂, htokens₁, htokens₂]
      cases scan₂.stuck with
      | none => rfl
      | some p => rfl

theorem Fits.tail {c : Char} {cs : List Char} (h : Fits (c :: cs)) : Fits cs :=
  Fits.right (show Fits ([c] ++ cs) from h)

theorem intercalate_cons_cons_newline (line next : List Char) (later : List (List Char)) :
    ['\n'].intercalate (line :: next :: later) = line ++ '\n' :: ['\n'].intercalate (next :: later) := by
  rw [List.intercalate_cons_cons, List.append_assoc]
  rfl

/-- **The scan of lines in a row is made of the scans of the lines.** -/
theorem Course.result_eq_joinLines (hset : set.TakesLineEnds) : ∀ {lines : List (List Char)} {alone : List Scan},
    List.Forall₂ (fun line a => Course options (fun _ _ => set) [] [] line a) lines alone →
      ∀ {n : Nat} {asked : List Query} {before : List Char} {scan : Scan}, WholeLines n before →
        (∀ line ∈ lines, '\n' ∉ line) → Fits (['\n'].intercalate lines) →
        Course options (fun _ _ => set) asked before (['\n'].intercalate lines) scan →
        scan.result = joinLines (n + 1) before (lines.zip (alone.map Scan.result))
  | [], _, .nil, _, _, _, _, _, _, _, hscan => by
    obtain ⟨htokens, hstuck⟩ := hscan.of_blank rfl
    rw [Scan.result, hstuck, htokens]
    rfl
  | [line], _, .cons h .nil, _, _, _, _, hbefore, hlines, fits, hscan => by
    rw [List.intercalate_singleton] at hscan fits
    exact h.result_of_last hscan hbefore (hlines line List.mem_cons_self) fits
  | line :: next :: lines, _, .cons h hs, n, _, before, _, hbefore, hlines, fits, hscan => by
    rw [intercalate_cons_cons_newline] at hscan fits
    have hline := hlines line List.mem_cons_self
    cases hs with | cons h' hs
    obtain ⟨e, halone, hresult⟩ | ⟨ts, asked', later, halone, hlater, hresult⟩ :=
      h.result_of_line hset hscan hbefore hline fits.left
    · rw [hresult, List.map_cons, List.zip_cons_cons, halone, joinLines_cons_error]
    · have hrest := Course.result_eq_joinLines hset (.cons h' hs) (hbefore.append hline)
        (fun l hl => hlines l (List.mem_cons_of_mem _ hl)) fits.right.tail hlater
      rw [List.map_cons, List.zip_cons_cons, halone, hresult, hrest]
      rfl

/-- **Lines of a text that fits can be scanned alone**, each on its course. -/
theorem Scan.exists_of_lines (options : Options) (host : Host) : ∀ (lines : List (List Char)),
    Fits (['\n'].intercalate lines) → ∃ alone courses,
      List.Forall₂ (fun line a => Scan.of options (String.ofList line) host = .ok a) lines alone ∧
        List.Forall₂ (fun line a => Course options host [] [] line a) lines courses ∧
        alone.map Scan.result = courses.map Scan.result
  | [], _ => ⟨[], [], .nil, .nil, rfl⟩
  | [line], fits => by
    rw [List.intercalate_singleton, ← String.toList_ofList (l := line)] at fits
    obtain ⟨a, hrun, hcourse⟩ := exists_course options (String.ofList line) host fits
    rw [String.toList_ofList] at hcourse
    exact ⟨[_], [a], .cons hrun .nil, .cons hcourse .nil, rfl⟩
  | line :: next :: lines, fits => by
    rw [intercalate_cons_cons_newline] at fits
    have fitsLine : Fits (String.ofList line).toList := by
      rw [String.toList_ofList]
      exact fits.left
    obtain ⟨a, hrun, hcourse⟩ := exists_course options (String.ofList line) host fitsLine
    rw [String.toList_ofList] at hcourse
    obtain ⟨alone, courses, hruns, hcourses, heq⟩ := exists_of_lines options host (next :: lines) fits.right.tail
    exact ⟨_ :: alone, a :: courses, .cons hrun hruns, .cons hcourse hcourses, by rw [List.map_cons, heq]; rfl⟩

/-- **A text of blanks is scanned at once**, and nothing is found in it. -/
theorem Scan.result_of_blank {host : Host} {text : String} {scan : Scan} (h : text.toList.all isBlank = true)
    (fits : Fits text.toList) (hrun : Scan.of options text host = .ok scan) : scan.result = .ok [] := by
  obtain ⟨a, hrun', hcourse⟩ := exists_course options text host fits
  rw [hrun, Except.ok.injEq] at hrun'
  obtain ⟨htokens, hstuck⟩ := hcourse.of_blank h
  rw [hrun', result, hstuck, htokens]

/-- **Scanning goes line by line.**

Take lines in a row, and candidates that take line endings as they come.  The scan of the text succeeds if and only if
the scan of every line alone does, with the tokens of the lines, each at its place in the text, and the line endings
between them; and it fails as the first line does that fails. -/
theorem scan_lines (options : Options) (set : Candidates) (htrigger : ∃ k, k ∈ Candidates.terminatorTriggers ∧ k ∈ set)
    (hlacks : ∀ k ∈ [Kind.newline, .multilineCmdSentinel, .errorSentinel], k ∉ set) (lines : List (List Char))
    (hlines : ∀ line ∈ lines, '\n' ∉ line) (fits : Fits (['\n'].intercalate lines)) :
    ∃ scan alone, Scan.of options (String.ofList (['\n'].intercalate lines)) (fun _ _ => set) = .ok scan ∧
      List.Forall₂ (fun line a => Scan.of options (String.ofList line) (fun _ _ => set) = .ok a) lines alone ∧
        ((∃ ts, scan.result = .ok ts) ↔ ∀ a ∈ alone, ∃ ts, a.result = .ok ts) ∧
        scan.result = joinLines 1 [] (lines.zip (alone.map Scan.result)) := by
  obtain ⟨alone, courses, hruns, hcourses, heq⟩ := Scan.exists_of_lines options (fun _ _ => set) lines fits
  have fitsText : Fits (String.ofList (['\n'].intercalate lines)).toList := by
    rw [String.toList_ofList]
    exact fits
  obtain ⟨scan, hrun, hcourse⟩ := Scan.exists_course options _ (fun _ _ => set) fitsText
  rw [String.toList_ofList] at hcourse
  have hresult : scan.result = joinLines 1 [] (lines.zip (alone.map Scan.result)) := by
    rw [heq]
    exact Course.result_eq_joinLines ⟨htrigger, hlacks⟩ hcourses wholeLines_nil hlines fits hcourse
  refine ⟨_, alone, hrun, hruns, ?_, hresult⟩
  have hsnd : (lines.zip (alone.map Scan.result)).map Prod.snd = alone.map Scan.result :=
    List.map_snd_zip (by rw [List.length_map, hruns.length_eq])
  show (∃ ts, scan.result = .ok ts) ↔ _
  rw [hresult, joinLines_eq_ok_iff, hsnd, List.forall_mem_map]

/-- A line of blanks, an empty line and a line with a token on it. -/
theorem scan_lines_with_blank_lines :
    (∃ k, k ∈ Candidates.terminatorTriggers ∧ k ∈ Candidates.ofList [.semicolon]) ∧
    (∀ k ∈ [Kind.newline, .multilineCmdSentinel, .errorSentinel], k ∉ Candidates.ofList [.semicolon]) ∧
    (∀ line ∈ [['\t'], [], [';']], '\n' ∉ line) ∧ Fits (['\n'].intercalate [['\t'], [], [';']]) ∧
    ∃ scan, Scan.of {} "\t\n\n;" (fun _ _ => .ofList [.semicolon]) = .ok scan ∧
      scan.result = .ok [⟨.newline, "\n", ⟨⟨1, 1, 1, 2⟩, ⟨2, 2, 2, 1⟩⟩⟩, ⟨.newline, "\n", ⟨⟨2, 2, 2, 1⟩, ⟨3, 3, 3, 1⟩⟩⟩,
        ⟨.semicolon, ";", ⟨⟨3, 3, 3, 1⟩, ⟨4, 4, 3, 2⟩⟩⟩] := by
  have htrigger : ∃ k, k ∈ Candidates.terminatorTriggers ∧ k ∈ Candidates.ofList [.semicolon] :=
    ⟨.semicolon, by decide, by decide⟩
  have hlacks : ∀ k ∈ [Kind.newline, .multilineCmdSentinel, .errorSentinel], k ∉ Candidates.ofList [.semicolon] := by
    decide
  have hlines : ∀ line ∈ [['\t'], [], [';']], '\n' ∉ line := by decide
  have hfits : Fits (['\n'].intercalate [['\t'], [], [';']]) := by decide
  obtain ⟨scan, alone, hrun, hruns, -, hresult⟩ := scan_lines {} _ htrigger hlacks _ hlines hfits
  refine ⟨htrigger, hlacks, hlines, hfits, scan, hrun, ?_⟩
  rw [hresult]
  cases hruns with | @cons _ first _ _ htab hruns
  cases hruns with | @cons _ second _ _ hempty hruns
  cases hruns with | @cons _ third _ _ hmark hruns
  cases hruns
  have htab : first.result = .ok [] := Scan.result_of_blank rfl (by decide) htab
  have hempty : second.result = .ok [] := Scan.result_of_blank rfl (by decide) hempty
  obtain ⟨mark, hmark', hcourse⟩ := Scan.exists_course {} (String.ofList [';']) (fun _ _ => .ofList [.semicolon])
    (by decide)
  have hcut : Emission.Cuts ⟨.semicolon, 0, 1⟩ [';'] [] [';'] [] :=
    ⟨rfl, rfl, rfl, List.forall_mem_nil _, List.cons_ne_nil _ _, List.forall_mem_singleton.2 ⟨rfl, by decide⟩⟩
  obtain ⟨asked, later, hlater, htokens, hstuck⟩ := hcourse.of_emission (by decide +kernel) hcut
  obtain ⟨hnil, hnone⟩ := hlater.of_blank rfl
  rw [hmark, Except.ok.injEq] at hmark'
  have hmark : third.result = .ok [.spelled .semicolon [] [';']] := by
    rw [hmark', Scan.result, hstuck, hnone, htokens, hnil]
    rfl
  rw [List.map_cons, List.map_cons, List.map_cons, htab, hempty, hmark]
  rfl

end

end ContextScan
