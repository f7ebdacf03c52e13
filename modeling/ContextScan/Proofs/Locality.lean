import ContextScan.Proofs.Growth
import ContextScan.Proofs.LineEnd
/-!
# Proofs.Locality — how far a request looks

A request that a token can answer looks no further than the end of its line: neither the token nor the log depends on
what is behind it (`Decision.reading_append_line`).  Only where the line ending itself is the first character that is no
blank does a request look behind it.  There it asks one thing, whether the next line is blank, and asks it only inside
a command that spans lines (`Decision.reading_lineEnd`).
-/
namespace ContextScan

/-- **Two texts are decided alike** for a set: there is one decision that a request takes on every cursor that shows the
one or the other, and carries out by the same calls.  A cursor over either text is moved by it. -/
def DecidedAlike (options : Options) (set : Candidates) (cs cs' : List Char) : Prop :=
  ∃ d : Decision,
    (∀ (σ : Type) [Cursor σ] (s : σ), (Cursor.lookahead s).Shows cs ∨ (Cursor.lookahead s).Shows cs' →
      resolve options set s = (performAll d.calls s).map fun s' => (d, s')) ∧
    ∀ (c : TextCursor) (done left : List Char), left = cs ∨ left = cs' → c.Between done left → Fits (done ++ left) →
      ∃ c', resolve options set c = .ok (d, c') ∧
        c'.offset = c.offset + d.emission.elim 0 fun e => e.leading + e.length

section

variable {options : Options} {set : Candidates}

theorem DecidedAlike.of_reading {cs cs' : List Char}
    (h : Decision.reading options set cs = Decision.reading options set cs') : DecidedAlike options set cs cs' := by
  refine ⟨Decision.reading options set cs, ?_, ?_⟩
  · rintro σ _ s (hs | hs)
    · exact resolve_of_shows hs options set
    · rw [h]
      exact resolve_of_shows hs options set
  · rintro c done left (rfl | rfl) hc fits
    · exact hc.exists_resolve fits options set
    · rw [h]
      exact hc.exists_resolve fits options set

/-- On a cursor that only keeps a record, nothing but the decision can make a difference. -/
theorem DecidedAlike.reading_eq {cs cs' : List Char} (h : DecidedAlike options set cs cs') :
    Decision.reading options set cs = Decision.reading options set cs' := by
  obtain ⟨d, hd, -⟩ := h
  have hrecorder : ∀ left : List Char, left = cs ∨ left = cs' → Decision.reading options set left = d := by
    intro left hleft
    have hshows := (inStep_ofString (String.ofList left)).shows
    rw [String.toList_ofList] at hshows
    have hrun := hd Recorder (Recorder.ofString (String.ofList left)) (by
      rcases hleft with rfl | rfl
      · exact .inl hshows
      · exact .inr hshows)
    rw [resolve_of_shows hshows, Recorder.performAll_eq, Recorder.performAll_eq] at hrun
    exact congrArg Prod.fst (Except.ok.inj hrun)
  exact (hrecorder cs (.inl rfl)).trans (hrecorder cs' (.inr rfl)).symm

/-! ## In front of a line ending -/

/-- **Of what is behind a line ending, a guard asks whether the next line is blank**, and only for a set with the sentinel
of a command that spans lines. -/
theorem Guard.reading_lineEnd {rules : Rules} {r r' : List Char}
    (h : .multilineCmdSentinel ∈ set → (BlankLine r ↔ BlankLine r')) (g : Guard) :
    g.reading rules options set ('\n' :: r) = g.reading rules options set ('\n' :: r') := by
  cases g with
  | terminator =>
    have hnext : (set.contains .multilineCmdSentinel && (r.dropWhile isBlank).head? == some '\n') =
        (set.contains .multilineCmdSentinel && (r'.dropWhile isBlank).head? == some '\n') := by
      rw [Bool.eq_iff_iff, Bool.and_eq_true, Bool.and_eq_true, beq_iff_eq, beq_iff_eq, ← blankLine_iff, ← blankLine_iff]
      exact and_congr_right h
    simp only [reading, List.head?_cons, List.tail_cons, hnext]
    rfl
  | punctuation => rfl
  | declaration => simp [reading, show isIdentStart '\n' = false by decide]
  | _ => simp [reading]

theorem Decision.reading_lineEnd {gap r r' : List Char} (hgap : ∀ c ∈ gap, isBlank c = true)
    (h : .multilineCmdSentinel ∈ set → (BlankLine r ↔ BlankLine r')) :
    reading options set (gap ++ '\n' :: r) = reading options set (gap ++ '\n' :: r') := by
  have hblank : isBlank '\n' = false := by decide
  have hguards : Guard.reading .standard options set ('\n' :: r) = Guard.reading .standard options set ('\n' :: r') :=
    funext fun g => Guard.reading_lineEnd h g
  unfold reading
  rw [takeWhile_append_cons hgap hblank, dropWhile_append_cons hgap hblank, takeWhile_append_cons hgap hblank,
    dropWhile_append_cons hgap hblank, Rules.reading, Rules.reading, hguards]
  rfl

/-- **Inside a command that spans lines, a line ending is a token exactly when the next line is not blank.** -/
theorem Decision.reading_emission_lineEnd (options : Options) {gap : List Char} (hgap : ∀ c ∈ gap, isBlank c = true)
    (r : List Char) (hcommand : .multilineCmdSentinel ∈ set) (herr : .errorSentinel ∉ set) (hnewline : .newline ∉ set) :
    (BlankLine r → (reading options set (gap ++ '\n' :: r)).emission = none) ∧
    (¬BlankLine r → (reading options set (gap ++ '\n' :: r)).emission = some ⟨.newline, gap.length, 1⟩) := by
  have hblank : isBlank '\n' = false := by decide
  constructor
  · intro hr
    rw [Option.eq_none_iff_forall_ne_some]
    intro e he
    obtain ⟨-, -, hadmits, hform⟩ := reading_emission_iff.1 he
    rw [dropWhile_append_cons hgap hblank] at hadmits hform
    -- A line ending has no other form.
    have hline : Form options .newline 1 ('\n' :: r) := .newline r
    obtain ⟨hkind, -⟩ := hline.eq_of_ne_envEqual hform (by decide) (by decide)
    rw [hkind] at hadmits
    exact hadmits.1.2.2 ⟨hcommand, hr⟩
  · intro hr
    rw [reading_emission_iff, takeWhile_append_cons hgap hblank, dropWhile_append_cons hgap hblank]
    have htrigger : ∃ k, k ∈ Candidates.terminatorTriggers ∧ k ∈ set := ⟨.multilineCmdSentinel, by decide, hcommand⟩
    exact ⟨herr, rfl, ⟨⟨htrigger, hnewline, fun hb => hr hb.2⟩, id⟩, .newline r⟩

end

/-- **A request looks no further than its line.**

On a line that holds more than blanks, a request is decided as on the line alone, whatever is behind the line: the same
token or none, the same calls, the same entries in the log.  Before blanks and a line ending, what is behind it matters
through one fact only, that the next line is blank, and only for a set with the sentinel of a command that spans lines.
For such a set it does matter, unless the parser recovers from an error or line endings are ordinary tokens. -/
theorem resolve_within_line (options : Options) (set : Candidates) :
    (∀ line rest : List Char, '\n' ∉ line → (∃ c ∈ line, isBlank c = false) →
      DecidedAlike options set (line ++ '\n' :: rest) line) ∧
    ∀ gap rest rest' : List Char, (∀ c ∈ gap, isBlank c = true) →
      ((.multilineCmdSentinel ∈ set → (BlankLine rest ↔ BlankLine rest')) →
        DecidedAlike options set (gap ++ '\n' :: rest) (gap ++ '\n' :: rest')) ∧
      (.errorSentinel ∉ set → .newline ∉ set → DecidedAlike options set (gap ++ '\n' :: rest) (gap ++ '\n' :: rest') →
        .multilineCmdSentinel ∈ set → (BlankLine rest ↔ BlankLine rest')) := by
  constructor
  · rintro line rest hline ⟨c, hc, hb⟩
    refine .of_reading (Decision.reading_append_line hline ?_ rest)
    exact List.all_eq_false.2 ⟨c, hc, by rw [hb]; exact Bool.false_ne_true⟩
  · intro gap rest rest' hgap
    refine ⟨fun h => .of_reading (Decision.reading_lineEnd hgap h), fun herr hnewline halike hcommand => ?_⟩
    have hsame := congrArg Decision.emission halike.reading_eq
    obtain ⟨hblank, hplain⟩ := Decision.reading_emission_lineEnd options hgap rest hcommand herr hnewline
    obtain ⟨hblank', hplain'⟩ := Decision.reading_emission_lineEnd options hgap rest' hcommand herr hnewline
    by_cases hrest : BlankLine rest
    · rw [hblank hrest] at hsame
      exact iff_of_true hrest (by_contra fun h => by rw [hplain' h] at hsame; cases hsame)
    · rw [hplain hrest] at hsame
      exact iff_of_false hrest fun h => by rw [hblank' h] at hsame; cases hsame

/-- A special variable that a letter on the next line does not spoil, and a line ending inside a command before blank
lines of two kinds and before one that is not blank. -/
theorem resolve_within_line_variable_and_command :
    DecidedAlike {} (.singleton .dollarExpansion) ['\t', '$', '@', '\n', 'a'] ['\t', '$', '@'] ∧
    DecidedAlike {} (.ofList [.comma, .multilineCmdSentinel]) [' ', '\n', '\t', '\n'] [' ', '\n', '\n', ';'] ∧
    ¬DecidedAlike {} (.ofList [.comma, .multilineCmdSentinel]) [' ', '\n', '\t', '\n'] [' ', '\n', ';'] := by
  have hgap : ∀ c ∈ [' '], isBlank c = true := List.forall_mem_singleton.2 rfl
  have hblank : BlankLine ['\t', '\n'] := ⟨['\t'], [], rfl, List.forall_mem_singleton.2 rfl⟩
  refine ⟨?_, ?_, fun halike => ?_⟩
  · exact (resolve_within_line {} (.singleton .dollarExpansion)).1 ['\t', '$', '@'] ['a'] (by decide)
      ⟨'$', by decide, rfl⟩
  · refine ((resolve_within_line {} _).2 [' '] ['\t', '\n'] ['\n', ';'] hgap).1 fun _ => iff_of_true hblank ?_
    exact ⟨[], [';'], rfl, List.forall_mem_nil _⟩
  · have hplain : ¬BlankLine [';'] := by
      rw [blankLine_iff]
      decide
    have hiff := ((resolve_within_line {} _).2 [' '] ['\t', '\n'] [';'] hgap).2 (by decide) (by decide) halike (by decide)
    exact hplain (hiff.1 hblank)

end ContextScan
