import ContextScan.Decision
/-!
# Proofs.Reading — what the guards read off a text

A guard looks at one offset after another; on a text in view it reads a few characters and the longest runs of two
classes.  `Guard.reading` says so without offsets, and no guard ever asks beyond the first character that is missing
(`verdict_eq_reading`).  A decision on a text is then a function of the text alone (`Decision.of_eq_reading`), the same
for every lookahead that shows it.
-/
namespace ContextScan

theorem drop_length_takeWhile {α : Type} (p : α → Bool) (xs : List α) :
    xs.drop (xs.takeWhile p).length = xs.dropWhile p := by
  conv => lhs; rhs; rw [← List.takeWhile_append_dropWhile (p := p) (l := xs)]
  exact List.drop_left

namespace Lookahead.Shows

variable {look : Lookahead} {cs : List Char}

theorem tail {c : Char} (h : look.Shows (c :: cs)) : (look.drop 1).Shows cs :=
  Shows.drop (show look.Shows ([c] ++ cs) from h)

theorem peek_zero (h : look.Shows cs) : look.peek 0 = .ok cs.head? := by
  rw [h 0 (Nat.zero_le _), List.head?_eq_getElem?]

theorem peek_one {c : Char} (h : look.Shows (c :: cs)) : look.peek 1 = .ok cs.head? := h.tail.peek_zero

theorem peek_two {c d : Char} (h : look.Shows (c :: d :: cs)) : look.peek 2 = .ok cs.head? := h.tail.tail.peek_zero

theorem drop_add {m n : Nat} (h : ((look.drop m).drop n).Shows cs) : (look.drop (m + n)).Shows cs := by
  intro i hi
  rw [← h i hi]
  show look.peek (m + n + i) = look.peek (m + (n + i))
  rw [Nat.add_assoc]

/-- Where a run of a class ends, the lookahead shows the rest of the text. -/
theorem drop_run (h : look.Shows cs) (p : Char → Bool) :
    (look.drop (cs.takeWhile p).length).Shows (cs.dropWhile p) := by
  rw [← List.takeWhile_append_dropWhile (p := p) (l := cs)] at h
  exact h.drop

theorem peek_run (h : look.Shows cs) (p : Char → Bool) :
    look.peek (cs.takeWhile p).length = .ok (cs.dropWhile p).head? := (h.drop_run p).peek_zero

theorem skip_run (h : look.Shows cs) (p : Char → Bool) : look.skip p 0 = .ok (cs.takeWhile p).length := by
  rw [h.skip p 0 (Nat.zero_le _), Nat.zero_add, List.drop_zero]

end Lookahead.Shows

namespace Guard

/-- Whether a text goes on with an equals sign and a blank. -/
def bindsSpaced : List Char → Bool
  | '=' :: c :: _ => isBlank c
  | _ => false

/-- **What a guard reads off a text.** -/
def reading (rules : Rules) (options : Options) (set : Candidates) (cs : List Char) : Guard → Verdict
  | terminator =>
    if set.meets .terminatorTriggers && !set.contains .newline && cs.head? == some '\n' then
      if set.contains .multilineCmdSentinel && (cs.tail.dropWhile isBlank).head? == some '\n' then .reject .blankLine
      else .emit .newline 1
    else .pass
  | punctuation => punctuationVerdict rules.punctuation set cs.head?
  | namedParamEq =>
    if set.contains .namedParamEq && cs.head? == some '=' then
      .emitIf (cs.tail.head? != some '=') .namedParamEq 1
    else .pass
  | dollarExpansion =>
    if set.contains .dollarExpansion && cs.head? == some '$' then
      match cs.tail with
      | [] => .reject .incomplete
      | c :: r =>
        if isIdentChar c then .emit .dollarExpansion 1
        else if isSpecialVariable c then
          .emitIf (!r.head?.any isIdentChar) .dollarExpansion options.dollarSpan.operatorLength
        else .emitIf (isExpansionOpener c) .dollarExpansion options.dollarSpan.operatorLength
    else .pass
  | hatExpansion =>
    if set.contains .hatExpansion && cs.head? == some '@' then
      .emitIf (cs.tail.head?.any fun c => isIdentChar c || c == '[' || c == '(') .hatExpansion 1
    else .pass
  | byteString =>
    if set.contains .byteStringMarker && cs.head? == some 'b' then
      .emitIf (cs.tail.head? == some '\'') .byteStringMarker 1
    else .pass
  | envEqual =>
    if set.contains .envEqual && cs.head? == some '=' then
      .emitIf (!cs.tail.head?.any isBlank) .envEqual 1
    else .pass
  | declaration =>
    if (set.contains .envVarName || set.contains .constDeclVar) && cs.head?.any isIdentStart then
      if set.contains .envVarName && (cs.dropWhile isIdentChar).head? == some '=' then
        .emit .envVarName (cs.takeWhile isIdentChar).length
      else if set.contains .constDeclVar && (cs.dropWhile isIdentChar).head?.any isBlank then
        .emitIf (bindsSpaced ((cs.dropWhile isIdentChar).dropWhile isBlank)) .constDeclVar
          (cs.takeWhile isIdentChar).length
      else .reject .incomplete
    else .pass

section

variable {rules : Rules} {options : Options} {set : Candidates} {cs : List Char} {look : Lookahead}

theorem and_head?_iff {on : Bool} {x : Char} : (on && cs.head? == some x) = true ↔ on = true ∧ ∃ r, cs = x :: r := by
  rw [Bool.and_eq_true, beq_iff_eq, List.head?_eq_some_iff]

/-- A guard for one character has that character in front once it is triggered. -/
theorem triggered_eq {on : Bool} {x : Char} {body : Checked Verdict} {v : Verdict}
    (hbody : ∀ r, cs = x :: r → body = .ok v) :
    (if on && cs.head? == some x then body else return .pass) =
      .ok (if on && cs.head? == some x then v else .pass) := by
  split
  · rename_i hc
    obtain ⟨-, r, hr⟩ := and_head?_iff.1 hc
    exact hbody r hr
  · rfl

theorem terminatorVerdict_eq (h : look.Shows cs) :
    terminatorVerdict set cs.head? look = .ok (terminator.reading rules options set cs) := by
  refine triggered_eq fun r hr => ?_
  subst hr
  have hskip : look.skip isBlank 1 = .ok (1 + (r.takeWhile isBlank).length) := h.skip isBlank 1 (by simp)
  have hpeek : look.peek (1 + (r.takeWhile isBlank).length) = .ok (r.dropWhile isBlank).head? := h.tail.peek_run isBlank
  simp only [hskip, hpeek, Checked.ok_bind, List.tail_cons]
  by_cases hm : set.contains .multilineCmdSentinel = true
  · simp only [hm, if_true, Bool.true_and]
    split <;> rfl
  · simp only [hm, Bool.false_and, Bool.false_eq_true, if_false]
    rfl

theorem dollarExpansionVerdict_eq (h : look.Shows cs) :
    dollarExpansionVerdict options set cs.head? look = .ok (dollarExpansion.reading rules options set cs) := by
  refine triggered_eq fun r hr => ?_
  subst hr
  rw [h.peek_one, Checked.ok_bind]
  cases r with
  | nil => rfl
  | cons c r =>
    simp only [List.head?_cons, List.tail_cons, h.peek_two, Checked.ok_bind]
    split
    · rfl
    · split <;> rfl

/-- What follows an equals sign is asked for only where there is one. -/
theorem spaced_eq {n length : Nat} (h : (look.drop n).Shows cs) :
    (do
      if (← look.peek n) == some '=' then do
        return Verdict.emitIf ((← look.peek (n + 1)).any isBlank) .constDeclVar length
      else return .reject .incomplete) = .ok (.emitIf (bindsSpaced cs) .constDeclVar length) := by
  have hn : look.peek n = .ok cs.head? := h.peek_zero
  rw [hn, Checked.ok_bind]
  split
  · rename_i hc
    obtain ⟨r, rfl⟩ := List.head?_eq_some_iff.1 (beq_iff_eq.1 hc)
    have hnext : look.peek (n + 1) = .ok r.head? := h.peek_one
    rw [hnext]
    cases r <;> rfl
  · rename_i hc
    have hb : bindsSpaced cs = false := by
      unfold bindsSpaced
      split
      · exact absurd rfl hc
      · rfl
    rw [hb]
    rfl

theorem declarationVerdict_eq (h : look.Shows cs) :
    declarationVerdict set cs.head? look = .ok (declaration.reading rules options set cs) := by
  unfold declarationVerdict
  simp only [reading]
  split
  · rename_i hc
    obtain ⟨c, r, rfl, hstart⟩ : ∃ c r, cs = c :: r ∧ isIdentStart c = true := by
      simp only [Bool.and_eq_true] at hc
      cases cs with
      | nil => cases hc.2
      | cons c r => exact ⟨c, r, rfl, hc.2⟩
    -- The first character belongs to the name's class, so the run may as well be counted from it.
    have hskip : look.skip isIdentChar 1 = .ok ((c :: r).takeWhile isIdentChar).length := by
      rw [h.skip isIdentChar 1 (by simp), List.takeWhile_cons_of_pos (isIdentChar_of_isIdentStart hstart),
        List.length_cons, List.drop_one, List.tail_cons, Nat.add_comm]
    have hnext := h.peek_run isIdentChar
    have hgap : look.skip isBlank ((c :: r).takeWhile isIdentChar).length =
        .ok (((c :: r).takeWhile isIdentChar).length +
          (((c :: r).dropWhile isIdentChar).takeWhile isBlank).length) := by
      rw [h.skip isBlank _ (List.takeWhile_sublist _).length_le, drop_length_takeWhile]
    have hrest := ((h.drop_run isIdentChar).drop_run isBlank).drop_add
    simp only [hskip, hnext, Checked.ok_bind]
    generalize ((c :: r).takeWhile isIdentChar).length = n at *
    generalize (c :: r).dropWhile isIdentChar = after at *
    split
    · rfl
    · split
      · rw [hgap, Checked.ok_bind]
        exact spaced_eq hrest
      · rfl
  · rfl

/-- **Every guard reads the text**, and is never refused an offset. -/
theorem verdict_eq_reading (h : look.Shows cs) (g : Guard) :
    g.verdict rules options set cs.head? look = .ok (g.reading rules options set cs) := by
  cases g with
  | terminator => exact terminatorVerdict_eq h
  | punctuation => rfl
  | dollarExpansion => exact dollarExpansionVerdict_eq h
  | declaration => exact declarationVerdict_eq h
  | namedParamEq => exact triggered_eq fun r hr => by subst hr; rw [h.peek_one]; rfl
  | hatExpansion => exact triggered_eq fun r hr => by subst hr; rw [h.peek_one]; rfl
  | byteString => exact triggered_eq fun r hr => by subst hr; rw [h.peek_one]; rfl
  | envEqual => exact triggered_eq fun r hr => by subst hr; rw [h.peek_one]; rfl

end

end Guard

/-- The first verdict that is no pass. -/
def firstReading (read : Guard → Verdict) : List Guard → Verdict
  | [] => .pass
  | g :: gs =>
    match read g with
    | .pass => firstReading read gs
    | decided => decided

theorem firstVerdict_eq_firstReading {ask : Guard → Checked Verdict} {read : Guard → Verdict}
    (h : ∀ g, ask g = .ok (read g)) : ∀ gs, firstVerdict ask gs = .ok (firstReading read gs)
  | [] => rfl
  | g :: gs => by
    rw [firstVerdict, firstReading, h g, Checked.ok_bind]
    cases read g with
    | pass => exact firstVerdict_eq_firstReading h gs
    | emit k n => rfl
    | reject why => rfl

/-- **What the guards read off a text together.** -/
def Rules.reading (rules : Rules) (options : Options) (set : Candidates) (cs : List Char) : Verdict :=
  firstReading (Guard.reading rules options set cs) rules.guards

theorem Rules.recognize_eq_reading {rules : Rules} {options : Options} {set : Candidates} {cs : List Char}
    {look : Lookahead} (h : look.Shows cs) :
    rules.recognize options set cs.head? look = .ok (rules.reading options set cs) :=
  firstVerdict_eq_firstReading (Guard.verdict_eq_reading h) rules.guards

namespace Decision

/-- **The decision on a text.** -/
def reading (options : Options) (set : Candidates) (cs : List Char) : Decision :=
  if set.contains .errorSentinel then ⟨none, [.errorRecovery]⟩
  else
    ofVerdict set (cs.takeWhile isBlank).length (cs.dropWhile isBlank).head?
      (Rules.standard.reading options set (cs.dropWhile isBlank))

/-- **A request is decided by the text in view**, and never refused an offset. -/
theorem of_eq_reading {look : Lookahead} {cs : List Char} (h : look.Shows cs) (options : Options) (set : Candidates) :
    of options set look = .ok (reading options set cs) := by
  unfold of reading
  split
  · rfl
  · rw [h.skip_run isBlank, Checked.ok_bind, h.peek_run isBlank, Checked.ok_bind,
      Rules.recognize_eq_reading (h.drop_run isBlank)]
    rfl

end Decision
end ContextScan
