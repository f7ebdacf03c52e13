import ContextScan.Event
import ContextScan.Guard.Lemmas
/-!
# Decision — the answer to one request

A request asks for one token of the candidate kinds at the place of a lookahead.  Blanks before the token are counted,
then the guards are asked about the rest.  During error recovery every kind is a candidate, so a request with the
error sentinel is answered with no token and without looking.

The decision only looks; `Cursor` carries it out.  An emission always covers at least one character, and the first of
them is there to be read (`of_emission`).
-/
namespace ContextScan

/-- **A token found ahead**: its kind, the blanks before it, and its own characters. -/
structure Emission where
  kind : Kind
  leading : Nat
  length : Nat
  deriving DecidableEq

/-- **The outcome of looking**: a token or none, and what the log says about it. -/
structure Decision where
  emission : Option Emission
  events : List Event
  deriving DecidableEq

namespace Decision

def ofVerdict (set : Candidates) (leading : Nat) (first : Option Char) : Verdict → Decision
  | .emit kind length => ⟨some ⟨kind, leading, length⟩, [.emitted kind length leading]⟩
  | .reject .blankLine => ⟨none, [.blankLine, .rejected first set.members]⟩
  | .reject .incomplete => ⟨none, [.rejected first set.members]⟩
  | .pass => ⟨none, [.declined set.members first]⟩

/-- **The decision on a request.** -/
def of (options : Options) (set : Candidates) (look : Lookahead) : Checked Decision :=
  if set.contains .errorSentinel then .ok ⟨none, [.errorRecovery]⟩
  else do
    let leading ← look.skip isBlank 0
    let first ← look.peek leading
    return ofVerdict set leading first (← Rules.standard.recognize options set first (look.drop leading))

theorem ofVerdict_emission {set : Candidates} {leading : Nat} {first : Option Char} {v : Verdict} {e : Emission}
    (h : (ofVerdict set leading first v).emission = some e) : e.leading = leading ∧ v = .emit e.kind e.length := by
  cases v with
  | emit k n => cases h; exact ⟨rfl, rfl⟩
  | reject why => cases why <;> cases h
  | pass => cases h

/-- **The first character of an emitted token is there.** -/
theorem of_emission {options : Options} {set : Candidates} {look : Lookahead} {d : Decision} {e : Emission}
    (h : of options set look = .ok d) (he : d.emission = some e) :
    0 < e.length ∧ ∃ c, look.peek e.leading = .ok (some c) := by
  unfold of at h
  split at h
  · cases h; cases he
  · obtain ⟨leading, -, h⟩ := Checked.bind_eq_ok_iff.1 h
    obtain ⟨first, hfirst, h⟩ := Checked.bind_eq_ok_iff.1 h
    obtain ⟨v, hv, h⟩ := Checked.bind_eq_ok_iff.1 h
    cases Checked.pure_eq_ok_iff.1 h
    obtain ⟨rfl, rfl⟩ := ofVerdict_emission he
    obtain ⟨hsome, hpos⟩ := Rules.recognize_eq_emit hv
    obtain ⟨c, rfl⟩ := Option.isSome_iff_exists.1 hsome
    exact ⟨hpos, c, hfirst⟩

end Decision
end ContextScan
