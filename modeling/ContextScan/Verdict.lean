import ContextScan.Kind
/-!
# Verdict — what one guard says about the text ahead
-/
namespace ContextScan

/-- Why a guard refuses a text that starts the way its token does. -/
inductive Refusal where
  /-- What follows the start does not complete the token. -/
  | incomplete
  /-- The line ending would end a command whose next line is blank. -/
  | blankLine
  deriving DecidableEq

/-- **The answer of a guard.** -/
inductive Verdict where
  /-- A token of this kind and this many characters starts here. -/
  | emit (kind : Kind) (length : Nat)
  /-- The text starts like the guard's token but is none, so no token starts here. -/
  | reject (why : Refusal)
  /-- The guard has nothing to say. -/
  | pass
  deriving DecidableEq

def Verdict.emitIf (valid : Bool) (kind : Kind) (length : Nat) : Verdict :=
  if valid then .emit kind length else .reject .incomplete

theorem Verdict.emitIf_eq_emit {valid : Bool} {k k' : Kind} {n n' : Nat} (h : emitIf valid k n = .emit k' n') :
    valid = true ∧ k = k' ∧ n = n' := by
  cases valid with
  | false => cases h
  | true => cases h; exact ⟨rfl, rfl, rfl⟩

end ContextScan
