import ContextScan.Position
/-!
# ScanError — what can go wrong for a caller

Three things can be wrong with a request, each with the facts that explain it: a list of flags of the wrong length, a
saved state that is not empty, and a text in which no token could be found.
-/
namespace ContextScan

/-- **Why a request has no answer.** -/
inductive ScanError where
  /-- The flags of a candidate set must be as many as the kinds. -/
  | symbolCountMismatch (expected actual : Nat)
  /-- No state is ever saved, yet this many bytes of one came back. -/
  | unexpectedState (count : Nat)
  /-- The candidates allowed no token here. -/
  | noTokenAt (position : Position)
  deriving DecidableEq

namespace ScanError

def message : ScanError → String
  | symbolCountMismatch expected actual => s!"expected {expected} valid-symbol flags, found {actual}"
  | unexpectedState count => s!"scanner carries no state, but {count} byte(s) of state were provided"
  | noTokenAt position => s!"no token could be resolved at {position}"

def debug : ScanError → String
  | symbolCountMismatch expected actual =>
    debugRecord "SymbolCountMismatch" [("expected", toString expected), ("actual", toString actual)]
  | unexpectedState count => s!"UnexpectedState({count})"
  | noTokenAt position => s!"NoTokenAt({position.debug})"

end ScanError
end ContextScan
