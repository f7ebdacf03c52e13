/-!
# Options — what a user may choose

The one choice is how much of an expansion its token covers when an operator follows the sigil.
-/
namespace ContextScan

/-- **The extent of an expansion token before an operator.** -/
inductive DollarSpan where
  /-- The sigil and its operator are one token of two characters. -/
  | withOperator
  /-- The token is the sigil; the operator stays in the text. -/
  | sigilOnly
  deriving DecidableEq

namespace DollarSpan

def all : List DollarSpan := [withOperator, sigilOnly]

def name : DollarSpan → String
  | withOperator => "WithOperator"
  | sigilOnly => "SigilOnly"

def ofName? (s : String) : Option DollarSpan := all.find? (fun d => d.name == s)

def operatorLength : DollarSpan → Nat
  | withOperator => 2
  | sigilOnly => 1

theorem ofName?_name (d : DollarSpan) : ofName? d.name = some d := by cases d <;> decide

theorem ofName?_eq_some_iff {s : String} {d : DollarSpan} : ofName? s = some d ↔ s = d.name := by
  refine ⟨fun h => ?_, fun h => h ▸ ofName?_name d⟩
  have e := List.find?_some (p := fun d : DollarSpan => d.name == s) h
  exact (beq_iff_eq.1 e).symm

end DollarSpan

/-- **The options of a scanner.** -/
structure Options where
  dollarSpan : DollarSpan := .withOperator
  deriving DecidableEq

end ContextScan
