import ContextScan.Decision
/-!
# Cursor — carrying a decision out

Any state can serve as a cursor if it can show what is ahead and perform two calls: move over one character, and mark
the end of a token.  Moving says whether the character is skipped or belongs to the token.  A request first decides on
the lookahead alone; only when there is a token does it perform the token's calls.
-/
namespace ContextScan

/-- **What a scanner asks of a cursor.** -/
inductive Call where
  /-- Move over one character, which is either skipped or part of the token. -/
  | advance (skip : Bool)
  /-- The token ends here. -/
  | markEnd
  deriving DecidableEq

/-- **A state that a scanner can read from.** -/
class Cursor (σ : Type) where
  lookahead : σ → Lookahead
  perform : Call → σ → Checked σ

/-- The calls that consume a token: over its blanks, over its characters, and the mark. -/
def Emission.calls (e : Emission) : List Call :=
  List.replicate e.leading (.advance true) ++ List.replicate e.length (.advance false) ++ [.markEnd]

variable {σ : Type} [Cursor σ]

def performAll (calls : List Call) (s : σ) : Checked σ := calls.foldlM (fun s call => Cursor.perform call s) s

theorem performAll_cons (call : Call) (calls : List Call) (s : σ) :
    performAll (call :: calls) s = Cursor.perform call s >>= performAll calls := rfl

theorem performAll_append (xs ys : List Call) (s : σ) : performAll (xs ++ ys) s = performAll xs s >>= performAll ys :=
  List.foldlM_append

/-- **One request on a cursor**: the decision, and the cursor past the token, or untouched if there is none. -/
def resolve (options : Options) (set : Candidates) (s : σ) : Checked (Decision × σ) := do
  let decision ← Decision.of options set (Cursor.lookahead s)
  match decision.emission with
  | none => return (decision, s)
  | some e => return (decision, ← performAll e.calls s)

end ContextScan
