import ContextScan.Kind
import ContextScan.Span
import ContextScan.Text.Quoted
/-!
# Token — a token with its text and its place
-/
namespace ContextScan

/-- **A token found in a text**: what it is, the text it covers, and where. -/
structure Token where
  kind : Kind
  text : String
  span : Span
  deriving DecidableEq

def Token.debug (t : Token) : String :=
  debugRecord "ScannedToken" [("kind", t.kind.name), ("text", quotedText t.text), ("span", t.span.debug)]

end ContextScan
