import ContextScan.Cursor.Text
/-!
# Session — a text read token by token

A session holds a cursor over a text and the options.  Each request begins a new token at the cursor's place; if it
finds none, it leaves the place as it was.
-/
namespace ContextScan

/-- **A text that is being read on request.** -/
structure Session where
  cursor : TextCursor
  options : Options := {}
  deriving DecidableEq

namespace Session

def start (text : String) (options : Options) : Session := ⟨.ofString text, options⟩

/-- **What a request brings**: a token or none, the entries of the log, and the session afterwards. -/
structure Answer where
  token : Option Token
  events : List Event
  session : Session
  deriving DecidableEq

/-- **The next token of the candidate kinds.** -/
def next (s : Session) (set : Candidates) : Checked Answer := do
  let (decision, cursor) ← resolve s.options set s.cursor.beginToken
  let token := decision.emission.map fun e => ⟨e.kind, cursor.tokenText, cursor.tokenSpan⟩
  return ⟨token, decision.events, { s with cursor }⟩

def position (s : Session) : Position := s.cursor.position

def remaining (s : Session) : String := s.cursor.remaining

/-- **A session is exhausted** when only blanks are left. -/
def isExhausted (s : Session) : Bool := s.cursor.rest.all isBlank

theorem next_unread_lt {s : Session} {set : Candidates} {a : Answer} (h : s.next set = .ok a)
    (ht : a.token.isSome = true) : a.session.cursor.unread < s.cursor.unread := by
  obtain ⟨⟨d, c⟩, hr, h⟩ := Checked.bind_eq_ok_iff.1 h
  cases Checked.pure_eq_ok_iff.1 h
  have := TextCursor.unread_lt_of_emission hr (by simpa using ht)
  exact this

end Session
end ContextScan
