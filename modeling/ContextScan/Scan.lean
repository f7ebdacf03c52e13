import ContextScan.Session
import ContextScan.ScanError
/-!
# Scan — a whole text read against a host

A host knows which kinds may come next.  A scan asks it before every token, handing over its place and the text that
is left, and stops when only blanks are left or when the candidates allow no token.  What a host answers may depend on
all that it has been asked, and on nothing else.

The scan keeps everything that can be seen of it: the tokens, the place where it got stuck, the questions put to the
host, and the log.
-/
namespace ContextScan

/-- **A question to a host**: where the scan stands, and the text that is left. -/
structure Query where
  position : Position
  remaining : String
  deriving DecidableEq

/-- **A host** answers a question, given the questions before it, first question first. -/
abbrev Host : Type := List Query → Query → Candidates

def Session.query (s : Session) : Query := ⟨s.position, s.remaining⟩

/-- **The course of a scan.** -/
structure Scan where
  tokens : List Token
  /-- Where the candidates allowed no token, if the scan did not reach the end. -/
  stuck : Option Position
  queries : List Query
  events : List Event
  deriving DecidableEq

namespace Scan

/-- The tokens of the whole text, or the error that no token could be found. -/
def result (scan : Scan) : Except ScanError (List Token) :=
  match scan.stuck with
  | none => .ok scan.tokens
  | some p => .error (.noTokenAt p)

/-- **The course of a scan from a session on**, after the questions `asked` and `found` tokens. -/
def run (host : Host) (s : Session) (asked : List Query) (found : Nat) : Checked Scan :=
  if s.isExhausted then .ok ⟨[], none, [], [.finished found]⟩
  else
    match _h : s.next (host asked s.query) with
    | .error e => .error e
    | .ok a =>
      match _ht : a.token with
      | none => .ok ⟨[], some a.session.position, [s.query], a.events⟩
      | some t => do
        let later ← run host a.session (asked ++ [s.query]) (found + 1)
        return ⟨t :: later.tokens, later.stuck, s.query :: later.queries,
          a.events ++ .token found t :: later.events⟩
termination_by s.cursor.unread
decreasing_by exact Session.next_unread_lt _h (by rw [_ht]; rfl)

/-- **The scan of a text.** -/
def of (options : Options) (text : String) (host : Host) : Checked Scan := do
  let scan ← run host (.start text options) [] 0
  return { scan with events := .scanning :: scan.events }

end Scan
end ContextScan
