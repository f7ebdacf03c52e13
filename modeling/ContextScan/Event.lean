import ContextScan.Token
import ContextScan.Text.Debug
/-!
# Event — what a log records of a run

Every request leaves a trace of its outcome, and a scan adds its start, its tokens and its end.  An event carries the
facts; its level and its wording follow from them.
-/
namespace ContextScan

inductive Level where
  | debug
  | trace
  deriving DecidableEq

def Level.name : Level → String
  | debug => "DEBUG"
  | trace => "TRACE"

/-- **One entry of the log.** -/
inductive Event where
  /-- The parser recovers from an error, so no token is looked for. -/
  | errorRecovery
  /-- The line after a line ending in a command is blank. -/
  | blankLine
  /-- The text starts like a token the candidates allow, but is none. -/
  | rejected (first : Option Char) (candidates : List Kind)
  | declined (candidates : List Kind) (first : Option Char)
  /-- A token was found: its characters, and the blanks before it. -/
  | emitted (kind : Kind) (length leading : Nat)
  | scanning
  | token (n : Nat) (token : Token)
  | finished (count : Nat)
  deriving DecidableEq

namespace Event

def target : String := "scan"

/-- Requests without a token are details; the rest is progress. -/
def level : Event → Level
  | errorRecovery | blankLine | rejected .. | declined .. => .trace
  | emitted .. | scanning | token .. | finished .. => .debug

def listKinds (kinds : List Kind) : String := debugSet (kinds.map Kind.name)

def message : Event → String
  | errorRecovery => "error recovery; declining"
  | blankLine => "blank line inside multiline command"
  | rejected first candidates => s!"rejected {debugOptionalChar first} for {listKinds candidates}"
  | declined candidates first => s!"declined {listKinds candidates} at {debugOptionalChar first}"
  | emitted kind length leading => s!"{kind.name} ({length} char(s), {leading} leading blank(s))"
  | scanning => "Scanning..."
  | token n t => s!"TOKEN {n}: {t.debug}"
  | finished count => s!"  => {count} token(s)"

end Event
end ContextScan
