import ContextScan.Candidates
import ContextScan.Lookahead
import ContextScan.Options
import ContextScan.Text.Class
import ContextScan.Verdict
/-!
# Guard — the rules that recognise a token

Each guard watches for one form of token.  It passes unless the candidates and the first character call for it; then
it looks at what follows and either emits the token or rejects.  Guards are asked in turn, and the first that does not
pass decides.  `Rules` holds the order of the guards and of the table of punctuation; `Rules.standard` is the order
the grammar prescribes.

The text is seen from its first character that is no blank: `first` is that character, if there is one, and offset 0
of the lookahead.
-/
namespace ContextScan

/-- **The forms of token that are watched for.** -/
inductive Guard where
  | terminator
  | punctuation
  | namedParamEq
  | dollarExpansion
  | hatExpansion
  | byteString
  | envEqual
  | declaration
  deriving DecidableEq

/-- **The order in which a scanner asks.** -/
structure Rules where
  guards : List Guard
  punctuation : List (Char × Kind)

def Rules.standard : Rules where
  guards :=
    [.terminator, .punctuation, .namedParamEq, .dollarExpansion, .hatExpansion, .byteString, .envEqual, .declaration]
  punctuation :=
    [(',', .comma), (';', .semicolon), (')', .closeParen), ('\x7d', .closeBrace), (']', .closeBracket),
      ('|', .closingList)]

/-- **The kinds that call for a terminator**: where one of them may come next, a line ending counts. -/
def Candidates.terminatorTriggers : Candidates :=
  .ofList [.comma, .semicolon, .closeParen, .closeBrace, .closeBracket, .closingList, .namedParamEq,
    .terminatorSentinel, .statementSentinel, .multilineCmdSentinel, .commaSentinel]

namespace Guard

/-- A line ending is a token where a terminator is called for and line endings are not ordinary tokens.  Inside a
command that spans lines, it is none when the next line is blank. -/
def terminatorVerdict (set : Candidates) (first : Option Char) (ahead : Lookahead) : Checked Verdict :=
  if set.meets .terminatorTriggers && !set.contains .newline && first == some '\n' then
    if set.contains .multilineCmdSentinel then do
      let next ← ahead.skip isBlank 1
      if (← ahead.peek next) == some '\n' then return .reject .blankLine
      return .emit .newline 1
    else return .emit .newline 1
  else return .pass

def punctuationVerdict (table : List (Char × Kind)) (set : Candidates) (first : Option Char) : Verdict :=
  match table.find? (fun entry => set.contains entry.2 && first == some entry.1) with
  | some entry => .emit entry.2 1
  | none => .pass

def namedParamEqVerdict (set : Candidates) (first : Option Char) (ahead : Lookahead) : Checked Verdict :=
  if set.contains .namedParamEq && first == some '=' then do
    return .emitIf ((← ahead.peek 1) != some '=') .namedParamEq 1
  else return .pass

def isSpecialVariable (c : Char) : Bool := c == '*' || c == '?' || c == '#' || c == '@'

def isExpansionOpener (c : Char) : Bool := c == '\x7b' || c == '[' || c == '('

/-- A dollar sign expands a name, a number, a special variable that no identifier follows, or what a bracket opens. -/
def dollarExpansionVerdict (options : Options) (set : Candidates) (first : Option Char) (ahead : Lookahead) :
    Checked Verdict :=
  if set.contains .dollarExpansion && first == some '$' then do
    match ← ahead.peek 1 with
    | none => return .reject .incomplete
    | some c =>
      if isIdentChar c then return .emit .dollarExpansion 1
      else if isSpecialVariable c then do
        return .emitIf (!(← ahead.peek 2).any isIdentChar) .dollarExpansion options.dollarSpan.operatorLength
      else return .emitIf (isExpansionOpener c) .dollarExpansion options.dollarSpan.operatorLength
  else return .pass

def hatExpansionVerdict (set : Candidates) (first : Option Char) (ahead : Lookahead) : Checked Verdict :=
  if set.contains .hatExpansion && first == some '@' then do
    return .emitIf ((← ahead.peek 1).any fun c => isIdentChar c || c == '[' || c == '(') .hatExpansion 1
  else return .pass

def byteStringVerdict (set : Candidates) (first : Option Char) (ahead : Lookahead) : Checked Verdict :=
  if set.contains .byteStringMarker && first == some 'b' then do
    return .emitIf ((← ahead.peek 1) == some '\'') .byteStringMarker 1
  else return .pass

def envEqualVerdict (set : Candidates) (first : Option Char) (ahead : Lookahead) : Checked Verdict :=
  if set.contains .envEqual && first == some '=' then do
    return .emitIf (!(← ahead.peek 1).any isBlank) .envEqual 1
  else return .pass

/-- An identifier is bound by an equals sign directly after it, or by one with blanks on both sides. -/
def declarationVerdict (set : Candidates) (first : Option Char) (ahead : Lookahead) : Checked Verdict :=
  if (set.contains .envVarName || set.contains .constDeclVar) && first.any isIdentStart then do
    let length ← ahead.skip isIdentChar 1
    let next ← ahead.peek length
    if set.contains .envVarName && next == some '=' then return .emit .envVarName length
    else if set.contains .constDeclVar && next.any isBlank then do
      let equals ← ahead.skip isBlank length
      if (← ahead.peek equals) == some '=' then do
        return .emitIf ((← ahead.peek (equals + 1)).any isBlank) .constDeclVar length
      else return .reject .incomplete
    else return .reject .incomplete
  else return .pass

def verdict (rules : Rules) (options : Options) (set : Candidates) (first : Option Char) (ahead : Lookahead) :
    Guard → Checked Verdict
  | terminator => terminatorVerdict set first ahead
  | punctuation => .ok (punctuationVerdict rules.punctuation set first)
  | namedParamEq => namedParamEqVerdict set first ahead
  | dollarExpansion => dollarExpansionVerdict options set first ahead
  | hatExpansion => hatExpansionVerdict set first ahead
  | byteString => byteStringVerdict set first ahead
  | envEqual => envEqualVerdict set first ahead
  | declaration => declarationVerdict set first ahead

end Guard

/-- **The first guard that does not pass decides**; the guards after it are not asked. -/
def firstVerdict (ask : Guard → Checked Verdict) : List Guard → Checked Verdict
  | [] => .ok .pass
  | g :: gs => do
    match ← ask g with
    | .pass => firstVerdict ask gs
    | decided => return decided

def Rules.recognize (rules : Rules) (options : Options) (set : Candidates) (first : Option Char) (ahead : Lookahead) :
    Checked Verdict :=
  firstVerdict (Guard.verdict rules options set first ahead) rules.guards

end ContextScan
