import ContextScan.Text.Coded
/-!
# Text.Quoted — characters and texts between quotes, for a log

Line feed, carriage return, tab, null and backslash have escapes of two characters, and so has the quote that encloses
them, but not the other one.  Coded characters are written as their code point in hexadecimal; all else stands for
itself.
-/
namespace ContextScan

/-- One character as it is written between two of the given quotes. -/
def escaped (quote c : Char) : String :=
  if c = '\n' then "\\n"
  else if c = '\r' then "\\r"
  else if c = '\t' then "\\t"
  else if c = '\x00' then "\\0"
  else if c = '\\' || c = quote then "\\" ++ c.toString
  else if isCoded c then "\\u\x7b" ++ String.ofList (Nat.toDigits 16 c.toNat) ++ "\x7d"
  else c.toString

def quotedChar (c : Char) : String := "'" ++ escaped '\'' c ++ "'"

def quotedText (s : String) : String := "\"" ++ String.join (s.toList.map (escaped '"')) ++ "\""

def debugOptionalChar : Option Char → String
  | some c => "Some(" ++ quotedChar c ++ ")"
  | none => "None"

end ContextScan
