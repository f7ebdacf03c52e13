import ContextScan.Position
/-!
# Span — a stretch of a text

A span has a start and an end, each a full `Position`.  Its length is a difference of words, so a span whose end lies
before its start has none: asking for it is an overflow.
-/
namespace ContextScan

/-- **A stretch of a text between two positions.** -/
structure Span where
  start : Position := .start
  stop : Position := .start
  deriving DecidableEq

namespace Span

def length (s : Span) : Checked UInt64 := Word.sub s.stop.index s.start.index

def isEmpty (s : Span) : Checked Bool := do return (← s.length) == 0

def byteRange (s : Span) : UInt64 × UInt64 := (s.start.byteOffset, s.stop.byteOffset)

/-- **The stretch as a diagnostic marks it**: the byte offset of its start and its length in bytes. -/
def byteExtent (s : Span) : Checked (UInt64 × UInt64) := do
  return (s.start.byteOffset, ← Word.sub s.stop.byteOffset s.start.byteOffset)

def debug (s : Span) : String := debugRecord "SourceSpan" [("start", s.start.debug), ("end", s.stop.debug)]

end Span
end ContextScan
