import ContextScan.Cursor
/-!
# Cursor.Recorder — a cursor that keeps a record of its calls

A host may keep its own cursor.  This one counts characters only, moves whenever it is told to, and remembers every
call in order.
-/
namespace ContextScan

/-- **A count of characters read, and the calls that led to it.** -/
structure Recorder where
  chars : Array Char
  offset : Nat := 0
  /-- The calls so far, first call first. -/
  calls : List Call := []
  deriving DecidableEq

namespace Recorder

def ofString (text : String) : Recorder := { chars := text.toList.toArray }

def peek (r : Recorder) (n : Nat) : Option Char := r.chars[r.offset + n]?

def lookahead (r : Recorder) : Lookahead where
  peek n := .ok (r.peek n)
  extent := r.chars.size - r.offset
  peek_ne_some i x h e := by
    obtain ⟨hlt, -⟩ := Array.getElem?_eq_some_iff.1 (Except.ok.inj e)
    omega

instance : Cursor Recorder where
  lookahead := lookahead
  perform
    | .advance skip, r => .ok { r with offset := r.offset + 1, calls := r.calls ++ [.advance skip] }
    | .markEnd, r => .ok { r with calls := r.calls ++ [.markEnd] }

/-- The record with nothing written in it, at the same place. -/
def clear (r : Recorder) : Recorder := { r with calls := [] }

end Recorder

instance : ToString Call where
  toString
    | .advance skip => s!"advance({skip})"
    | .markEnd => "mark_end"

end ContextScan
