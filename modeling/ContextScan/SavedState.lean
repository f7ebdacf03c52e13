import ContextScan.ScanError
/-!
# SavedState — the state a scanner keeps between requests

A host that parses incrementally saves the scanner's state with every token and hands it back later.  A request is
decided by its candidates and its text alone, so there is nothing to save: writing takes no bytes and leaves the buffer
as it was, and reading accepts the empty state only.
-/
namespace ContextScan.SavedState

/-- **Writes the state** into a buffer: the number of bytes taken, and the buffer afterwards. -/
def write (buffer : List UInt8) : Nat × List UInt8 := (0, buffer)

/-- **Reads a state** that was saved earlier. -/
def read (bytes : List UInt8) : Except ScanError Unit :=
  if bytes.isEmpty then .ok () else .error (.unexpectedState bytes.length)

/-- What was written is read back. -/
theorem read_write (buffer : List UInt8) : read ((write buffer).2.take (write buffer).1) = .ok () := rfl

end ContextScan.SavedState
