import ContextScan.Candidates
/-!
# Sample — values drawn from bytes

A generator of test cases supplies bytes; a sample takes what it needs from their front and leaves the rest.  Both
samples take one 32-bit word, lowest byte first, and missing bytes count as zero.  A candidate set is the word itself.
A kind is where the word falls when all words are split into as many equal ranges as there are kinds.
-/
namespace ContextScan.Sample

/-- The word at the front, and the bytes after it. -/
def word (bytes : List UInt8) : UInt32 × List UInt8 :=
  (UInt32.ofNat ((bytes.take 4).foldr (fun b n => b.toNat + 256 * n) 0), bytes.drop 4)

def candidates (bytes : List UInt8) : Candidates × List UInt8 :=
  let (w, rest) := word bytes
  (⟨w⟩, rest)

theorem share_lt_length (w : UInt32) : w.toNat * Kind.count / UInt32.size < Kind.all.length := by
  rw [Kind.length_all]
  exact Nat.div_lt_of_lt_mul (Nat.mul_lt_mul_of_pos_right w.toNat_lt_size (by decide))

/-- **A kind**, and the bytes after it. -/
def kind (bytes : List UInt8) : Kind × List UInt8 :=
  let (w, rest) := word bytes
  (Kind.all.get ⟨w.toNat * Kind.count / UInt32.size, share_lt_length w⟩, rest)

end ContextScan.Sample
