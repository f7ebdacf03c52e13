import ContextScan.Kind
import ContextScan.ScanError
/-!
# Candidates — the kinds a parser could take next

A candidate set is a 32-bit word with a bit for each kind, at the kind's index.  The word comes from outside and is
kept whole: bits above the last kind are never members, but two sets are equal only as words, and two sets meet when
their words share any bit.  Membership after each operation is what it is for mathematical sets
(`contains_insert`, `contains_erase`, `contains_ofList`).
-/
namespace ContextScan

/-- **A set of kinds**, as the word that encodes it. -/
structure Candidates where
  /-- Bit `i` says whether the kind of index `i` is a candidate. -/
  word : UInt32
  deriving DecidableEq

namespace Candidates

def bit (k : Kind) : UInt32 := 1 <<< UInt32.ofNat k.index

def mask : UInt32 := 0x7ffff

/-- The set without members and without other bits. -/
def empty : Candidates := ⟨0⟩

instance : EmptyCollection Candidates := ⟨empty⟩

instance : Inhabited Candidates := ⟨empty⟩

def all : Candidates := ⟨mask⟩

def contains (s : Candidates) (k : Kind) : Bool := s.word &&& bit k != 0

instance : Membership Kind Candidates := ⟨fun s k => s.contains k = true⟩

instance (k : Kind) (s : Candidates) : Decidable (k ∈ s) := inferInstanceAs (Decidable (s.contains k = true))

def meets (s t : Candidates) : Bool := s.word &&& t.word != 0

/-- Whether no kind is a member, whatever the other bits are. -/
def isEmpty (s : Candidates) : Bool := s.word &&& mask == 0

def insert (s : Candidates) (k : Kind) : Candidates := ⟨s.word ||| bit k⟩

def erase (s : Candidates) (k : Kind) : Candidates := ⟨s.word &&& ~~~bit k⟩

def ofList (ks : List Kind) : Candidates := ks.foldl insert empty

def singleton (k : Kind) : Candidates := empty.insert k

/-- **The members in symbol order.** -/
def members (s : Candidates) : List Kind := Kind.all.filter s.contains

/-- **The set a parser hands over as flags**, one for each kind in symbol order. -/
def ofFlags (flags : List Bool) : Except ScanError Candidates :=
  if flags.length = Kind.count then
    .ok (ofList (((Kind.all.zip flags).filter Prod.snd).map Prod.fst))
  else
    .error (.symbolCountMismatch Kind.count flags.length)

def debug (s : Candidates) : String := debugSet (s.members.map Kind.name)

def debugLines (s : Candidates) : String := debugSetLines (s.members.map Kind.name)

theorem mem_iff {k : Kind} {s : Candidates} : k ∈ s ↔ s.contains k = true := Iff.rfl

theorem toBitVec_bit (k : Kind) : (bit k).toBitVec = BitVec.twoPow 32 k.index := by cases k <;> decide

theorem contains_eq_getLsbD (s : Candidates) (k : Kind) : s.contains k = s.word.toBitVec.getLsbD k.index := by
  rw [contains, Bool.eq_iff_iff, bne_iff_ne, ne_eq, ← UInt32.toBitVec_inj, UInt32.toBitVec_and, toBitVec_bit,
    BitVec.and_twoPow]
  cases h : s.word.toBitVec.getLsbD k.index with
  | false => simp
  | true => cases k <;> decide

theorem contains_empty (k : Kind) : empty.contains k = false := by cases k <;> decide

theorem contains_all (k : Kind) : all.contains k = true := by cases k <;> decide

theorem contains_insert (s : Candidates) (j k : Kind) :
    (s.insert j).contains k = (s.contains k || decide (k = j)) := by
  have hk : k.index < 32 := Nat.lt_trans k.index_lt_count (by decide)
  have hj : j.index < 32 := Nat.lt_trans j.index_lt_count (by decide)
  rw [contains_eq_getLsbD, contains_eq_getLsbD, insert, UInt32.toBitVec_or, toBitVec_bit, BitVec.getLsbD_or,
    BitVec.getLsbD_twoPow]
  have : (j.index = k.index) ↔ k = j := ⟨fun h => (Kind.index_injective h).symm, fun h => h ▸ rfl⟩
  simp [hj, this]

theorem contains_erase (s : Candidates) (j k : Kind) :
    (s.erase j).contains k = (s.contains k && decide (k ≠ j)) := by
  have hk : k.index < 32 := Nat.lt_trans k.index_lt_count (by decide)
  have hj : j.index < 32 := Nat.lt_trans j.index_lt_count (by decide)
  rw [contains_eq_getLsbD, contains_eq_getLsbD, erase, UInt32.toBitVec_and, UInt32.toBitVec_not, toBitVec_bit,
    BitVec.getLsbD_and, BitVec.getLsbD_not, BitVec.getLsbD_twoPow]
  have : (j.index = k.index) ↔ k = j := ⟨fun h => (Kind.index_injective h).symm, fun h => h ▸ rfl⟩
  simp [hj, hk, this]

theorem contains_foldl_insert (k : Kind) : ∀ (ks : List Kind) (s : Candidates),
    (ks.foldl insert s).contains k = (s.contains k || decide (k ∈ ks))
  | [], s => by simp
  | j :: ks, s => by
    rw [List.foldl_cons, contains_foldl_insert k ks, contains_insert, Bool.or_assoc]
    simp [Bool.decide_or]

theorem contains_ofList (ks : List Kind) (k : Kind) : (ofList ks).contains k = decide (k ∈ ks) := by
  rw [ofList, contains_foldl_insert, contains_empty, Bool.false_or]

theorem mem_ofList {ks : List Kind} {k : Kind} : k ∈ ofList ks ↔ k ∈ ks := by
  rw [mem_iff, contains_ofList, decide_eq_true_iff]

theorem meets_insert (s t : Candidates) (k : Kind) : s.meets (t.insert k) = (s.meets t || s.contains k) := by
  have h : s.word &&& (t.word ||| bit k) = 0 ↔ s.word &&& t.word = 0 ∧ s.word &&& bit k = 0 := by
    rw [← UInt32.toBitVec_inj, ← UInt32.toBitVec_inj, ← UInt32.toBitVec_inj]
    simp only [UInt32.toBitVec_and, UInt32.toBitVec_or]
    rw [BitVec.and_or_distrib_left]
    exact BitVec.or_eq_zero_iff
  rw [Bool.eq_iff_iff, Bool.or_eq_true, meets, meets, contains, insert, bne_iff_ne, bne_iff_ne, bne_iff_ne, ne_eq, h]
  exact Decidable.not_and_iff_not_or_not

theorem meets_foldl_insert (s : Candidates) : ∀ (ks : List Kind) (t : Candidates),
    s.meets (ks.foldl insert t) = (s.meets t || ks.any s.contains)
  | [], t => by simp
  | k :: ks, t => by
    rw [List.foldl_cons, meets_foldl_insert s ks, meets_insert, List.any_cons, Bool.or_assoc]

/-- **A set meets a set of listed kinds exactly when they share a member.** -/
theorem meets_ofList_iff {s : Candidates} {ks : List Kind} :
    s.meets (ofList ks) = true ↔ ∃ k, k ∈ ofList ks ∧ k ∈ s := by
  have h0 : s.meets empty = false := by simp [meets, empty]
  have h : s.meets (ofList ks) = true ↔ ∃ k, k ∈ ks ∧ k ∈ s := by
    rw [ofList, meets_foldl_insert, h0, Bool.false_or, List.any_eq_true]
    rfl
  rw [h]
  simp only [mem_ofList]

theorem mem_members {s : Candidates} {k : Kind} : k ∈ s.members ↔ k ∈ s := by
  simp [members, List.mem_filter, Kind.mem_all, mem_iff]

end Candidates
end ContextScan
