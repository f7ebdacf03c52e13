import ContextScan.Candidates
import Mathlib.Data.Set.Insert
/-!
# Proofs.Encoding — a word as a set of kinds in a frame

A word has a bit for each kind, and above them bits that are no kind's.  The lower bits are a set; the rest is a frame
that is carried along with it.  A word is its set and its frame and nothing else (`Candidates.eq_iff`), and each
operation acts on the two as it does on sets (`Candidates.Implements.apply`), through a whole run of them
(`Candidates.edited_implements`).

What shows of a candidate set is then told of the set and the frame alone.  Whether it is empty, what it holds and how
it is written shows of the set only, while equality and the common bits of two words show of the frame as well
(`Candidates.edited_shows_sets`).
-/
namespace ContextScan

theorem Kind.exists_index {i : Nat} (h : i < count) : ∃ k : Kind, k.index = i := by
  have hall : all.map index = List.range count := rfl
  have hi : i ∈ all.map index := hall ▸ List.mem_range.2 h
  obtain ⟨k, -, hk⟩ := List.mem_map.1 hi
  exact ⟨k, hk⟩

namespace Candidates

/-! ## The bits of a word -/

/-- **The frame**: the bits above the last kind, as a number. -/
def frame (s : Candidates) : Nat := s.word.toNat >>> Kind.count

theorem testBit_index (s : Candidates) (k : Kind) : s.word.toNat.testBit k.index = s.contains k := by
  rw [contains_eq_getLsbD, ← BitVec.testBit_toNat, UInt32.toNat_toBitVec]

theorem testBit_frame (s : Candidates) (i : Nat) : s.frame.testBit i = s.word.toNat.testBit (Kind.count + i) :=
  Nat.testBit_shiftRight ..

/-- **Every bit is a kind's or the frame's.** -/
theorem forall_testBit_iff {p : Bool → Bool → Prop} {a b : Candidates} :
    (∀ i, p (a.word.toNat.testBit i) (b.word.toNat.testBit i)) ↔
      (∀ k, p (a.contains k) (b.contains k)) ∧ ∀ i, p (a.frame.testBit i) (b.frame.testBit i) := by
  constructor
  · intro h
    refine ⟨fun k => ?_, fun i => ?_⟩
    · rw [← testBit_index, ← testBit_index]
      exact h k.index
    · rw [testBit_frame, testBit_frame]
      exact h _
  · rintro ⟨hkinds, hframe⟩ i
    by_cases hi : i < Kind.count
    · obtain ⟨k, rfl⟩ := Kind.exists_index hi
      rw [testBit_index, testBit_index]
      exact hkinds k
    · have h := hframe (i - Kind.count)
      rwa [testBit_frame, testBit_frame, Nat.add_sub_cancel' (Nat.not_lt.1 hi)] at h

/-- **Two words are equal as sets and frames.** -/
theorem eq_iff {a b : Candidates} : a = b ↔ (∀ k, k ∈ a ↔ k ∈ b) ∧ a.frame = b.frame := by
  constructor
  · rintro rfl
    exact ⟨fun k => Iff.rfl, rfl⟩
  · rintro ⟨hkinds, hframe⟩
    have hbits := (forall_testBit_iff (p := (· = ·)) (a := a) (b := b)).2
      ⟨fun k => Bool.eq_iff_iff.2 (hkinds k), fun i => by rw [hframe]⟩
    have hword : a.word = b.word := UInt32.toNat_inj.1 (Nat.eq_of_testBit_eq hbits)
    cases a
    cases b
    exact congrArg mk hword

/-- **Two words meet in a kind or in their frames.** -/
theorem meets_iff {a b : Candidates} : a.meets b = true ↔ (∃ k, k ∈ a ∧ k ∈ b) ∨ a.frame &&& b.frame ≠ 0 := by
  have hzero : ∀ m n : Nat, m &&& n = 0 ↔ ∀ i, ¬(m.testBit i = true ∧ n.testBit i = true) := by
    intro m n
    constructor
    · intro h i hi
      have hbit := Nat.testBit_and m n i
      rw [h, hi.1, hi.2, Nat.zero_testBit] at hbit
      cases hbit
    · intro h
      refine Nat.eq_of_testBit_eq fun i => ?_
      rw [Nat.testBit_and, Nat.zero_testBit, Bool.eq_false_iff, ne_eq, Bool.and_eq_true]
      exact h i
  have hmeets : a.meets b = false ↔ a.word.toNat &&& b.word.toNat = 0 := by
    rw [meets, bne_eq_false_iff_eq, ← UInt32.toNat_inj, UInt32.toNat_and]
    rfl
  rw [← Bool.not_eq_false, hmeets, hzero, forall_testBit_iff (p := fun x y => ¬(x = true ∧ y = true)), ← hzero,
    Classical.not_and_iff_not_or_not, not_forall]
  simp only [Classical.not_not]
  rfl

theorem frame_all : all.frame = 0 := by decide

theorem isEmpty_iff {s : Candidates} : s.isEmpty = true ↔ ∀ k, k ∉ s := by
  have hmask : s.isEmpty = !s.meets all := by rw [meets, isEmpty, bne, Bool.not_not]; rfl
  rw [hmask, Bool.not_eq_true', ← Bool.not_eq_true, meets_iff, frame_all, Nat.and_zero]
  simp [mem_iff, contains_all]

/-! ## What each operation does to the frame -/

theorem getLsbD_bit_frame (k : Kind) (i : Nat) : (bit k).toBitVec.getLsbD (Kind.count + i) = false := by
  have hk : k.index ≠ Kind.count + i := by
    have := k.index_lt_count
    omega
  rw [toBitVec_bit, BitVec.getLsbD_twoPow, decide_eq_false hk, Bool.and_false]

theorem frame_insert (s : Candidates) (k : Kind) : (s.insert k).frame = s.frame := by
  refine Nat.eq_of_testBit_eq fun i => ?_
  rw [testBit_frame, testBit_frame, insert, ← UInt32.toNat_toBitVec, ← UInt32.toNat_toBitVec, BitVec.testBit_toNat,
    BitVec.testBit_toNat, UInt32.toBitVec_or, BitVec.getLsbD_or, getLsbD_bit_frame, Bool.or_false]

theorem frame_erase (s : Candidates) (k : Kind) : (s.erase k).frame = s.frame := by
  refine Nat.eq_of_testBit_eq fun i => ?_
  rw [testBit_frame, testBit_frame, erase, ← UInt32.toNat_toBitVec, ← UInt32.toNat_toBitVec, BitVec.testBit_toNat,
    BitVec.testBit_toNat, UInt32.toBitVec_and, UInt32.toBitVec_not, BitVec.getLsbD_and, BitVec.getLsbD_not,
    getLsbD_bit_frame, Bool.not_false, Bool.and_true]
  by_cases hi : Kind.count + i < 32
  · rw [decide_eq_true hi, Bool.and_true]
  · rw [BitVec.getLsbD_of_ge _ _ (Nat.not_lt.1 hi), Bool.false_and]

theorem frame_foldl_insert : ∀ (ks : List Kind) (s : Candidates), (ks.foldl insert s).frame = s.frame
  | [], _ => rfl
  | k :: ks, s => by rw [List.foldl_cons, frame_foldl_insert ks, frame_insert]

theorem frame_ofList (ks : List Kind) : (ofList ks).frame = 0 := frame_foldl_insert ks empty

/-! ## Flags and members -/

theorem mem_flagged {flags : List Bool} {k : Kind} :
    k ∈ ((Kind.all.zip flags).filter Prod.snd).map Prod.fst ↔ flags[k.index]? = some true := by
  have hindex : ∀ i : Nat, Kind.all[i]? = some k ↔ i = k.index := by
    intro i
    constructor
    · intro h
      obtain ⟨j, rfl⟩ := Kind.exists_index (List.getElem?_eq_some_iff.1 h).1
      rw [Option.some.inj ((Kind.ofIndex?_index j).symm.trans h)]
    · rintro rfl
      exact Kind.ofIndex?_index k
  constructor
  · intro h
    obtain ⟨⟨k', b⟩, hmem, rfl⟩ := List.mem_map.1 h
    obtain ⟨hzip, rfl⟩ := List.mem_filter.1 hmem
    obtain ⟨i, hi⟩ := List.mem_iff_getElem?.1 hzip
    obtain ⟨hk, hb⟩ := List.getElem?_zip_eq_some.1 hi
    rwa [(hindex i).1 hk] at hb
  · intro h
    have hzip : (Kind.all.zip flags)[k.index]? = some (k, true) :=
      List.getElem?_zip_eq_some.2 ⟨(hindex _).2 rfl, h⟩
    exact List.mem_map.2 ⟨(k, true), List.mem_filter.2 ⟨List.mem_of_getElem? hzip, rfl⟩, rfl⟩

theorem members_pairwise (s : Candidates) : s.members.Pairwise fun j k => j.index < k.index := by
  have hall : Kind.all.Pairwise fun j k => j.index < k.index := by decide
  exact hall.filter _

/-- **A set made of the members of another is that set without its frame.** -/
theorem ofList_members (s : Candidates) : ofList s.members = ⟨s.word &&& mask⟩ := by
  refine eq_iff.2 ⟨fun k => ?_, ?_⟩
  · rw [mem_ofList, mem_members, mem_iff, mem_iff, ← testBit_index, ← testBit_index, UInt32.toNat_and, Nat.testBit_and]
    have hall : mask.toNat.testBit k.index = true := (testBit_index all k).trans (contains_all k)
    rw [hall, Bool.and_true]
  · refine (frame_ofList _).trans (Nat.eq_of_testBit_eq fun i => ?_)
    have hall : mask.toNat.testBit (Kind.count + i) = false := by
      have hbit := testBit_frame all i
      rwa [frame_all, Nat.zero_testBit, eq_comm] at hbit
    rw [testBit_frame, UInt32.toNat_and, Nat.testBit_and, hall, Bool.and_false, Nat.zero_testBit]

/-! ## Runs of operations -/

/-- **What a caller can do to a set**: put another in its place, or change it by one kind. -/
inductive Edit where
  | empty
  | default
  | all
  /-- A list of kinds, spelled out or collected. -/
  | ofList (kinds : List Kind)
  | singleton (k : Kind)
  /-- Flags that are not as many as the kinds change nothing. -/
  | ofFlags (flags : List Bool)
  | assign (word : UInt32)
  | insert (k : Kind)
  | erase (k : Kind)

def Edit.apply (s : Candidates) : Edit → Candidates
  | empty => Candidates.empty
  | default => Inhabited.default
  | all => Candidates.all
  | ofList kinds => Candidates.ofList kinds
  | singleton k => Candidates.singleton k
  | ofFlags flags =>
    match Candidates.ofFlags flags with
    | .ok t => t
    | .error _ => s
  | assign word => ⟨word⟩
  | insert k => s.insert k
  | erase k => s.erase k

/-- **The set after a run of edits**, from the empty set on. -/
def edited (edits : List Edit) : Candidates := edits.foldl Edit.apply empty

end Candidates

/-- **A set of kinds in a frame.** -/
structure FramedSet where
  kinds : Set Kind
  frame : Nat

namespace FramedSet

open Candidates (Edit)

/-- **An edit of a mathematical set.**  The frame is that of the last word assigned; whatever puts a set in place clears
it. -/
def apply (v : FramedSet) : Edit → FramedSet
  | .empty | .default => ⟨∅, 0⟩
  | .all => ⟨Set.univ, 0⟩
  | .ofList kinds => ⟨{k | k ∈ kinds}, 0⟩
  | .singleton k => ⟨{k}, 0⟩
  | .ofFlags flags => if flags.length = Kind.count then ⟨{k | flags[k.index]? = some true}, 0⟩ else v
  | .assign word => ⟨{k | word.toNat.testBit k.index = true}, word.toNat >>> Kind.count⟩
  | .insert k => ⟨insert k v.kinds, v.frame⟩
  | .erase k => ⟨v.kinds \ {k}, v.frame⟩

def edited (edits : List Edit) : FramedSet := edits.foldl apply ⟨∅, 0⟩

end FramedSet

namespace Candidates

/-- **A word implements a framed set** if it has its kinds and its frame. -/
structure Implements (s : Candidates) (v : FramedSet) : Prop where
  mem_iff : ∀ k, k ∈ s ↔ k ∈ v.kinds
  frame_eq : s.frame = v.frame

namespace Implements

variable {s t : Candidates} {v w : FramedSet}

theorem insert (h : s.Implements v) (k : Kind) : (s.insert k).Implements ⟨Insert.insert k v.kinds, v.frame⟩ where
  mem_iff j := by
    rw [Candidates.mem_iff, contains_insert, Bool.or_eq_true, decide_eq_true_iff, ← Candidates.mem_iff, h.mem_iff,
      or_comm]
    rfl
  frame_eq := (frame_insert s k).trans h.frame_eq

theorem erase (h : s.Implements v) (k : Kind) : (s.erase k).Implements ⟨v.kinds \ {k}, v.frame⟩ where
  mem_iff j := by
    rw [Candidates.mem_iff, contains_erase, Bool.and_eq_true, decide_eq_true_iff, ← Candidates.mem_iff, h.mem_iff]
    rfl
  frame_eq := (frame_erase s k).trans h.frame_eq

theorem ofList (kinds : List Kind) : (Candidates.ofList kinds).Implements ⟨{k | k ∈ kinds}, 0⟩ where
  mem_iff _ := mem_ofList
  frame_eq := frame_ofList kinds

theorem empty : Candidates.empty.Implements ⟨∅, 0⟩ where
  mem_iff k := by
    rw [Candidates.mem_iff, contains_empty]
    exact iff_of_false Bool.false_ne_true (Set.notMem_empty k)
  frame_eq := rfl

/-- **An edit acts on the word as it does on the set and its frame.** -/
theorem apply (h : s.Implements v) (e : Edit) : (e.apply s).Implements (v.apply e) := by
  cases e with
  | empty => exact .empty
  | default => exact .empty
  | all => exact ⟨fun k => iff_of_true (contains_all k) (Set.mem_univ k), frame_all⟩
  | ofList kinds => exact .ofList kinds
  | singleton k =>
    have hk := Implements.empty.insert k
    rwa [insert_empty_eq] at hk
  | ofFlags flags =>
    simp only [Edit.apply, Candidates.ofFlags, FramedSet.apply]
    by_cases hlen : flags.length = Kind.count
    · rw [if_pos hlen, if_pos hlen]
      exact ⟨fun k => mem_ofList.trans mem_flagged, frame_ofList _⟩
    · rw [if_neg hlen, if_neg hlen]
      exact h
  | assign word =>
    refine ⟨fun k => ?_, rfl⟩
    rw [Candidates.mem_iff, ← testBit_index]
    rfl
  | insert k => exact h.insert k
  | erase k => exact h.erase k

theorem foldl : ∀ (edits : List Edit) {s : Candidates} {v : FramedSet}, s.Implements v →
    (edits.foldl Edit.apply s).Implements (edits.foldl FramedSet.apply v)
  | [], _, _, h => h
  | e :: edits, _, _, h => foldl edits (h.apply e)

end Implements

/-- **The word after a run of edits implements the framed set after it.** -/
theorem edited_implements (edits : List Edit) : (edited edits).Implements (.edited edits) := Implements.empty.foldl edits

/-- **What a set shows of itself**, told of a framed set. -/
structure Reflects (s : Candidates) (v : FramedSet) : Prop where
  contains_iff : ∀ k, s.contains k = true ↔ k ∈ v.kinds
  isEmpty_iff : s.isEmpty = true ↔ v.kinds = ∅
  /-- One list has the kinds, each of them once, in the order of the symbol table; it is what is read and written out. -/
  exists_listing : ∃ ks : List Kind, (∀ k, k ∈ ks ↔ k ∈ v.kinds) ∧ ks.Pairwise (fun j k => j.index < k.index) ∧
    s.members = ks ∧ s.debug = debugSet (ks.map Kind.name) ∧ s.debugLines = debugSetLines (ks.map Kind.name)

namespace Implements

variable {s t : Candidates} {v w : FramedSet}

theorem reflects (h : s.Implements v) : s.Reflects v where
  contains_iff := h.mem_iff
  isEmpty_iff := by
    rw [Candidates.isEmpty_iff, Set.eq_empty_iff_forall_notMem]
    exact forall_congr' fun k => not_congr (h.mem_iff k)
  exists_listing := ⟨s.members, fun k => mem_members.trans (h.mem_iff k), s.members_pairwise, rfl, rfl, rfl⟩

theorem eq_iff (hs : s.Implements v) (ht : t.Implements w) : s = t ↔ v.kinds = w.kinds ∧ v.frame = w.frame := by
  rw [Candidates.eq_iff, hs.frame_eq, ht.frame_eq, Set.ext_iff]
  exact and_congr_left fun _ => forall_congr' fun k => iff_congr (hs.mem_iff k) (ht.mem_iff k)

theorem meets_iff (hs : s.Implements v) (ht : t.Implements w) :
    s.meets t = true ↔ (v.kinds ∩ w.kinds).Nonempty ∨ v.frame &&& w.frame ≠ 0 := by
  rw [Candidates.meets_iff, hs.frame_eq, ht.frame_eq]
  exact or_congr_left (exists_congr fun k => and_congr (hs.mem_iff k) (ht.mem_iff k))

end Implements

/-- **Candidate sets are sets of kinds in a frame.**

After any run of edits, a candidate set shows what the same edits make of mathematical sets: what it holds, what it
lists and writes out, and whether it is empty, whatever its frame.  Two sets so made are equal as words exactly if their
kinds and their frames are, and share a bit exactly if they share a kind or a bit of their frames.  A copy with one more
kind is the set with that kind inserted.  A set made of a list depends on the listed kinds only, and made of the members
of another set it is that set without the bits above the last kind. -/
theorem edited_shows_sets :
    (∀ edits : List Edit, (edited edits).Reflects (.edited edits) ∧
      (∀ k, (edited edits).insert k = edited (edits ++ [.insert k])) ∧
      ofList (edited edits).members = ⟨(edited edits).word &&& mask⟩) ∧
    (∀ edits edits' : List Edit,
      (edited edits = edited edits' ↔ (FramedSet.edited edits).kinds = (FramedSet.edited edits').kinds ∧
        (FramedSet.edited edits).frame = (FramedSet.edited edits').frame) ∧
      ((edited edits).meets (edited edits') = true ↔
        ((FramedSet.edited edits).kinds ∩ (FramedSet.edited edits').kinds).Nonempty ∨
          (FramedSet.edited edits).frame &&& (FramedSet.edited edits').frame ≠ 0)) ∧
    ∀ ks ks' : List Kind, (∀ k, k ∈ ks ↔ k ∈ ks') → ofList ks = ofList ks' := by
  refine ⟨fun edits => ⟨(edited_implements edits).reflects, fun k => ?_, ofList_members _⟩, fun edits edits' => ?_, ?_⟩
  · rw [edited, edited, List.foldl_append]
    rfl
  · have h := edited_implements edits
    have h' := edited_implements edits'
    exact ⟨h.eq_iff h', h.meets_iff h'⟩
  · intro ks ks' h
    rw [(Implements.ofList ks).eq_iff (.ofList ks')]
    exact ⟨Set.ext h, rfl⟩

/-- A list with a repetition, and a word whose frame outlives a failed assignment of flags. -/
theorem edited_shows_sets_repeated_and_framed :
    ofList [.comma, .newline, .comma] = ofList [.newline, .comma] ∧
    edited [.assign 0xfff80020, .ofFlags [true], .erase .comma] ≠ edited [] ∧
    (edited [.assign 0xfff80020, .ofFlags [true], .erase .comma]).isEmpty = true := by
  obtain ⟨hedits, hpairs, hlists⟩ := edited_shows_sets
  refine ⟨hlists _ _ (by simp [or_comm]), ?_, ?_⟩
  · rw [ne_eq, (hpairs _ _).1]
    rintro ⟨-, hframe⟩
    exact absurd hframe (by decide)
  · rw [(hedits _).1.isEmpty_iff, Set.eq_empty_iff_forall_notMem]
    rintro k ⟨hk, hcomma⟩
    revert hk hcomma
    show Nat.testBit _ k.index = true → k ≠ .comma → False
    cases k <;> decide

end Candidates
end ContextScan
