import ContextScan.Position
import ContextScan.Text.Slice
import Mathlib.Data.List.Basic
import Mathlib.Data.List.TakeWhile
/-!
# Proofs.Counting — what counting over a text comes to

A position goes over a text one character at a time, and every step adds in words.  Here a whole walk is told at once,
from any position and over any text: which walks arrive (`Position.RoomFor`), where they arrive (`Position.Counts`), and
that no two places of a walk are alike, nor look alike when shown (`Position.Before`).

Index, byte offset and line only ever grow, so a walk has room for them if it has room for their last values.  A column
begins again behind every line ending: it needs room at the end of every line of the text, and the last value says
nothing about the lines before.
-/
namespace ContextScan

/-- The last line of a text in two parts reaches into the first part if the second has no line ending. -/
theorem length_lastLine_append (base cs : List Char) :
    ((base ++ cs).reverse.takeWhile (· ≠ '\n')).length =
      if cs.count '\n' = 0 then (base.reverse.takeWhile (· ≠ '\n')).length + cs.length
      else (cs.reverse.takeWhile (· ≠ '\n')).length := by
  have hall : (cs.reverse.takeWhile (· ≠ '\n')).length = cs.reverse.length ↔ cs.count '\n' = 0 := by
    rw [(List.takeWhile_sublist _).length_eq, List.takeWhile_eq_self_iff, List.count_eq_zero]
    simp only [List.mem_reverse, decide_eq_true_eq]
    exact ⟨fun h hmem => h _ hmem rfl, fun h c hc e => h (e ▸ hc)⟩
  rw [List.reverse_append, List.takeWhile_append]
  by_cases h : cs.count '\n' = 0
  · rw [if_pos (hall.2 h), if_pos h, List.length_append, List.length_reverse, Nat.add_comm]
  · rw [if_neg (mt hall.1 h), if_neg h]

theorem length_lastLine_le (cs : List Char) : (cs.reverse.takeWhile (· ≠ '\n')).length ≤ cs.length := by
  have := (List.takeWhile_sublist (l := cs.reverse) (· ≠ '\n')).length_le
  rwa [List.length_reverse] at this

namespace Position

variable {p q r : Position} {c : Char} {cs : List Char}

/-! ## A walk -/

/-- **There is room for every count on the whole way over a text.** -/
structure RoomFor (p : Position) (cs : List Char) : Prop where
  index : p.index.toNat + cs.length < UInt64.size
  byteOffset : p.byteOffset.toNat + byteLength cs < UInt64.size
  line : p.line.toNat + cs.count '\n' < UInt64.size
  /-- The line that `p` is in goes on up to the first line ending. -/
  first : p.column.toNat + (cs.takeWhile (· ≠ '\n')).length < UInt64.size
  /-- A line begins behind every line ending. -/
  later : ∀ rest, '\n' :: rest <:+ cs → 1 + (rest.takeWhile (· ≠ '\n')).length < UInt64.size

theorem RoomFor.nil (p : Position) : p.RoomFor [] where
  index := p.index.toNat_lt_size
  byteOffset := p.byteOffset.toNat_lt_size
  line := p.line.toNat_lt_size
  first := p.column.toNat_lt_size
  later _ h := nomatch List.suffix_nil.1 h

theorem RoomFor.exists_after (h : p.RoomFor (c :: cs)) : ∃ q, p.after c = .ok q := by
  have hindex := h.index
  have hbytes := h.byteOffset
  have hline := h.line
  have hcolumn := h.first
  rw [List.length_cons] at hindex
  rw [byteLength] at hbytes
  refine exists_after_iff.2 ⟨by omega, by omega, fun hc => ?_, fun hc => ?_⟩
  · rw [hc, List.count_cons_self] at hline
    omega
  · rw [List.takeWhile_cons_of_pos (by simpa using hc), List.length_cons] at hcolumn
    omega

theorem RoomFor.tail (h : p.RoomFor (c :: cs)) (hq : p.after c = .ok q) : q.RoomFor cs := by
  obtain ⟨eindex, ebytes, eline, ecolumn⟩ := after_eq_ok hq
  have hindex := h.index
  have hbytes := h.byteOffset
  have hline := h.line
  rw [List.length_cons] at hindex
  rw [byteLength] at hbytes
  simp only [List.count_cons, beq_iff_eq] at hline
  refine ⟨by omega, by omega, by omega, ?_, fun rest hrest => h.later rest (hrest.trans (List.suffix_cons c cs))⟩
  by_cases hc : c = '\n'
  · rw [ecolumn, if_pos hc]
    exact h.later cs (hc ▸ List.suffix_refl _)
  · have hcolumn := h.first
    rw [List.takeWhile_cons_of_pos (by simpa using hc), List.length_cons] at hcolumn
    rw [ecolumn, if_neg hc]
    omega

theorem RoomFor.cons (hq : p.after c = .ok q) (h : q.RoomFor cs) : p.RoomFor (c :: cs) := by
  obtain ⟨eindex, ebytes, eline, ecolumn⟩ := after_eq_ok hq
  have hindex := h.index
  have hbytes := h.byteOffset
  have hline := h.line
  have hcolumn := h.first
  refine ⟨?_, ?_, ?_, ?_, fun rest hrest => ?_⟩
  · rw [List.length_cons]
    omega
  · rw [byteLength]
    omega
  · simp only [List.count_cons, beq_iff_eq]
    omega
  · by_cases hc : c = '\n'
    · rw [List.takeWhile_cons_of_neg (by simpa using hc)]
      exact p.column.toNat_lt_size
    · rw [if_neg hc] at ecolumn
      rw [List.takeWhile_cons_of_pos (by simpa using hc), List.length_cons]
      omega
  · rcases List.suffix_cons_iff.1 hrest with hrest | hrest
    · -- The line behind `c` is the one that `q` is in.
      obtain ⟨rfl, rfl⟩ := List.cons.inj hrest
      rwa [ecolumn, if_pos rfl] at hcolumn
    · exact h.later rest hrest

/-- **A walk arrives exactly if there is room for every count on the whole way.** -/
theorem exists_through_iff : ∀ {cs : List Char} {p : Position}, (∃ q, p.through cs = .ok q) ↔ p.RoomFor cs
  | [], p => ⟨fun _ => .nil p, fun _ => ⟨p, rfl⟩⟩
  | c :: cs, p => by
    simp only [through_cons, Checked.bind_eq_ok_iff]
    constructor
    · rintro ⟨r, q, hq, hr⟩
      exact .cons hq (exists_through_iff.1 ⟨r, hr⟩)
    · intro h
      obtain ⟨q, hq⟩ := h.exists_after
      obtain ⟨r, hr⟩ := exists_through_iff.2 (h.tail hq)
      exact ⟨r, q, hq, hr⟩

theorem through_eq_error {e : Overflow} : ∀ {cs : List Char} {p : Position}, p.through cs = .error e → e = .addition
  | [], _, h => nomatch h
  | c :: cs, p, h => by
    rw [through_cons, Checked.bind_eq_error_iff] at h
    obtain h | ⟨q, -, h⟩ := h
    · exact after_eq_error h
    · exact through_eq_error h

/-! ## Where a walk arrives -/

/-- **A walk over a text, counted in natural numbers.** -/
structure Counts (p : Position) (cs : List Char) (q : Position) : Prop where
  index : q.index.toNat = p.index.toNat + cs.length
  byteOffset : q.byteOffset.toNat = p.byteOffset.toNat + byteLength cs
  line : q.line.toNat = p.line.toNat + cs.count '\n'
  column : q.column.toNat =
    if cs.count '\n' = 0 then p.column.toNat + cs.length else 1 + (cs.reverse.takeWhile (· ≠ '\n')).length

theorem Counts.nil (p : Position) : p.Counts [] p := ⟨rfl, rfl, rfl, rfl⟩

theorem Counts.cons (hq : p.after c = .ok q) (h : q.Counts cs r) : p.Counts (c :: cs) r := by
  obtain ⟨eindex, ebytes, eline, ecolumn⟩ := after_eq_ok hq
  have hlast := length_lastLine_append [c] cs
  refine ⟨?_, ?_, ?_, ?_⟩
  · rw [h.index, List.length_cons]
    omega
  · rw [h.byteOffset, byteLength]
    omega
  · rw [h.line, List.count_cons]
    simp only [beq_iff_eq]
    omega
  · rw [List.singleton_append] at hlast
    rw [h.column, ecolumn, hlast]
    by_cases hc : c = '\n'
    · subst hc
      rw [if_pos rfl, List.count_cons_self, if_neg (Nat.succ_ne_zero _)]
      split
      · exact congrArg (1 + ·) (Nat.zero_add _).symm
      · rfl
    · rw [if_neg hc, List.count_cons_of_ne hc]
      split
      · rw [List.length_cons]
        omega
      · rfl

theorem through_counts : ∀ {cs : List Char} {p q : Position}, p.through cs = .ok q → p.Counts cs q
  | [], p, _, h => by
    cases h
    exact .nil p
  | c :: cs, p, r, h => by
    rw [through_cons, Checked.bind_eq_ok_iff] at h
    obtain ⟨q, hq, hr⟩ := h
    exact .cons hq (through_counts hr)

theorem Counts.unique (hq : p.Counts cs q) (hr : p.Counts cs r) : q = r := by
  cases q
  cases r
  rw [mk.injEq, ← UInt64.toNat_inj, ← UInt64.toNat_inj, ← UInt64.toNat_inj, ← UInt64.toNat_inj]
  exact ⟨hq.index.trans hr.index.symm, hq.byteOffset.trans hr.byteOffset.symm, hq.line.trans hr.line.symm,
    hq.column.trans hr.column.symm⟩

/-! ## Places in order -/

/-- **One place stands before another**, in each of the three ways to tell. -/
structure Before (p q : Position) : Prop where
  index : p.index < q.index
  byteOffset : p.byteOffset < q.byteOffset
  place : p.line < q.line ∨ p.line = q.line ∧ p.column < q.column

/-- **A walk over some text goes forward.** -/
theorem Counts.before (h : p.Counts cs q) (hne : cs ≠ []) : p.Before q := by
  have hlen := List.length_pos_iff.2 hne
  have hbytes := length_le_byteLength cs
  have hindex := h.index
  have hbyteOffset := h.byteOffset
  have hline := h.line
  have hcolumn := h.column
  refine ⟨?_, ?_, ?_⟩
  · rw [UInt64.lt_iff_toNat_lt]
    omega
  · rw [UInt64.lt_iff_toNat_lt]
    omega
  · rw [UInt64.lt_iff_toNat_lt, UInt64.lt_iff_toNat_lt, ← UInt64.toNat_inj]
    by_cases hcount : cs.count '\n' = 0
    · rw [if_pos hcount] at hcolumn
      omega
    · omega

theorem toString_nat_inj {m n : Nat} : toString m = toString n ↔ m = n := by
  refine ⟨fun h => ?_, congrArg toString⟩
  have hdigits : Nat.toDigits 10 m = Nat.toDigits 10 n := by
    rw [← Nat.toList_repr, ← Nat.toList_repr]
    exact congrArg String.toList h
  rw [← Nat.ofDigitChars_ten_toDigits (n := m), hdigits, Nat.ofDigitChars_ten_toDigits]

/-- **What is shown of a position says its line and its column**, since no number is written with a comma. -/
theorem toString_inj : toString p = toString q ↔ p.line = q.line ∧ p.column = q.column := by
  have hcomma (n : UInt64) : ',' ∉ (toString n).toList := by
    intro h
    have : ','.isDigit = true := Nat.isDigit_of_mem_toDigits (by decide) (by decide) (Nat.toList_repr ▸ h)
    cases this
  have hshown (p : Position) : (toString p).toList = (toString p.line).toList ++ ',' :: (toString p.column).toList := by
    show (toString p.line ++ "," ++ toString p.column).toList = _
    rw [String.toList_append, String.toList_append, List.append_assoc]
    rfl
  have hnumber {m n : UInt64} : toString m = toString n ↔ m = n := toString_nat_inj.trans UInt64.toNat_inj
  rw [← String.toList_inj, hshown, hshown, List.append_cons_inj_of_notMem (hcomma _) (hcomma _), String.toList_inj,
    String.toList_inj, hnumber, hnumber]
  exact and_congr_right' (and_iff_right rfl)

theorem Before.toString_ne (h : p.Before q) : toString p ≠ toString q := by
  intro hshown
  obtain ⟨hline, hcolumn⟩ := toString_inj.1 hshown
  rcases h.place with hlt | ⟨-, hlt⟩
  · exact absurd hlt (hline ▸ UInt64.lt_irrefl _)
  · exact absurd hlt (hcolumn ▸ UInt64.lt_irrefl _)

theorem exists_through_prefix {xs : List Char} (h : p.through cs = .ok q) (hxs : xs <+: cs) :
    ∃ a, p.through xs = .ok a := by
  obtain ⟨zs, rfl⟩ := hxs
  rw [through_append, Checked.bind_eq_ok_iff] at h
  obtain ⟨a, ha, -⟩ := h
  exact ⟨a, ha⟩

/-- **A longer walk passes the place where a shorter one arrives.** -/
theorem before_of_prefix {xs ys : List Char} {a b : Position} (ha : p.through xs = .ok a) (hb : p.through ys = .ok b)
    (hpre : xs <+: ys) (hlt : xs.length < ys.length) : a.Before b := by
  obtain ⟨zs, rfl⟩ := hpre
  rw [through_append, ha, Checked.ok_bind] at hb
  apply (through_counts hb).before
  rintro rfl
  rw [List.append_nil] at hlt
  exact Nat.lt_irrefl _ hlt

/-- **A walk over a text counts exactly, or does not arrive.**

It arrives if and only if there is room for every count on the whole way, and it fails by a sum that is too large
otherwise.  Where it arrives, index, byte offset and line have grown by the characters, the bytes and the line endings of
the text, and the column counts from the last line ending, if there is one.  On the way every place stands before the
later ones, by its index, by its byte offset and by its line and column, and no two places are shown alike. -/
theorem walk_counts (p : Position) (cs : List Char) :
    ((∃ q, p.through cs = .ok q) ↔ p.RoomFor cs) ∧ (¬ p.RoomFor cs → p.through cs = .error .addition) ∧
      ∀ q, p.through cs = .ok q → p.Counts cs q ∧
        ∀ xs ys, xs <+: cs → ys <+: cs → ∃ a b, p.through xs = .ok a ∧ p.through ys = .ok b ∧
          (xs.length < ys.length → a.Before b) ∧ (xs ≠ ys → toString a ≠ toString b) := by
  refine ⟨exists_through_iff, fun hroom => ?_, fun q hq => ⟨through_counts hq, fun xs ys hxs hys => ?_⟩⟩
  · cases hwalk : p.through cs with
    | ok q => exact absurd (exists_through_iff.1 ⟨q, hwalk⟩) hroom
    | error e => rw [through_eq_error hwalk]
  · obtain ⟨a, ha⟩ := exists_through_prefix hq hxs
    obtain ⟨b, hb⟩ := exists_through_prefix hq hys
    have hforth (hlt : xs.length < ys.length) : a.Before b :=
      before_of_prefix ha hb (List.prefix_of_prefix_length_le hxs hys (Nat.le_of_lt hlt)) hlt
    refine ⟨a, b, ha, hb, hforth, fun hne => ?_⟩
    rcases Nat.lt_trichotomy xs.length ys.length with hlt | heq | hgt
    · exact (hforth hlt).toString_ne
    · exact absurd ((List.prefix_of_prefix_length_le hxs hys (Nat.le_of_eq heq)).eq_of_length heq) hne
    · have hback := before_of_prefix hb ha (List.prefix_of_prefix_length_le hys hxs (Nat.le_of_lt hgt)) hgt
      exact hback.toString_ne.symm

/-- A walk that ends with three counts at the largest word, `-1`, and the same walk from one column further on, which
fails at the end of the first line. -/
theorem walk_counts_up_to_the_largest_word :
    through ⟨-5, -8, -2, -2⟩ ['é', '\n', 'b', '€'] = .ok ⟨-1, -1, -1, 3⟩ ∧
      RoomFor ⟨-5, -8, -2, -2⟩ ['é', '\n', 'b', '€'] ∧
      Counts ⟨-5, -8, -2, -2⟩ ['é', '\n', 'b', '€'] ⟨-1, -1, -1, 3⟩ ∧
      (∃ a b, through ⟨-5, -8, -2, -2⟩ ['é'] = .ok a ∧ through ⟨-5, -8, -2, -2⟩ ['é', '\n'] = .ok b ∧
        a.Before b ∧ toString a ≠ toString b) ∧
      ¬ RoomFor ⟨-5, -8, -2, -1⟩ ['é', '\n', 'b', '€'] ∧
      through ⟨-5, -8, -2, -1⟩ ['é', '\n', 'b', '€'] = .error .addition := by
  have hwalk : through ⟨-5, -8, -2, -2⟩ ['é', '\n', 'b', '€'] = .ok ⟨-1, -1, -1, 3⟩ := rfl
  obtain ⟨hroom, -, harrives⟩ := walk_counts ⟨-5, -8, -2, -2⟩ ['é', '\n', 'b', '€']
  obtain ⟨hcounts, horder⟩ := harrives _ hwalk
  obtain ⟨a, b, ha, hb, hbefore, hshown⟩ := horder ['é'] ['é', '\n'] ⟨['\n', 'b', '€'], rfl⟩ ⟨['b', '€'], rfl⟩
  have hfull : ¬ RoomFor ⟨-5, -8, -2, -1⟩ ['é', '\n', 'b', '€'] := fun h => absurd h.first (by decide)
  exact ⟨hwalk, hroom.1 ⟨_, hwalk⟩, hcounts, ⟨a, b, ha, hb, hbefore (by decide), hshown (by decide)⟩, hfull,
    (walk_counts ⟨-5, -8, -2, -1⟩ ['é', '\n', 'b', '€']).2.1 hfull⟩

end Position
end ContextScan
