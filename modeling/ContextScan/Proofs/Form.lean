import ContextScan.Options
import ContextScan.Kind
import ContextScan.Text.Class
import Mathlib.Data.List.TakeWhile
/-!
# Proofs.Form — the forms of token

What a token looks like is settled by the text alone.  `Form options k n cs` says that the first `n` characters of `cs`
can be a token of kind `k`, with a case for each way a token is written and no order among the cases.  A form covers at
least one character, and only ASCII characters that are no blanks (`Form.exists_word`).
-/
namespace ContextScan

/-- **A name**: an ASCII letter or underscore, then ASCII letters, underscores and digits. -/
def IsName (cs : List Char) : Prop := ∃ c r, cs = c :: r ∧ isIdentStart c = true ∧ ∀ d ∈ r, isIdentChar d = true

def BlankLine (cs : List Char) : Prop := ∃ gap r, cs = gap ++ '\n' :: r ∧ ∀ c ∈ gap, isBlank c = true

def PunctuationMark (c : Char) (k : Kind) : Prop :=
  (c, k) ∈ [(',', Kind.comma), (';', .semicolon), (')', .closeParen), ('\x7d', .closeBrace), (']', .closeBracket),
    ('|', .closingList)]

/-- **The forms of token**: `Form options k n cs` says that the first `n` characters of `cs` look like a token of kind
`k`, and that what follows them lets them be one. -/
inductive Form (options : Options) : Kind → Nat → List Char → Prop where
  | newline (r : List Char) : Form options .newline 1 ('\n' :: r)
  | punctuation {k : Kind} {c : Char} (r : List Char) (h : PunctuationMark c k) : Form options k 1 (c :: r)
  | namedParamEq {r : List Char} (h : r.head? ≠ some '=') : Form options .namedParamEq 1 ('=' :: r)
  | envEqual {r : List Char} (h : ∀ c ∈ r.head?, isBlank c = false) : Form options .envEqual 1 ('=' :: r)
  | dollarName {c : Char} (r : List Char) (h : isIdentChar c = true) : Form options .dollarExpansion 1 ('$' :: c :: r)
  | dollarSpecial {c : Char} {r : List Char} (h : c ∈ ['*', '?', '#', '@'])
      (hr : ∀ d ∈ r.head?, isIdentChar d = false) :
      Form options .dollarExpansion options.dollarSpan.operatorLength ('$' :: c :: r)
  | dollarOpener {c : Char} (r : List Char) (h : c ∈ ['\x7b', '[', '(']) :
      Form options .dollarExpansion options.dollarSpan.operatorLength ('$' :: c :: r)
  | hatExpansion {c : Char} (r : List Char) (h : isIdentChar c = true ∨ c ∈ ['[', '(']) :
      Form options .hatExpansion 1 ('@' :: c :: r)
  | byteString (r : List Char) : Form options .byteStringMarker 1 ('b' :: '\'' :: r)
  | envVarName {name : List Char} (r : List Char) (h : IsName name) :
      Form options .envVarName name.length (name ++ '=' :: r)
  | constDeclVar {name gap : List Char} {b : Char} (r : List Char) (h : IsName name) (hg : gap ≠ [])
      (hgap : ∀ c ∈ gap, isBlank c = true) (hb : isBlank b = true) :
      Form options .constDeclVar name.length (name ++ gap ++ '=' :: b :: r)

/-! ## Runs and blank lines -/

theorem takeWhile_append_cons {p : Char → Bool} {xs ys : List Char} {y : Char} (h : ∀ x ∈ xs, p x = true)
    (hy : p y = false) : (xs ++ y :: ys).takeWhile p = xs := by
  rw [List.takeWhile_append_of_pos h, List.takeWhile_cons_of_neg (by simp [hy]), List.append_nil]

theorem dropWhile_append_cons {p : Char → Bool} {xs ys : List Char} {y : Char} (h : ∀ x ∈ xs, p x = true)
    (hy : p y = false) : (xs ++ y :: ys).dropWhile p = y :: ys := by
  rw [List.dropWhile_append_of_pos h, List.dropWhile_cons_of_neg (by simp [hy])]

theorem head?_dropWhile_eq_some {p : Char → Bool} {xs : List Char} {y : Char} (h : (xs.dropWhile p).head? = some y) :
    p y = false ∧ ∃ zs ys, xs = zs ++ y :: ys ∧ zs = xs.takeWhile p ∧ ∀ z ∈ zs, p z = true := by
  obtain ⟨ys, hys⟩ := List.head?_eq_some_iff.1 h
  refine ⟨?_, xs.takeWhile p, ys, ?_, rfl, fun z hz => List.mem_takeWhile_imp hz⟩
  · have hn := List.head?_dropWhile_not p xs
    rw [h] at hn
    exact hn
  · rw [← hys, List.takeWhile_append_dropWhile]

theorem blankLine_iff {cs : List Char} : BlankLine cs ↔ (cs.dropWhile isBlank).head? = some '\n' := by
  constructor
  · rintro ⟨gap, r, rfl, hgap⟩
    rw [dropWhile_append_cons hgap (by decide)]
    rfl
  · intro h
    obtain ⟨-, gap, r, hcs, -, hgap⟩ := head?_dropWhile_eq_some h
    exact ⟨gap, r, hcs, hgap⟩

theorem IsName.isIdentChar {name : List Char} (h : IsName name) : ∀ c ∈ name, isIdentChar c = true := by
  obtain ⟨c, r, rfl, hc, hr⟩ := h
  intro d hd
  rcases List.mem_cons.1 hd with rfl | hd
  · exact isIdentChar_of_isIdentStart hc
  · exact hr d hd

theorem isName_takeWhile {c : Char} {r : List Char} (h : isIdentStart c = true) :
    IsName ((c :: r).takeWhile ContextScan.isIdentChar) := by
  rw [List.takeWhile_cons_of_pos (isIdentChar_of_isIdentStart h)]
  exact ⟨c, _, rfl, h, fun d hd => List.mem_takeWhile_imp hd⟩

theorem PunctuationMark.cases {c : Char} {k : Kind} (h : PunctuationMark c k) :
    c = ',' ∧ k = .comma ∨ c = ';' ∧ k = .semicolon ∨ c = ')' ∧ k = .closeParen ∨ c = '\x7d' ∧ k = .closeBrace ∨
      c = ']' ∧ k = .closeBracket ∨ c = '|' ∧ k = .closingList := by
  simpa only [PunctuationMark, List.mem_cons, Prod.mk.injEq, List.not_mem_nil, or_false] using h

/-! ## What a form covers -/

/-- **A form covers at least one character, and only ASCII characters that are no blanks.** -/
theorem Form.exists_word {options : Options} {k : Kind} {n : Nat} {cs : List Char} (h : Form options k n cs) :
    ∃ word rest, cs = word ++ rest ∧ word.length = n ∧ word ≠ [] ∧ ∀ c ∈ word, isBlank c = false ∧ c.toNat < 128 := by
  have hone : ∀ (c : Char) (r : List Char), isBlank c = false ∧ c.toNat < 128 → ∃ word rest, c :: r = word ++ rest ∧
      word.length = 1 ∧ word ≠ [] ∧ ∀ d ∈ word, isBlank d = false ∧ d.toNat < 128 := fun c r hc =>
    ⟨[c], r, rfl, rfl, List.cons_ne_nil _ _, List.forall_mem_singleton.2 hc⟩
  have hoperator : ∀ (c : Char) (r : List Char), isBlank c = false ∧ c.toNat < 128 →
      ∃ word rest, '$' :: c :: r = word ++ rest ∧ word.length = options.dollarSpan.operatorLength ∧ word ≠ [] ∧
        ∀ d ∈ word, isBlank d = false ∧ d.toNat < 128 := by
    intro c r hc
    cases options.dollarSpan with
    | sigilOnly => exact hone '$' (c :: r) (by decide)
    | withOperator =>
      refine ⟨['$', c], r, rfl, rfl, List.cons_ne_nil _ _, ?_⟩
      exact List.forall_mem_cons.2 ⟨by decide, List.forall_mem_singleton.2 hc⟩
  have hname : ∀ name r : List Char, IsName name → ∃ word rest, name ++ r = word ++ rest ∧ word.length = name.length ∧
      word ≠ [] ∧ ∀ c ∈ word, isBlank c = false ∧ c.toNat < 128 := by
    intro name r hn
    refine ⟨name, r, rfl, rfl, ?_, fun c hc => ⟨?_, toNat_lt_of_isIdentChar (hn.isIdentChar c hc)⟩⟩
    · obtain ⟨c, r, rfl, -⟩ := hn
      exact List.cons_ne_nil _ _
    · rw [Bool.eq_false_iff]
      intro hb
      have hid := hn.isIdentChar c hc
      rw [isIdentChar_eq_false_of_isBlank hb] at hid
      cases hid
  cases h with
  | punctuation r h =>
    rcases h.cases with ⟨rfl, -⟩ | ⟨rfl, -⟩ | ⟨rfl, -⟩ | ⟨rfl, -⟩ | ⟨rfl, -⟩ | ⟨rfl, -⟩ <;> exact hone _ r (by decide)
  | @dollarSpecial c r h hr =>
    simp only [List.mem_cons, List.not_mem_nil, or_false] at h
    rcases h with rfl | rfl | rfl | rfl <;> exact hoperator _ r (by decide)
  | @dollarOpener c r h =>
    simp only [List.mem_cons, List.not_mem_nil, or_false] at h
    rcases h with rfl | rfl | rfl <;> exact hoperator _ r (by decide)
  | envVarName r h => exact hname _ _ h
  | constDeclVar r h hg hgap hb =>
    rw [List.append_assoc]
    exact hname _ _ h
  | _ => exact hone _ _ (by decide)

end ContextScan
