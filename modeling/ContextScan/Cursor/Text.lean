import ContextScan.Cursor
import ContextScan.Text.Slice
/-!
# Cursor.Text — a cursor over a text

The cursor knows its place in a text and the span of the token being read.  The token starts where its first character
is: skipping before that character moves the start along, skipping later does not.  It ends at the last mark, or at
the cursor's place while there is none.  Moving at the end of the text does nothing.

What the cursor has not read shrinks with every token (`unread_lt_of_emission`), so a scan over a text comes to an
end.
-/
namespace ContextScan

/-- **A place in a text, with the token being read.** -/
structure TextCursor where
  chars : Array Char
  position : Position := .start
  tokenStart : Position := .start
  tokenStop : Option Position := none
  /-- Whether a character of the token has been read. -/
  started : Bool := false
  deriving DecidableEq

namespace TextCursor

def ofString (text : String) : TextCursor := { chars := text.toList.toArray }

def text (c : TextCursor) : List Char := c.chars.toList

def offset (c : TextCursor) : Nat := c.position.index.toNat

def unread (c : TextCursor) : Nat := c.chars.size - c.offset

/-- **The character at an offset from the cursor**; the sum of the cursor's index and the offset must be a word. -/
def peek (c : TextCursor) (n : Nat) : Checked (Option Char) :=
  if c.offset + n < UInt64.size then .ok c.chars[c.offset + n]? else .error .addition

theorem peek_eq_some_iff {c : TextCursor} {n : Nat} {x : Char} :
    c.peek n = .ok (some x) ↔ c.offset + n < UInt64.size ∧ c.chars[c.offset + n]? = some x := by
  unfold peek
  split
  · rename_i h
    simp [h]
  · rename_i h
    simp [h]

def lookahead (c : TextCursor) : Lookahead where
  peek := c.peek
  extent := c.unread
  peek_ne_some i x h e := by
    obtain ⟨hlt, -⟩ := Array.getElem?_eq_some_iff.1 (peek_eq_some_iff.1 e).2
    unfold unread at h
    omega

def beginToken (c : TextCursor) : TextCursor :=
  { c with tokenStart := c.position, tokenStop := none, started := false }

/-- **Moves over one character**, if there is one. -/
def advance (c : TextCursor) (skip : Bool) : Checked TextCursor :=
  match c.chars[c.offset]? with
  | none => .ok c
  | some x => do
    let position ← c.position.after x
    if !skip then return { c with position, started := true }
    else if !c.started then return { c with position, tokenStart := position }
    else return { c with position }

def markEnd (c : TextCursor) : TextCursor := { c with tokenStop := some c.position }

instance : Cursor TextCursor where
  lookahead := lookahead
  perform
    | .advance skip, c => c.advance skip
    | .markEnd, c => .ok c.markEnd

/-- **The text from the cursor on.** -/
def rest (c : TextCursor) : List Char := (dropBytes c.position.byteOffset.toNat c.text).getD []

def remaining (c : TextCursor) : String := String.ofList c.rest

def atEnd (c : TextCursor) : Bool := c.rest.isEmpty

def tokenSpan (c : TextCursor) : Span := ⟨c.tokenStart, c.tokenStop.getD c.position⟩

/-- **The text of the token being read**; a span whose end lies before its start has none. -/
def tokenText (c : TextCursor) : String :=
  String.ofList
    ((sliceBytes c.tokenSpan.start.byteOffset.toNat c.tokenSpan.stop.byteOffset.toNat c.text).getD [])

/-! ## Progress -/

theorem advance_progress {c c' : TextCursor} {skip : Bool} (h : c.advance skip = .ok c') :
    c'.chars = c.chars ∧ c'.offset = if c.offset < c.chars.size then c.offset + 1 else c.offset := by
  unfold advance at h
  split at h
  · rename_i hnone
    have := Array.getElem?_eq_none_iff.1 hnone
    cases h
    exact ⟨rfl, (if_neg (by omega)).symm⟩
  · rename_i x hsome
    have hlt := (Array.getElem?_eq_some_iff.1 hsome).1
    obtain ⟨p, hp, h⟩ := Checked.bind_eq_ok_iff.1 h
    have hidx : p.index.toNat = c.offset + 1 := (Position.after_eq_ok hp).1
    rw [if_pos hlt]
    split at h
    · cases Checked.pure_eq_ok_iff.1 h; exact ⟨rfl, hidx⟩
    · split at h
      · cases Checked.pure_eq_ok_iff.1 h; exact ⟨rfl, hidx⟩
      · cases Checked.pure_eq_ok_iff.1 h; exact ⟨rfl, hidx⟩

theorem perform_progress {c c' : TextCursor} {call : Call} (h : Cursor.perform call c = .ok c') :
    c'.chars = c.chars ∧ c.offset ≤ c'.offset := by
  cases call with
  | advance skip =>
    obtain ⟨hc, ho⟩ := advance_progress (c := c) h
    exact ⟨hc, by rw [ho]; split <;> omega⟩
  | markEnd => cases h; exact ⟨rfl, Nat.le_refl _⟩

theorem performAll_progress : ∀ (calls : List Call) {c c' : TextCursor}, performAll calls c = .ok c' →
    c'.chars = c.chars ∧ c.offset ≤ c'.offset
  | [], c, c', h => by cases h; exact ⟨rfl, Nat.le_refl _⟩
  | call :: calls, c, c', h => by
    rw [performAll, List.foldlM_cons] at h
    obtain ⟨m, hm, h⟩ := Checked.bind_eq_ok_iff.1 h
    obtain ⟨hc, ho⟩ := perform_progress hm
    obtain ⟨hc', ho'⟩ := performAll_progress calls h
    exact ⟨hc'.trans hc, Nat.le_trans ho ho'⟩

theorem calls_eq_cons {e : Emission} (h : 0 < e.length) : ∃ skip calls, e.calls = .advance skip :: calls := by
  obtain ⟨k, leading, length⟩ := e
  cases leading with
  | succ n => exact ⟨true, _, rfl⟩
  | zero =>
    cases length with
    | zero => exact absurd h (Nat.lt_irrefl _)
    | succ n => exact ⟨false, _, rfl⟩

/-- **A token leaves less to read.** -/
theorem unread_lt_of_emission {options : Options} {set : Candidates} {c c' : TextCursor} {d : Decision}
    (h : resolve options set c = .ok (d, c')) (he : d.emission.isSome = true) : c'.unread < c.unread := by
  obtain ⟨e, he⟩ := Option.isSome_iff_exists.1 he
  obtain ⟨d', hd, h⟩ := Checked.bind_eq_ok_iff.1 h
  split at h
  · rename_i hnone
    cases Checked.pure_eq_ok_iff.1 h
    rw [hnone] at he
    cases he
  · rename_i e' he'
    obtain ⟨c'', hc, h⟩ := Checked.bind_eq_ok_iff.1 h
    cases Checked.pure_eq_ok_iff.1 h
    rw [he'] at he
    cases he
    obtain ⟨hpos, x, hx⟩ := Decision.of_emission hd he'
    have hlt : c.offset < c.chars.size := by
      have := (Array.getElem?_eq_some_iff.1 (peek_eq_some_iff.1 hx).2).1
      omega
    obtain ⟨skip, calls, hcalls⟩ := calls_eq_cons hpos
    rw [hcalls, performAll, List.foldlM_cons] at hc
    obtain ⟨m, hm, hc⟩ := Checked.bind_eq_ok_iff.1 hc
    obtain ⟨hmc, hmo⟩ := advance_progress (c := c) hm
    obtain ⟨hcc, hco⟩ := performAll_progress calls hc
    rw [if_pos hlt] at hmo
    unfold unread
    rw [hcc, hmc]
    omega

end TextCursor
end ContextScan
