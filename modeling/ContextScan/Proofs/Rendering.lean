import ContextScan.Proofs.Exchange
import Mathlib.Data.List.Chain
/-!
# Proofs.Rendering — scanning undoes rendering

A script can be put together from pieces: punctuation marks, line endings, expansions of special variables and of what a
bracket opens, and names that are bound, with blanks in between.  A scan that may take any of these wherever it stands
finds the pieces again, each as its one token or its two, at its place (`scan_render`).

Two pieces may touch, and then a token is judged by the start of the next piece: a special variable must not run into a
name (`Apart`), and the equals sign of a binding must not meet another one, which no piece begins with
(`Piece.head?_text`).  The blanks behind the equals sign of a declaration belong to the declaration, but the scan leaves
them for the next request; so what the induction along the pieces carries is a scan with blanks that it has still to
skip (`Scan.Behind`).
-/
namespace ContextScan

structure Blanks where
  chars : List Char
  blank : ∀ c ∈ chars, isBlank c = true

/-- **A piece of a script.** -/
inductive Piece where
  | mark (c : Char) (k : Kind) (h : PunctuationMark c k)
  | newline
  | special (c : Char) (h : c ∈ ['*', '?', '#', '@'])
  | opener (c : Char) (h : c ∈ ['\x7b', '[', '('])
  /-- A name with an equals sign directly after it. -/
  | binding (name : List Char) (h : IsName name)
  /-- A name and an equals sign with blanks on both sides. -/
  | declaration (name : List Char) (gap gap' : Blanks) (h : IsName name) (hgap : gap.chars ≠ [])
      (hgap' : gap'.chars ≠ [])

namespace Piece

def text : Piece → List Char
  | mark c _ _ => [c]
  | newline => ['\n']
  | special c _ | opener c _ => ['$', c]
  | binding name _ => name ++ ['=']
  | declaration name gap gap' _ _ _ => name ++ gap.chars ++ ['='] ++ gap'.chars

/-- The tokens of a piece, after what stands before it. -/
def tokens (before : List Char) : Piece → List Token
  | mark c k _ => [.spelled k before [c]]
  | newline => [.spelled .newline before ['\n']]
  | special c _ | opener c _ => [.spelled .dollarExpansion before ['$', c]]
  | binding name _ => [.spelled .envVarName before name, .spelled .namedParamEq (before ++ name) ['=']]
  | declaration name gap _ _ _ _ =>
    [.spelled .constDeclVar before name, .spelled .namedParamEq (before ++ name ++ gap.chars) ['=']]

def isSpecial : Piece → Bool
  | special .. => true
  | _ => false

def startsWithName : Piece → Bool
  | binding .. | declaration .. => true
  | _ => false

/-- The kinds a scan has to take to find the pieces; line endings are called for by any of the marks. -/
def kinds : List Kind :=
  [.comma, .semicolon, .closeParen, .closeBrace, .closeBracket, .closingList, .dollarExpansion, .envVarName,
    .constDeclVar, .namedParamEq]

end Piece

/-- **Pieces in a row, each behind a run of blanks, and a last run of blanks.** -/
def render : List (Blanks × Piece) → Blanks → List Char
  | [], last => last.chars
  | (gap, p) :: ps, last => gap.chars ++ p.text ++ render ps last

/-- The tokens of pieces in a row, after what stands before them. -/
def renderedTokens : List Char → List (Blanks × Piece) → List Token
  | _, [] => []
  | before, (gap, p) :: ps => p.tokens (before ++ gap.chars) ++ renderedTokens (before ++ gap.chars ++ p.text) ps

/-- A special variable and a name need a blank between them. -/
def Apart (a b : Blanks × Piece) : Prop := a.2.isSpecial = true → b.2.startsWithName = true → b.1.chars ≠ []

/-- **A set that takes every piece**, and nothing that would take a piece for something else. -/
structure Candidates.TakesPieces (set : Candidates) : Prop where
  holds : ∀ k ∈ Piece.kinds, k ∈ set
  lacks : ∀ k ∈ [.newline, .multilineCmdSentinel, .byteStringMarker, .errorSentinel], k ∉ set

/-! ## How pieces meet -/

theorem IsName.ne_equals {name : List Char} (h : IsName name) (r : List Char) : (name ++ r).head? ≠ some '=' := by
  obtain ⟨c, cs, rfl, hc, -⟩ := h
  rw [List.cons_append, List.head?_cons, ne_eq, Option.some.injEq]
  rintro rfl
  exact absurd hc (by decide)

/-- **No piece begins with an equals sign, and only a name begins with a character of names.** -/
theorem Piece.head?_text (p : Piece) (r : List Char) : (p.text ++ r).head? ≠ some '=' ∧
    (p.startsWithName = false → ∀ d ∈ (p.text ++ r).head?, isIdentChar d = false) := by
  have hone : ∀ {c : Char} (r : List Char), c ≠ '=' ∧ isIdentChar c = false →
      (c :: r).head? ≠ some '=' ∧ (p.startsWithName = false → ∀ d ∈ (c :: r).head?, isIdentChar d = false) := by
    rintro c r ⟨hc, hid⟩
    exact ⟨fun e => hc (Option.some.inj e), fun _ d hd => Option.some.inj hd ▸ hid⟩
  cases p with
  | mark c k h =>
    refine hone r ?_
    rcases h.cases with ⟨rfl, -⟩ | ⟨rfl, -⟩ | ⟨rfl, -⟩ | ⟨rfl, -⟩ | ⟨rfl, -⟩ | ⟨rfl, -⟩ <;> decide
  | newline => exact hone r (by decide)
  | special c h => exact hone _ (by decide)
  | opener c h => exact hone _ (by decide)
  | binding name h =>
    refine ⟨?_, fun hn => by cases hn⟩
    rw [text, List.append_assoc]
    exact h.ne_equals _
  | declaration name gap gap' h hgap hgap' =>
    refine ⟨?_, fun hn => by cases hn⟩
    simp only [text, List.append_assoc]
    exact h.ne_equals _

/-- What may come right after a piece. -/
def Piece.Joins (rest : List Char) : Piece → Prop
  | special .. => ∀ d ∈ rest.head?, isIdentChar d = false
  | binding .. => rest.head? ≠ some '='
  | _ => True

theorem Piece.joins_of_head? (p : Piece) {rest : List Char} (heq : rest.head? ≠ some '=')
    (hid : p.isSpecial = true → ∀ d ∈ rest.head?, isIdentChar d = false) : p.Joins rest := by
  cases p with
  | special c h => exact hid rfl
  | binding name h => exact heq
  | _ => trivial

theorem isBlank_ne_equals {b : Char} (h : isBlank b = true) : b ≠ '=' := by
  rintro rfl
  exact absurd h (by decide)

theorem Piece.joins_blanks (p : Piece) (gap : Blanks) (h : gap.chars ≠ []) (r : List Char) : p.Joins (gap.chars ++ r) := by
  obtain ⟨b, bs, hb⟩ := List.exists_cons_of_ne_nil h
  have hblank : isBlank b = true := gap.blank b (by simp [hb])
  rw [hb]
  refine p.joins_of_head? (fun e => isBlank_ne_equals hblank (Option.some.inj e)) fun _ d hd => ?_
  cases hd
  exact isIdentChar_eq_false_of_isBlank hblank

/-- **Pieces that are apart join**: after each come blanks, the next piece or the end of the text. -/
theorem render_joins {gap : Blanks} {p : Piece} {ps : List (Blanks × Piece)} {last : Blanks}
    (h : ((gap, p) :: ps).IsChain Apart) : p.Joins (render ps last) := by
  cases ps with
  | nil =>
    rw [render]
    by_cases hlast : last.chars = []
    · rw [hlast]
      exact p.joins_of_head? (by simp) (by simp)
    · rw [← List.append_nil last.chars]
      exact p.joins_blanks last hlast []
  | cons q ps =>
    obtain ⟨hapart, -⟩ := List.isChain_cons_cons.1 h
    rw [render, List.append_assoc]
    by_cases hgap : q.1.chars = []
    · rw [hgap, List.nil_append]
      obtain ⟨heq, hid⟩ := q.2.head?_text (render ps last)
      refine p.joins_of_head? heq fun hs => hid ?_
      rw [Bool.eq_false_iff]
      exact fun hn => hapart hs hn hgap
    · exact p.joins_blanks q.1 hgap _

/-! ## Reading one word -/

section

variable {options : Options} {set : Candidates} {k : Kind}

theorem Candidates.TakesPieces.admits (h : set.TakesPieces) (cs : List Char) (hk : k ∈ .newline :: Piece.kinds) :
    set.Admits cs k := by
  have hlacks : ∀ k ∈ [Kind.newline, .multilineCmdSentinel, .byteStringMarker, .errorSentinel], k ∉ set := h.lacks
  rcases List.mem_cons.1 hk with rfl | hk
  · refine ⟨⟨⟨.comma, by decide, h.holds _ (by decide)⟩, hlacks _ (by decide), fun hm => ?_⟩, id⟩
    exact hlacks .multilineCmdSentinel (by decide) hm.1
  · have hmem := h.holds k hk
    have hb : Kind.byteStringMarker ∉ set := hlacks _ (by decide)
    cases k with
    | envVarName => exact ⟨hmem, fun hr => hb hr.1⟩
    | constDeclVar => exact ⟨hmem, fun hr => hb hr.1⟩
    | newline => exact absurd hk (by decide)
    | envEqual => exact absurd hk (by decide)
    | _ => exact ⟨hmem, id⟩

/-- **Behind blanks, a set that takes the pieces takes what has the form of one.** -/
theorem Candidates.TakesPieces.emission (h : set.TakesPieces) (hk : k ∈ .newline :: Piece.kinds) {n : Nat}
    {gap cs : List Char} (hgap : ∀ c ∈ gap, isBlank c = true) (hform : Form options k n cs) :
    (Decision.reading options set (gap ++ cs)).emission = some ⟨k, gap.length, n⟩ := by
  obtain ⟨word, rest, rfl, -, hne, hplain⟩ := hform.exists_word
  obtain ⟨c, word, rfl⟩ := List.exists_cons_of_ne_nil hne
  have hc := (hplain c List.mem_cons_self).1
  rw [List.cons_append] at hform ⊢
  rw [Decision.reading_emission_iff, takeWhile_append_cons hgap hc, dropWhile_append_cons hgap hc]
  exact ⟨h.lacks _ (by decide), rfl, h.admits _ hk, hform⟩

end

/-! ## Reading the pieces -/

/-- **A scan that may take one set everywhere stands behind `read`**, up to blanks that it has still to skip. -/
def Scan.Behind (scan : Scan) (set : Candidates) (read left : List Char) : Prop :=
  ∃ asked done blanks, Course ⟨.withOperator⟩ (fun _ _ => set) asked done (blanks ++ left) scan ∧
    (∀ c ∈ blanks, isBlank c = true) ∧ read = done ++ blanks

namespace Scan.Behind

variable {set : Candidates} {read gap word left rest : List Char} {scan : Scan}

theorem skip_blanks (h : scan.Behind set read (gap ++ left)) (hgap : ∀ c ∈ gap, isBlank c = true) :
    scan.Behind set (read ++ gap) left := by
  obtain ⟨asked, done, blanks, hcourse, hblanks, rfl⟩ := h
  refine ⟨asked, done, blanks ++ gap, ?_, List.forall_mem_append.2 ⟨hblanks, hgap⟩, List.append_assoc ..⟩
  rwa [List.append_assoc]

theorem read_word {k : Kind} (h : scan.Behind set read (word ++ rest)) (hset : set.TakesPieces)
    (hk : k ∈ .newline :: Piece.kinds) (hform : Form ⟨.withOperator⟩ k word.length (word ++ rest)) :
    ∃ later : Scan, later.Behind set (read ++ word) rest ∧ scan.tokens = .spelled k read word :: later.tokens ∧
      scan.stuck = later.stuck := by
  obtain ⟨asked, done, blanks, hcourse, hblanks, rfl⟩ := h
  have he := hset.emission hk hblanks hform
  obtain ⟨gap, word', rest', hcut⟩ := Decision.exists_cut he
  obtain ⟨rfl, rfl, rfl⟩ := hcut.unique (List.append_assoc ..).symm rfl rfl
  obtain ⟨asked', later, hlater, htokens, hstuck⟩ := hcourse.of_emission he hcut
  exact ⟨later, ⟨asked', _, [], hlater, List.forall_mem_nil _, (List.append_nil _).symm⟩, htokens, hstuck⟩

theorem read_piece {p : Piece} (h : scan.Behind set read (p.text ++ rest)) (hset : set.TakesPieces) (hjoin : p.Joins rest) :
    ∃ later : Scan, later.Behind set (read ++ p.text) rest ∧ scan.tokens = p.tokens read ++ later.tokens ∧
      scan.stuck = later.stuck := by
  cases p with
  | mark c k hm =>
    refine h.read_word hset ?_ (.punctuation rest hm)
    rcases hm.cases with ⟨-, rfl⟩ | ⟨-, rfl⟩ | ⟨-, rfl⟩ | ⟨-, rfl⟩ | ⟨-, rfl⟩ | ⟨-, rfl⟩ <;> decide
  | newline => exact h.read_word hset (by decide) (.newline rest)
  | special c hc => exact h.read_word hset (by decide) (.dollarSpecial hc hjoin)
  | opener c hc => exact h.read_word hset (by decide) (.dollarOpener rest hc)
  | binding name hn =>
    simp only [Piece.text, List.append_assoc] at h
    obtain ⟨mid, hmid, htokens, hstuck⟩ := h.read_word hset (by decide) (.envVarName rest hn)
    obtain ⟨later, hlater, htokens', hstuck'⟩ := hmid.read_word hset (by decide) (.namedParamEq hjoin)
    refine ⟨later, ?_, ?_, hstuck.trans hstuck'⟩
    · simpa only [Piece.text, List.append_assoc] using hlater
    · rw [htokens, htokens']
      rfl
  | declaration name gap gap' hn hgap hgap' =>
    -- The token of the name needs a blank on either side of the equals sign.
    obtain ⟨b, bs, hbs⟩ := List.exists_cons_of_ne_nil hgap'
    have hb : isBlank b = true := gap'.blank b (by rw [hbs]; exact List.mem_cons_self)
    have hname : Form ⟨.withOperator⟩ .constDeclVar name.length
        (name ++ (gap.chars ++ (['='] ++ (gap'.chars ++ rest)))) := by
      rw [hbs, ← List.append_assoc]
      exact .constDeclVar (bs ++ rest) hn hgap gap.blank hb
    have hequals : Form ⟨.withOperator⟩ .namedParamEq 1 (['='] ++ (gap'.chars ++ rest)) := by
      rw [hbs]
      exact .namedParamEq fun e => isBlank_ne_equals hb (Option.some.inj e)
    simp only [Piece.text, List.append_assoc] at h
    obtain ⟨mid, hmid, htokens, hstuck⟩ := h.read_word hset (by decide) hname
    obtain ⟨later, hlater, htokens', hstuck'⟩ := (hmid.skip_blanks gap.blank).read_word hset (by decide) hequals
    refine ⟨later, ?_, ?_, hstuck.trans hstuck'⟩
    · simpa only [Piece.text, List.append_assoc] using hlater.skip_blanks gap'.blank
    · rw [htokens, htokens']
      rfl

/-- **Pieces in a row are read as their tokens**, to the end of the text. -/
theorem read_pieces (hset : set.TakesPieces) (last : Blanks) : ∀ {ps : List (Blanks × Piece)} {read : List Char}
    {scan : Scan}, scan.Behind set read (render ps last) → ps.IsChain Apart →
      scan.tokens = renderedTokens read ps ∧ scan.stuck = none
  | [], read, scan, h, _ => by
    obtain ⟨asked, done, blanks, hcourse, hblanks, rfl⟩ := h
    have hall : (blanks ++ last.chars).all isBlank = true :=
      List.all_eq_true.2 (List.forall_mem_append.2 ⟨hblanks, last.blank⟩)
    exact hcourse.of_blank hall
  | (gap, p) :: ps, read, scan, h, hchain => by
    rw [render, List.append_assoc] at h
    obtain ⟨later, hlater, htokens, hstuck⟩ := (h.skip_blanks gap.blank).read_piece hset (render_joins hchain)
    obtain ⟨htokens', hstuck'⟩ := read_pieces hset last hlater (List.isChain_cons.1 hchain).2
    exact ⟨by rw [htokens, htokens', renderedTokens], hstuck.trans hstuck'⟩

end Scan.Behind

/-- **Scanning undoes rendering.**

Take pieces in a row with blanks before, between and after them, no special variable running into a name.  Against a host
that always takes every piece, and nothing that would take one for something else, the scan of the text succeeds, and
its tokens are those of the pieces, in order and each at its place. -/
theorem scan_render (set : Candidates) (ps : List (Blanks × Piece)) (last : Blanks) (hset : set.TakesPieces)
    (hchain : ps.IsChain Apart) (fits : Fits (render ps last)) :
    ∃ scan, Scan.of ⟨.withOperator⟩ (String.ofList (render ps last)) (fun _ _ => set) = .ok scan ∧
      scan.result = .ok (renderedTokens [] ps) := by
  obtain ⟨scan, hrun, hcourse⟩ := Scan.exists_course ⟨.withOperator⟩ (String.ofList (render ps last)) (fun _ _ => set)
    (by rwa [String.toList_ofList])
  rw [String.toList_ofList] at hcourse
  have hstart : scan.Behind set [] (render ps last) := ⟨[], [], [], hcourse, List.forall_mem_nil _, rfl⟩
  obtain ⟨htokens, hstuck⟩ := hstart.read_pieces hset last hchain
  refine ⟨_, hrun, ?_⟩
  simp only [Scan.result, hstuck, htokens]

/-- Pieces that touch wherever they may, under a set with other kinds besides. -/
theorem scan_render_touching : ∃ ps last, render ps last = "$?\x7d b = \n\t$\x7bb=| ".toList ∧
    Candidates.TakesPieces (.ofList (.hatExpansion :: .envEqual :: Piece.kinds)) ∧ ps.IsChain Apart ∧
    Fits (render ps last) ∧
    ∃ scan, Scan.of ⟨.withOperator⟩ (String.ofList (render ps last))
        (fun _ _ => .ofList (.hatExpansion :: .envEqual :: Piece.kinds)) = .ok scan ∧
      scan.result = .ok (renderedTokens [] ps) := by
  have hname : IsName ['b'] := ⟨'b', [], rfl, rfl, List.forall_mem_nil _⟩
  have hset : Candidates.TakesPieces (.ofList (.hatExpansion :: .envEqual :: Piece.kinds)) :=
    ⟨fun k hk => Candidates.mem_ofList.2 (List.mem_cons_of_mem _ (List.mem_cons_of_mem _ hk)), by decide⟩
  have hbrace : PunctuationMark '\x7d' .closeBrace := by simp [PunctuationMark]
  have hbar : PunctuationMark '|' .closingList := by simp [PunctuationMark]
  let touch : Blanks := ⟨[], List.forall_mem_nil _⟩
  let space : Blanks := ⟨[' '], List.forall_mem_singleton.2 rfl⟩
  let tab : Blanks := ⟨['\t'], List.forall_mem_singleton.2 rfl⟩
  let ps : List (Blanks × Piece) := [(touch, .special '?' (by decide)), (touch, .mark '\x7d' .closeBrace hbrace),
    (space, .declaration ['b'] space space hname (by decide) (by decide)), (touch, .newline),
    (tab, .opener '\x7b' (by decide)), (touch, .binding ['b'] hname), (touch, .mark '|' .closingList hbar)]
  have hchain : ps.IsChain Apart := by simp [ps, Apart, Piece.isSpecial, Piece.startsWithName]
  have htext : render ps space = "$?\x7d b = \n\t$\x7bb=| ".toList := rfl
  have hfits : Fits (render ps space) := by rw [htext]; decide
  exact ⟨ps, space, htext, hset, hchain, hfits, scan_render _ ps space hset hchain hfits⟩

end ContextScan
