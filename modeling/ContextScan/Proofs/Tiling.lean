import ContextScan.Proofs.Course
/-!
# Proofs.Tiling — the tokens of a scan tile its text

A scan skips blanks and keeps everything else: its text is the texts of its tokens in order, with blanks before, between
and after them, and every token knows its own place (`Token.Covers`).  Every question but the last brings a token and
every token takes a character that is no blank, so a host is not asked more often than there are such characters.
-/
namespace ContextScan

/-- **A token covers a word of a text**, between what stands before the word and what comes after it.  The ends of its
span are the positions there, the span cuts the word out of the text, and both its lengths are the word's. -/
structure Token.Covers (t : Token) (before word after : List Char) : Prop where
  text_eq : t.text = String.ofList word
  ne_nil : word ≠ []
  plain : ∀ c ∈ word, isBlank c = false ∧ c.toNat < 128
  start_eq : Position.start.through before = .ok t.span.start
  stop_eq : Position.start.through (before ++ word) = .ok t.span.stop
  slice_eq : sliceBytes t.span.byteRange.1.toNat t.span.byteRange.2.toNat (before ++ word ++ after) = some word
  length_eq : ∃ n, t.span.length = .ok n ∧ n.toNat = word.length
  extent_eq : ∃ a n, t.span.byteExtent = .ok (a, n) ∧ a.toNat = byteLength before ∧ n.toNat = word.length

/-- **Tokens tile the front of a text**: blanks and a token in turn, up to a rest that starts where the last token ends.
The first list stands before the text. -/
inductive Tiles : List Char → List Char → List Token → List Char → Prop where
  | nil (before rest : List Char) : Tiles before rest [] rest
  | cons {before gap word after rest : List Char} {t : Token} {ts : List Token} (hgap : ∀ c ∈ gap, isBlank c = true)
      (ht : t.Covers (before ++ gap) word after) (hts : Tiles (before ++ gap ++ word) after ts rest) :
      Tiles before (gap ++ word ++ after) (t :: ts) rest

theorem byteLength_of_ascii : ∀ {cs : List Char}, (∀ c ∈ cs, c.toNat < 128) → byteLength cs = cs.length
  | [], _ => rfl
  | c :: cs, h => by
    have hc : c.utf8Size = 1 := Char.utf8Size_eq_one_iff.2 (Nat.le_of_lt_succ (h c List.mem_cons_self))
    rw [byteLength, hc, byteLength_of_ascii fun d hd => h d (List.mem_cons_of_mem _ hd), List.length_cons, Nat.add_comm]

theorem Token.spelled_covers {before word after : List Char} (k : Kind) (fits : Fits (before ++ word ++ after))
    (hne : word ≠ []) (hplain : ∀ c ∈ word, isBlank c = false ∧ c.toNat < 128) :
    (Token.spelled k before word).Covers before word after := by
  have hword : byteLength word = word.length := byteLength_of_ascii fun c hc => (hplain c hc).2
  have hlen : word.length < UInt64.size := by
    have := fits.left.length_lt
    rw [List.length_append] at this
    omega
  have hstart := Position.toNat_byteOffset_past fits.left.left
  have hstop := Position.toNat_byteOffset_past fits.left
  rw [byteLength_append, hword] at hstop
  refine ⟨rfl, hne, hplain, Position.start_through fits.left.left, Position.start_through fits.left, ?_, ?_, ?_⟩
  · show sliceBytes (Position.past before).byteOffset.toNat (Position.past (before ++ word)).byteOffset.toNat _ = _
    rw [hstart, hstop, ← hword, sliceBytes_append]
  · refine ⟨.ofNat word.length, Word.sub_eq_ok_iff.2 ?_, UInt64.toNat_ofNat_of_lt' hlen⟩
    show (Position.past (before ++ word)).index.toNat = (Position.past before).index.toNat + _
    rw [Position.toNat_index_past fits.left, Position.toNat_index_past fits.left.left, UInt64.toNat_ofNat_of_lt' hlen,
      List.length_append]
  · have hsub : Word.sub (Position.past (before ++ word)).byteOffset (Position.past before).byteOffset =
        .ok (.ofNat word.length) := by
      rw [Word.sub_eq_ok_iff, hstart, hstop, UInt64.toNat_ofNat_of_lt' hlen]
    refine ⟨_, .ofNat word.length, ?_, hstart, UInt64.toNat_ofNat_of_lt' hlen⟩
    show (Word.sub _ _ >>= _) = _
    rw [Token.spelled, hsub]
    rfl

theorem Token.Covers.filter_word {t : Token} {before word after : List Char} (h : t.Covers before word after) :
    word.filter (fun c => !isBlank c) = word := by
  rw [List.filter_eq_self]
  intro c hc
  simp [(h.plain c hc).1]

/-- The texts of tiles are the text less its blanks, up to the rest. -/
theorem Tiles.filter_eq {before left rest : List Char} {ts : List Token} (h : Tiles before left ts rest) :
    left.filter (fun c => !isBlank c) = ts.flatMap (fun t => t.text.toList) ++ rest.filter (fun c => !isBlank c) := by
  induction h with
  | nil before rest => rfl
  | @cons before gap word after rest t ts hgap ht hts ih =>
    have hg : gap.filter (fun c => !isBlank c) = [] := List.filter_eq_nil_iff.2 fun c hc => by simp [hgap c hc]
    rw [List.filter_append, List.filter_append, hg, ht.filter_word, ih, List.flatMap_cons, ht.text_eq, String.toList_ofList,
      List.nil_append, List.append_assoc]

/-- There are no more tiles than characters that are no blanks. -/
theorem Tiles.length_le {before left rest : List Char} {ts : List Token} (h : Tiles before left ts rest) :
    ts.length + (rest.filter (fun c => !isBlank c)).length ≤ (left.filter (fun c => !isBlank c)).length := by
  induction h with
  | nil before rest => rw [List.length_nil, Nat.zero_add]
  | @cons before gap word after rest t ts hgap ht hts ih =>
    have hpos := List.length_pos_iff.2 ht.ne_nil
    rw [List.filter_append, List.filter_append, ht.filter_word, List.length_append, List.length_append, List.length_cons]
    omega

namespace Course

variable {options : Options} {host : Host} {asked : List Query} {done left : List Char} {scan : Scan}

/-- Where a scan ends: the rest of its text, with the last question if the scan is stuck there. -/
structure EndsAt (options : Options) (host : Host) (asked : List Query) (done left : List Char) (scan : Scan)
    (read rest : List Char) : Prop where
  split : done ++ left = read ++ rest
  tiles : Tiles done left scan.tokens rest
  place : Position.past read = scan.tokens.getLast?.elim (.past done) (fun t => t.span.stop)
  finished : scan.stuck = none → rest.all isBlank = true ∧ scan.queries.length = scan.tokens.length
  stuck : ∀ p, scan.stuck = some p → p = .past read ∧ rest.all isBlank = false ∧
    ∃ qs, scan.queries = qs ++ [.between read rest] ∧ qs.length = scan.tokens.length ∧
      (Decision.reading options (host (asked ++ qs) (.between read rest)) rest).emission = none

/-- **A course tiles what it reads.** -/
theorem exists_endsAt (h : Course options host asked done left scan) (fits : Fits (done ++ left)) :
    ∃ read rest, EndsAt options host asked done left scan read rest := by
  induction h with
  | @finished asked done left hblank =>
    exact ⟨done, left, rfl, .nil done left, rfl, fun _ => ⟨hblank, rfl⟩, nofun⟩
  | @stuck asked done left hblank he =>
    refine ⟨done, left, rfl, .nil done left, rfl, nofun, fun p hp => ?_⟩
    cases hp
    exact ⟨rfl, hblank, [], rfl, rfl, by rwa [List.append_nil]⟩
  | @token asked done left gap word rest e later hblank he hleft hgap hword hgaps hne hplain hlater ih =>
    subst hleft
    have hall : done ++ gap ++ word ++ rest = done ++ (gap ++ word ++ rest) := by simp only [List.append_assoc]
    obtain ⟨read, final, hend⟩ := ih fits.assoc
    refine ⟨read, final, hend.split.symm ▸ hall.symm, ?_, ?_, ?_, ?_⟩
    · have hcover := Token.spelled_covers e.kind fits.assoc hne hplain
      exact .cons hgaps hcover hend.tiles
    · rw [List.getLast?_cons, hend.place]
      cases later.tokens.getLast? <;> rfl
    · intro hs
      obtain ⟨hrest, hlen⟩ := hend.finished hs
      exact ⟨hrest, congrArg (· + 1) hlen⟩
    · intro p hp
      obtain ⟨hp, hrest, qs, hqs, hlen, hdecline⟩ := hend.stuck p hp
      refine ⟨hp, hrest, .between done (gap ++ word ++ rest) :: qs, congrArg (_ :: ·) hqs, congrArg (· + 1) hlen, ?_⟩
      rwa [List.append_assoc, List.singleton_append] at hdecline

end Course

/-- **A scan tiles its text, and always ends.**

For every text and every host, a scan asks no more often than there are characters that are no blanks.  Its tokens
tile the front of the text.  If the scan succeeds, only blanks are left, and the texts of its tokens are the text
without its blanks.  If it fails, it does so where the last token ends, or at the start if there is none, with more than
blanks left; and the answer to the last question, put there, admits no token. -/
theorem scan_tiles (options : Options) (text : String) (host : Host) (fits : Fits text.toList) :
    ∃ scan, Scan.of options text host = .ok scan ∧
      scan.queries.length ≤ (text.toList.filter (fun c => !isBlank c)).length ∧
      ∃ read rest, text.toList = read ++ rest ∧ Tiles [] text.toList scan.tokens rest ∧
        (scan.result = .ok scan.tokens ∧ rest.all isBlank = true ∧
            scan.tokens.flatMap (fun t => t.text.toList) = text.toList.filter (fun c => !isBlank c) ∨
          ∃ p, scan.result = .error (.noTokenAt p) ∧ Position.start.through read = .ok p ∧
            p = scan.tokens.getLast?.elim .start (fun t => t.span.stop) ∧ rest.all isBlank = false ∧
            ∃ qs, scan.queries = qs ++ [⟨p, String.ofList rest⟩] ∧ qs.length = scan.tokens.length ∧
              ∃ d, Decision.of options (host qs ⟨p, String.ofList rest⟩) (.ofList rest) = .ok d ∧
                d.emission = none) := by
  obtain ⟨scan, hrun, hcourse⟩ := Scan.exists_course options text host fits
  obtain ⟨read, rest, hend⟩ := hcourse.exists_endsAt fits
  have hread : Fits read := by
    rw [show text.toList = read ++ rest from hend.split] at fits
    exact fits.left
  have hle := hend.tiles.length_le
  cases hs : scan.stuck with
  | none =>
    obtain ⟨hrest, hlen⟩ := hend.finished hs
    have hnone : rest.filter (fun c => !isBlank c) = [] :=
      List.filter_eq_nil_iff.2 fun c hc => by simp [List.all_eq_true.1 hrest c hc]
    refine ⟨_, hrun, by show scan.queries.length ≤ _; omega, read, rest, hend.split, hend.tiles, .inl ⟨?_, hrest, ?_⟩⟩
    · simp only [Scan.result, hs]
    · rw [hend.tiles.filter_eq, hnone, List.append_nil]
  | some p =>
    obtain ⟨rfl, hrest, qs, hqs, hlen, hdecline⟩ := hend.stuck p hs
    have hpos : 0 < (rest.filter (fun c => !isBlank c)).length := by
      obtain ⟨c, hc, hb⟩ := List.all_eq_false.1 hrest
      exact List.length_pos_of_mem (List.mem_filter.2 ⟨hc, by simpa using hb⟩)
    refine ⟨_, hrun, ?_, read, rest, hend.split, hend.tiles, .inr ⟨.past read, ?_, Position.start_through hread,
      hend.place, hrest, qs, hqs, hlen, _, Decision.of_eq_reading (Lookahead.shows_ofList rest) options _, hdecline⟩⟩
    · show scan.queries.length ≤ _
      rw [hqs, List.length_append, List.length_singleton]
      omega
    · simp only [Scan.result, hs]

/-- A text with two characters that are no blanks, one of them outside ASCII, and a host that changes its answer. -/
theorem scan_tiles_accented : ∃ scan,
    Scan.of {} " ;\té" (fun asked _ => if asked.isEmpty then .singleton .semicolon else .all) = .ok scan ∧
      scan.queries.length ≤ 2 ∧ ∃ rest, Tiles [] " ;\té".toList scan.tokens rest := by
  obtain ⟨scan, hrun, hle, read, rest, -, htiles, -⟩ := scan_tiles {} " ;\té"
    (fun asked _ => if asked.isEmpty then .singleton .semicolon else .all) (by decide)
  exact ⟨scan, hrun, hle, rest, htiles⟩

end ContextScan
