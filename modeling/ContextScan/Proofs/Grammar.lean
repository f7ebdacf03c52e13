import ContextScan.Proofs.Form
import ContextScan.Proofs.Reading
/-!
# Proofs.Grammar — the token grammar without an order of guards

A token has a form, which the text alone decides (`Form`), and needs the candidates' consent (`Candidates.Admits`): the
set must support the kind, and must not hold a rival that claims the same first character.  There are two such claims,
that of a named parameter on the equals sign and that of a byte string on the letter b.  Neither part mentions an order
in which guards are asked, and `Decision.reading_emission_iff` says that a request emits exactly what the two parts
allow.
-/
namespace ContextScan

namespace Candidates

/-- **A set supports a kind** that it holds.  A line ending is supported by whatever calls for a terminator, unless the
set holds line endings themselves, or a command would end before a blank line. -/
def Supports (set : Candidates) (cs : List Char) : Kind → Prop
  | .newline =>
    (∃ k, k ∈ terminatorTriggers ∧ k ∈ set) ∧ .newline ∉ set ∧ ¬(.multilineCmdSentinel ∈ set ∧ BlankLine cs.tail)
  | k => k ∈ set

/-- **A rival of a kind** claims the kind's first character for itself. -/
def HasRival (set : Candidates) (cs : List Char) : Kind → Prop
  | .envEqual => .namedParamEq ∈ set
  | .envVarName | .constDeclVar => .byteStringMarker ∈ set ∧ cs.head? = some 'b'
  | _ => False

/-- **What a set says about a form**, for a token at the front of `cs`. -/
def Admits (set : Candidates) (cs : List Char) (k : Kind) : Prop := set.Supports cs k ∧ ¬set.HasRival cs k

end Candidates

/-! ## Each guard by itself -/

/-- The guard that watches for a kind; no guard watches for a sentinel. -/
def Kind.guard : Kind → Option Guard
  | dollarExpansion => some .dollarExpansion
  | hatExpansion => some .hatExpansion
  | envVarName | constDeclVar => some .declaration
  | envEqual => some .envEqual
  | comma | semicolon | closeParen | closeBrace | closeBracket | closingList => some .punctuation
  | namedParamEq => some .namedParamEq
  | byteStringMarker => some .byteString
  | newline => some .terminator
  | terminatorSentinel | statementSentinel | multilineCmdSentinel | commaSentinel | errorSentinel => none

theorem PunctuationMark.guard {c : Char} {k : Kind} (h : PunctuationMark c k) : k.guard = some .punctuation := by
  rcases h.cases with ⟨-, rfl⟩ | ⟨-, rfl⟩ | ⟨-, rfl⟩ | ⟨-, rfl⟩ | ⟨-, rfl⟩ | ⟨-, rfl⟩ <;> rfl

theorem Form.exists_guard {options : Options} {cs : List Char} {k : Kind} {n : Nat} (h : Form options k n cs) :
    ∃ g, k.guard = some g := by
  cases h with
  | punctuation r h => exact ⟨_, h.guard⟩
  | _ => exact ⟨_, rfl⟩

namespace Guard

variable {rules : Rules} {options : Options} {set : Candidates} {cs : List Char} {k : Kind} {n : Nat}

theorem ite_pass_eq_emit_iff {b : Bool} {v : Verdict} :
    (if b then v else .pass) = .emit k n ↔ b = true ∧ v = .emit k n := by
  cases b <;> simp

theorem emitIf_eq_emit_iff {b : Bool} {j : Kind} {m : Nat} :
    Verdict.emitIf b j m = .emit k n ↔ b = true ∧ j = k ∧ m = n := by
  cases b <;> simp [Verdict.emitIf]

theorem terminator_reading_iff : terminator.reading rules options set cs = .emit k n ↔
    k.guard = some terminator ∧ set.Supports cs k ∧ Form options k n cs := by
  have hblank : set.contains .multilineCmdSentinel && (cs.tail.dropWhile isBlank).head? == some '\n' ↔
      .multilineCmdSentinel ∈ set ∧ BlankLine cs.tail := by
    rw [Bool.and_eq_true, beq_iff_eq, blankLine_iff]
    rfl
  have htrigger : set.meets .terminatorTriggers = true ↔ ∃ k, k ∈ Candidates.terminatorTriggers ∧ k ∈ set :=
    Candidates.meets_ofList_iff
  simp only [reading]
  rw [ite_pass_eq_emit_iff]
  constructor
  · rintro ⟨hc, h⟩
    obtain ⟨hon, r, rfl⟩ := and_head?_iff.1 hc
    simp only [Bool.and_eq_true, Bool.not_eq_true'] at hon
    obtain ⟨hmeets, hnl⟩ := hon
    split at h
    · cases h
    · rename_i hb
      cases h
      refine ⟨rfl, ⟨htrigger.1 hmeets, ?_, fun hm => hb (hblank.2 hm)⟩, .newline r⟩
      rw [Candidates.mem_iff, hnl]
      exact Bool.false_ne_true
  · rintro ⟨hk, hs, hf⟩
    cases hf with
    | newline r =>
      obtain ⟨hm, hnl, hb⟩ := hs
      rw [if_neg (fun h => hb (hblank.1 h))]
      simpa [htrigger.2 hm, Candidates.mem_iff] using hnl
    | punctuation r h => rw [h.guard] at hk; cases hk
    | _ => cases hk

theorem punctuation_reading_iff : punctuation.reading .standard options set cs = .emit k n ↔
    k.guard = some punctuation ∧ set.Supports cs k ∧ Form options k n cs := by
  simp only [reading, punctuationVerdict]
  constructor
  · intro h
    split at h
    · rename_i e he
      cases h
      have hmem : PunctuationMark e.1 e.2 := List.mem_of_find?_eq_some he
      have hc := List.find?_some he
      simp only [Bool.and_eq_true, beq_iff_eq] at hc
      obtain ⟨r, rfl⟩ := List.head?_eq_some_iff.1 hc.2
      refine ⟨hmem.guard, ?_, .punctuation r hmem⟩
      rcases hmem.cases with ⟨-, hk⟩ | ⟨-, hk⟩ | ⟨-, hk⟩ | ⟨-, hk⟩ | ⟨-, hk⟩ | ⟨-, hk⟩ <;>
        rw [hk] at hc ⊢ <;> exact hc.1
    · cases h
  · rintro ⟨hk, hs, hf⟩
    cases hf with
    | punctuation r h =>
      rcases h.cases with ⟨rfl, rfl⟩ | ⟨rfl, rfl⟩ | ⟨rfl, rfl⟩ | ⟨rfl, rfl⟩ | ⟨rfl, rfl⟩ | ⟨rfl, rfl⟩ <;>
        simp [Rules.standard, Candidates.mem_iff.1 hs]
    | _ => cases hk

theorem namedParamEq_reading_iff : namedParamEq.reading rules options set cs = .emit k n ↔
    k.guard = some namedParamEq ∧ set.Supports cs k ∧ Form options k n cs := by
  simp only [reading]
  rw [ite_pass_eq_emit_iff, emitIf_eq_emit_iff]
  constructor
  · rintro ⟨hc, hne, rfl, rfl⟩
    obtain ⟨hon, r, rfl⟩ := and_head?_iff.1 hc
    exact ⟨rfl, hon, .namedParamEq (by simpa using hne)⟩
  · rintro ⟨hk, hs, hf⟩
    cases hf with
    | namedParamEq h => simpa [Candidates.mem_iff.1 hs] using h
    | punctuation r h => rw [h.guard] at hk; cases hk
    | _ => cases hk

theorem dollarExpansion_reading_iff : dollarExpansion.reading rules options set cs = .emit k n ↔
    k.guard = some dollarExpansion ∧ set.Supports cs k ∧ Form options k n cs := by
  simp only [reading]
  rw [ite_pass_eq_emit_iff]
  constructor
  · rintro ⟨hc, h⟩
    obtain ⟨hon, r, rfl⟩ := and_head?_iff.1 hc
    cases r with
    | nil => cases h
    | cons c r =>
      simp only [List.tail_cons] at h
      split at h
      · rename_i hid
        cases h
        exact ⟨rfl, hon, .dollarName r hid⟩
      · split at h
        · rename_i hsp
          obtain ⟨hr, rfl, rfl⟩ := emitIf_eq_emit_iff.1 h
          exact ⟨rfl, hon, .dollarSpecial (by simpa [isSpecialVariable, or_assoc] using hsp)
            ((Option.any_eq_false _ _).1 (by simpa using hr))⟩
        · obtain ⟨hop, rfl, rfl⟩ := emitIf_eq_emit_iff.1 h
          exact ⟨rfl, hon, .dollarOpener r (by simpa [isExpansionOpener, or_assoc] using hop)⟩
  · rintro ⟨hk, hs, hf⟩
    cases hf with
    | dollarName r h => simp [Candidates.mem_iff.1 hs, h]
    | @dollarSpecial c r h hr =>
      have hcs : ∀ c ∈ ['*', '?', '#', '@'], isIdentChar c = false ∧ isSpecialVariable c = true := by
        simp only [List.forall_mem_cons, List.not_mem_nil, false_implies, implies_true, and_true]
        decide
      obtain ⟨hid, hsp⟩ := hcs c h
      have hany : r.head?.any isIdentChar = false := (Option.any_eq_false _ _).2 hr
      simp [Candidates.mem_iff.1 hs, hid, hsp, hany, Verdict.emitIf]
    | @dollarOpener c r h =>
      have hcs : ∀ c ∈ ['\x7b', '[', '('],
          isIdentChar c = false ∧ isSpecialVariable c = false ∧ isExpansionOpener c = true := by
        simp only [List.forall_mem_cons, List.not_mem_nil, false_implies, implies_true, and_true]
        decide
      obtain ⟨hid, hsp, hop⟩ := hcs c h
      simp [Candidates.mem_iff.1 hs, hid, hsp, hop, Verdict.emitIf]
    | punctuation r h => rw [h.guard] at hk; cases hk
    | _ => cases hk

theorem hatExpansion_reading_iff : hatExpansion.reading rules options set cs = .emit k n ↔
    k.guard = some hatExpansion ∧ set.Supports cs k ∧ Form options k n cs := by
  simp only [reading]
  rw [ite_pass_eq_emit_iff, emitIf_eq_emit_iff]
  constructor
  · rintro ⟨hc, hnext, rfl, rfl⟩
    obtain ⟨hon, r, rfl⟩ := and_head?_iff.1 hc
    obtain ⟨c, hr, hc'⟩ := (Option.any_eq_true _ _).1 hnext
    obtain ⟨r, rfl⟩ := List.head?_eq_some_iff.1 hr
    exact ⟨rfl, hon, .hatExpansion r (by simpa [or_assoc] using hc')⟩
  · rintro ⟨hk, hs, hf⟩
    cases hf with
    | hatExpansion r h => simpa [Candidates.mem_iff.1 hs, or_assoc] using h
    | punctuation r h => rw [h.guard] at hk; cases hk
    | _ => cases hk

theorem byteString_reading_iff : byteString.reading rules options set cs = .emit k n ↔
    k.guard = some byteString ∧ set.Supports cs k ∧ Form options k n cs := by
  simp only [reading]
  rw [ite_pass_eq_emit_iff, emitIf_eq_emit_iff]
  constructor
  · rintro ⟨hc, hnext, rfl, rfl⟩
    obtain ⟨hon, r, rfl⟩ := and_head?_iff.1 hc
    obtain ⟨r, rfl⟩ := List.head?_eq_some_iff.1 (beq_iff_eq.1 hnext)
    exact ⟨rfl, hon, .byteString r⟩
  · rintro ⟨hk, hs, hf⟩
    cases hf with
    | byteString r => simp [Candidates.mem_iff.1 hs]
    | punctuation r h => rw [h.guard] at hk; cases hk
    | _ => cases hk

theorem envEqual_reading_iff : envEqual.reading rules options set cs = .emit k n ↔
    k.guard = some envEqual ∧ set.Supports cs k ∧ Form options k n cs := by
  simp only [reading]
  rw [ite_pass_eq_emit_iff, emitIf_eq_emit_iff]
  constructor
  · rintro ⟨hc, hnext, rfl, rfl⟩
    obtain ⟨hon, r, rfl⟩ := and_head?_iff.1 hc
    exact ⟨rfl, hon, .envEqual ((Option.any_eq_false _ _).1 (by simpa using hnext))⟩
  · rintro ⟨hk, hs, hf⟩
    cases hf with
    | @envEqual r h =>
      have hany : r.head?.any isBlank = false := (Option.any_eq_false _ _).2 h
      simp [Candidates.mem_iff.1 hs, hany]
    | punctuation r h => rw [h.guard] at hk; cases hk
    | _ => cases hk

theorem bindsSpaced_iff : bindsSpaced cs = true ↔ ∃ b r, cs = '=' :: b :: r ∧ isBlank b = true := by
  constructor
  · intro h
    unfold bindsSpaced at h
    split at h
    · exact ⟨_, _, rfl, h⟩
    · cases h
  · rintro ⟨b, r, rfl, hb⟩
    exact hb

/-- **What stands between a name and its value**, if blanks do. -/
theorem exists_spaced_equals (hblank : cs.head?.any isBlank = true)
    (hspaced : bindsSpaced (cs.dropWhile isBlank) = true) :
    ∃ gap b r, cs = gap ++ '=' :: b :: r ∧ gap ≠ [] ∧ (∀ c ∈ gap, isBlank c = true) ∧ isBlank b = true := by
  obtain ⟨b, r, hrest, hb⟩ := bindsSpaced_iff.1 hspaced
  obtain ⟨d, hd, hdb⟩ := (Option.any_eq_true _ _).1 hblank
  obtain ⟨cs, rfl⟩ := List.head?_eq_some_iff.1 hd
  refine ⟨(d :: cs).takeWhile isBlank, b, r, ?_, ?_, fun c hc => List.mem_takeWhile_imp hc, hb⟩
  · rw [← hrest, List.takeWhile_append_dropWhile]
  · rw [List.takeWhile_cons_of_pos hdb]
    exact List.cons_ne_nil _ _

theorem exists_name (h : cs.head?.any isIdentStart = true) :
    IsName (cs.takeWhile isIdentChar) ∧ cs = cs.takeWhile isIdentChar ++ cs.dropWhile isIdentChar := by
  obtain ⟨c, hc, hstart⟩ := (Option.any_eq_true _ _).1 h
  obtain ⟨r, rfl⟩ := List.head?_eq_some_iff.1 hc
  exact ⟨isName_takeWhile hstart, List.takeWhile_append_dropWhile.symm⟩

theorem name_append {name : List Char} {y : Char} (ys : List Char) (h : IsName name) (hy : isIdentChar y = false) :
    (name ++ y :: ys).head?.any isIdentStart = true ∧ (name ++ y :: ys).takeWhile isIdentChar = name ∧
      (name ++ y :: ys).dropWhile isIdentChar = y :: ys := by
  refine ⟨?_, takeWhile_append_cons h.isIdentChar hy, dropWhile_append_cons h.isIdentChar hy⟩
  obtain ⟨c, r, rfl, hc, -⟩ := h
  exact hc

theorem declaration_reading_iff : declaration.reading rules options set cs = .emit k n ↔
    k.guard = some declaration ∧ set.Supports cs k ∧ Form options k n cs := by
  simp only [reading]
  rw [ite_pass_eq_emit_iff]
  constructor
  · rintro ⟨hc, h⟩
    simp only [Bool.and_eq_true] at hc
    obtain ⟨hname, hcs⟩ := exists_name hc.2
    generalize hw : cs.takeWhile isIdentChar = name at *
    generalize hr : cs.dropWhile isIdentChar = after at *
    subst hcs
    split at h
    · rename_i he
      simp only [Bool.and_eq_true, beq_iff_eq] at he
      obtain ⟨r, rfl⟩ := List.head?_eq_some_iff.1 he.2
      cases h
      exact ⟨rfl, he.1, .envVarName r hname⟩
    · split at h
      · rename_i hb
        simp only [Bool.and_eq_true] at hb
        obtain ⟨hspaced, rfl, rfl⟩ := emitIf_eq_emit_iff.1 h
        obtain ⟨gap, b, r, rfl, hne, hgap, hblank⟩ := exists_spaced_equals hb.2 hspaced
        rw [← List.append_assoc]
        exact ⟨rfl, hb.1, .constDeclVar r hname hne hgap hblank⟩
      · cases h
  · rintro ⟨hk, hs, hf⟩
    cases hf with
    | @envVarName name r h =>
      obtain ⟨hstart, hw, hr⟩ := name_append r h (by decide : isIdentChar '=' = false)
      rw [hstart, hw, hr]
      simp [Candidates.mem_iff.1 hs]
    | @constDeclVar name gap b r h hg hgap hb =>
      obtain ⟨g, gs, rfl⟩ := List.exists_cons_of_ne_nil hg
      have hgb := hgap g List.mem_cons_self
      obtain ⟨hstart, hw, hr⟩ := name_append (gs ++ '=' :: b :: r) h (isIdentChar_eq_false_of_isBlank hgb)
      have hspaced : (g :: (gs ++ '=' :: b :: r)).dropWhile isBlank = '=' :: b :: r :=
        dropWhile_append_cons hgap (by decide)
      have hne : g ≠ '=' := by
        rintro rfl
        exact absurd hgb (by decide)
      rw [List.append_assoc, List.cons_append, hstart, hw, hr, hspaced]
      simp [hne, hgb, Candidates.mem_iff.1 hs, bindsSpaced, hb, Verdict.emitIf]
    | punctuation r h => rw [h.guard] at hk; cases hk
    | _ => cases hk

/-- **A guard emits what the candidates support and the text has the form of.** -/
theorem reading_eq_emit_iff {g : Guard} : g.reading .standard options set cs = .emit k n ↔
    k.guard = some g ∧ set.Supports cs k ∧ Form options k n cs := by
  cases g with
  | terminator => exact terminator_reading_iff
  | punctuation => exact punctuation_reading_iff
  | namedParamEq => exact namedParamEq_reading_iff
  | dollarExpansion => exact dollarExpansion_reading_iff
  | hatExpansion => exact hatExpansion_reading_iff
  | byteString => exact byteString_reading_iff
  | envEqual => exact envEqual_reading_iff
  | declaration => exact declaration_reading_iff

/-! ## The guards together -/

/-- Whether the candidates and the first character call for a guard. -/
def triggered (rules : Rules) (set : Candidates) (first : Option Char) : Guard → Bool
  | terminator => set.meets .terminatorTriggers && !set.contains .newline && first == some '\n'
  | punctuation => rules.punctuation.any fun entry => set.contains entry.2 && first == some entry.1
  | namedParamEq => set.contains .namedParamEq && first == some '='
  | dollarExpansion => set.contains .dollarExpansion && first == some '$'
  | hatExpansion => set.contains .hatExpansion && first == some '@'
  | byteString => set.contains .byteStringMarker && first == some 'b'
  | envEqual => set.contains .envEqual && first == some '='
  | declaration => (set.contains .envVarName || set.contains .constDeclVar) && first.any isIdentStart

theorem ite_pass_eq_pass_iff {b : Bool} {v : Verdict} (hv : v ≠ .pass) :
    (if b then v else .pass) = .pass ↔ b = false := by
  cases b <;> simp [hv]

theorem emitIf_ne_pass {b : Bool} : Verdict.emitIf b k n ≠ .pass := by cases b <;> simp [Verdict.emitIf]

/-- **A guard passes exactly when it is not called for.** -/
theorem reading_eq_pass_iff {g : Guard} :
    g.reading rules options set cs = .pass ↔ g.triggered rules set cs.head? = false := by
  cases g with
  | terminator =>
    apply ite_pass_eq_pass_iff
    split <;> simp
  | punctuation =>
    simp only [reading, punctuationVerdict, triggered]
    rw [List.any_eq_false]
    split
    · rename_i e he
      simp only [reduceCtorEq, false_iff]
      intro h
      exact absurd (List.find?_some he) (h e (List.mem_of_find?_eq_some he))
    · rename_i he
      simpa using List.find?_eq_none.1 he
  | dollarExpansion =>
    apply ite_pass_eq_pass_iff
    split
    · simp
    · split
      · simp
      · split <;> exact emitIf_ne_pass
  | declaration =>
    apply ite_pass_eq_pass_iff
    split
    · simp
    · split
      · exact emitIf_ne_pass
      · simp
  | namedParamEq => exact ite_pass_eq_pass_iff emitIf_ne_pass
  | hatExpansion => exact ite_pass_eq_pass_iff emitIf_ne_pass
  | byteString => exact ite_pass_eq_pass_iff emitIf_ne_pass
  | envEqual => exact ite_pass_eq_pass_iff emitIf_ne_pass

theorem triggered_of_reading_eq_emit {g : Guard} (h : g.reading rules options set cs = .emit k n) :
    g.triggered rules set cs.head? = true := by
  have hpass : g.reading rules options set cs ≠ .pass := by
    rw [h]
    exact nofun
  rw [ne_eq, reading_eq_pass_iff] at hpass
  exact eq_true_of_ne_false hpass

/-- The guards that watch for a character, first asked first. -/
def watching (c : Char) : List Guard :=
  if c = '\n' then [terminator]
  else if c ∈ [',', ';', ')', '\x7d', ']', '|'] then [punctuation]
  else if c = '=' then [namedParamEq, envEqual]
  else if c = '$' then [dollarExpansion]
  else if c = '@' then [hatExpansion]
  else if c = 'b' then [byteString, declaration]
  else [declaration]

theorem mem_watching {g : Guard} {c : Char} (h : g.triggered .standard set (some c) = true) : g ∈ watching c := by
  cases g with
  | punctuation =>
    simp only [triggered, Rules.standard, List.any_cons, List.any_nil, Bool.or_eq_true, Bool.and_eq_true, beq_iff_eq,
      Option.some.injEq, Bool.false_eq_true, or_false] at h
    rcases h with ⟨-, rfl⟩ | ⟨-, rfl⟩ | ⟨-, rfl⟩ | ⟨-, rfl⟩ | ⟨-, rfl⟩ | ⟨-, rfl⟩ <;> decide
  | declaration =>
    simp only [triggered, Bool.and_eq_true, Option.any_some] at h
    have hne : ∀ d, isIdentStart d = false → c ≠ d := by
      rintro d hd rfl
      rw [hd] at h
      cases h.2
    have hmarks : ∀ d ∈ [',', ';', ')', '\x7d', ']', '|'], isIdentStart d = false := by
      simp only [List.forall_mem_cons, List.not_mem_nil, false_implies, implies_true, and_true]
      decide
    have hmark : c ∉ [',', ';', ')', '\x7d', ']', '|'] := fun hc => hne c (hmarks c hc) rfl
    rw [watching, if_neg (hne '\n' (by decide)), if_neg hmark, if_neg (hne '=' (by decide)),
      if_neg (hne '$' (by decide)), if_neg (hne '@' (by decide))]
    split <;> decide
  | _ =>
    simp only [triggered, Bool.and_eq_true, beq_iff_eq, Option.some.injEq] at h
    rw [h.2]
    decide

/-- The guard that is asked first about a guard's own character. -/
def rival : Guard → Option Guard
  | envEqual => some namedParamEq
  | declaration => some byteString
  | _ => none

theorem rival_of_watching {g g' : Guard} {c : Char} (h : g ∈ watching c) (h' : g' ∈ watching c) :
    g = g' ∨ g.rival = some g' ∨ g'.rival = some g := by
  have hpairs : ∀ gs ∈ [[terminator], [punctuation], [namedParamEq, envEqual], [dollarExpansion], [hatExpansion],
      [byteString, declaration], [declaration]], ∀ g ∈ gs, ∀ g' ∈ gs,
      g = g' ∨ g.rival = some g' ∨ g'.rival = some g := by decide
  refine hpairs (watching c) ?_ g h g' h'
  unfold watching
  repeat' split
  all_goals decide

/-- **Two guards are called for together only if one is the other's rival.** -/
theorem rival_of_triggered {g g' : Guard} {first : Option Char} (h : g.triggered .standard set first = true)
    (h' : g'.triggered .standard set first = true) : g = g' ∨ g.rival = some g' ∨ g'.rival = some g := by
  cases first with
  | none => cases g <;> simp [triggered] at h
  | some c => exact rival_of_watching (mem_watching h) (mem_watching h')

end Guard

/-- A guard that does not pass decides once every guard before it passes. -/
theorem firstReading_eq_of_before {read : Guard → Verdict} {g : Guard} (hg : read g ≠ .pass) :
    ∀ {gs : List Guard}, g ∈ gs → (∀ g' ∈ gs.takeWhile (· ≠ g), read g' = .pass) → firstReading read gs = read g
  | g₀ :: gs, hmem, hbefore => by
    by_cases h0 : g₀ = g
    · subst h0
      rw [firstReading]
      split
      · rename_i hpass
        exact absurd hpass hg
      · rfl
    · rw [List.takeWhile_cons_of_pos (by simpa using h0)] at hbefore
      rw [firstReading, hbefore g₀ List.mem_cons_self]
      exact firstReading_eq_of_before hg ((List.mem_cons.1 hmem).resolve_left (Ne.symm h0))
        fun g' hg' => hbefore g' (List.mem_cons_of_mem _ hg')

theorem exists_of_firstReading {read : Guard → Verdict} {v : Verdict} (hv : v ≠ .pass) :
    ∀ {gs : List Guard}, firstReading read gs = v → ∃ g ∈ gs, read g = v
  | [], h => absurd h.symm hv
  | g :: gs, h => by
    rw [firstReading] at h
    split at h
    · obtain ⟨g', hg', hr⟩ := exists_of_firstReading hv h
      exact ⟨g', List.mem_cons_of_mem _ hg', hr⟩
    · exact ⟨g, List.mem_cons_self, h⟩

namespace Rules

variable {options : Options} {set : Candidates} {cs : List Char} {k : Kind} {n : Nat}

theorem mem_standard_guards (g : Guard) : g ∈ standard.guards := by cases g <;> decide

/-- **In the order of the grammar, a guard that is called for decides unless its rival is called for too.** -/
theorem standard_reading_of_triggered {g : Guard} (h : g.triggered standard set cs.head? = true)
    (hr : ∀ g', g.rival = some g' → g'.triggered standard set cs.head? = false) :
    standard.reading options set cs = g.reading standard options set cs := by
  have hg : g.reading standard options set cs ≠ .pass := by
    rw [ne_eq, Guard.reading_eq_pass_iff, h]
    exact Bool.noConfusion
  refine firstReading_eq_of_before hg (mem_standard_guards g) fun g' hg' => ?_
  have hne : g' ≠ g := by simpa using List.mem_takeWhile_imp hg'
  have hlater : g'.rival ≠ some g := by
    have hall : ∀ g' ∈ standard.guards.takeWhile (· ≠ g), g'.rival ≠ some g := by cases g <;> decide
    exact hall g' hg'
  rw [Guard.reading_eq_pass_iff, Bool.eq_false_iff]
  intro ht
  rcases Guard.rival_of_triggered h ht with rfl | hrival | hrival
  · exact hne rfl
  · rw [hr g' hrival] at ht
    cases ht
  · exact hlater hrival

theorem hasRival_iff {g : Guard} (hf : Form options k n cs) (hg : k.guard = some g) :
    set.HasRival cs k ↔ ∃ g', g.rival = some g' ∧ g'.triggered standard set cs.head? = true := by
  cases hf with
  | punctuation r h =>
    rw [h.guard] at hg
    cases hg
    rcases h.cases with ⟨-, rfl⟩ | ⟨-, rfl⟩ | ⟨-, rfl⟩ | ⟨-, rfl⟩ | ⟨-, rfl⟩ | ⟨-, rfl⟩ <;>
      simp [Candidates.HasRival, Guard.rival]
  | _ =>
    cases hg
    simp [Candidates.HasRival, Guard.rival, Guard.triggered, Candidates.mem_iff]

/-- **The guards together emit what the candidates admit and the text has the form of.** -/
theorem standard_reading_eq_emit_iff :
    standard.reading options set cs = .emit k n ↔ set.Admits cs k ∧ Form options k n cs := by
  constructor
  · intro h
    obtain ⟨g, -, hg⟩ := exists_of_firstReading (v := .emit k n) nofun h
    obtain ⟨hk, hs, hf⟩ := Guard.reading_eq_emit_iff.1 hg
    refine ⟨⟨hs, fun hrival => ?_⟩, hf⟩
    -- The rival would have decided, and for a kind of its own.
    obtain ⟨g', hg', ht⟩ := (hasRival_iff hf hk).1 hrival
    have hnone : ∀ g'', g'.rival = some g'' → g''.triggered standard set cs.head? = false := by
      intro g'' hg''
      cases g <;> cases hg' <;> cases hg''
    rw [standard_reading_of_triggered ht hnone, Guard.reading_eq_emit_iff, hk, Option.some.injEq] at h
    rw [← h.1] at hg'
    cases g <;> cases hg'
  · rintro ⟨⟨hs, hr⟩, hf⟩
    obtain ⟨g, hk⟩ : ∃ g, k.guard = some g := hf.exists_guard
    have hg : g.reading standard options set cs = .emit k n := Guard.reading_eq_emit_iff.2 ⟨hk, hs, hf⟩
    rw [standard_reading_of_triggered (Guard.triggered_of_reading_eq_emit hg), hg]
    intro g' hg'
    rw [Bool.eq_false_iff]
    exact fun ht => hr ((hasRival_iff hf hk).2 ⟨g', hg', ht⟩)

end Rules

/-! ## Two forms of one text -/

def Candidates.everyToken : Candidates :=
  .ofList [.dollarExpansion, .hatExpansion, .envVarName, .envEqual, .constDeclVar, .comma, .semicolon, .closeParen,
    .closeBrace, .closeBracket, .closingList, .namedParamEq, .byteStringMarker, .terminatorSentinel]

theorem Candidates.supports_everyToken {k : Kind} {g : Guard} (h : k.guard = some g) (cs : List Char) :
    everyToken.Supports cs k := by
  cases k with
  | newline => exact ⟨⟨.terminatorSentinel, by decide, by decide⟩, by decide, fun hm => absurd hm.1 (by decide)⟩
  | _ => first | exact mem_ofList.2 (by decide) | cases h

/-- No name that is being bound starts a byte string. -/
theorem not_form_declaration_of_quote {options : Options} {k : Kind} {n : Nat} {r : List Char}
    (hk : k.guard = some .declaration) : ¬Form options k n ('b' :: '\'' :: r) := by
  have hrest : ('b' :: '\'' :: r).dropWhile isIdentChar = '\'' :: r := rfl
  intro h
  generalize hcs : 'b' :: '\'' :: r = cs at h hrest
  cases h with
  | envVarName r' h =>
    rw [dropWhile_append_cons h.isIdentChar (by decide)] at hrest
    cases hrest
  | @constDeclVar name gap b r' h hg hgap hb =>
    obtain ⟨g, gs, rfl⟩ := List.exists_cons_of_ne_nil hg
    have hgb := hgap g List.mem_cons_self
    rw [List.append_assoc, List.cons_append,
      dropWhile_append_cons h.isIdentChar (isIdentChar_eq_false_of_isBlank hgb)] at hrest
    cases hrest
    cases hgb
  | punctuation r' h =>
    rw [h.guard] at hk
    cases hk
  | _ => cases hk

theorem Form.of_equals {options : Options} {cs : List Char} {k : Kind} {n : Nat} (h : Form options k n cs)
    (hk : k = .envEqual ∨ k = .namedParamEq) : n = 1 ∧ cs.head? = some '=' := by
  cases h with
  | envEqual => exact ⟨rfl, rfl⟩
  | namedParamEq => exact ⟨rfl, rfl⟩
  | punctuation r hm => rcases hk with rfl | rfl <;> cases hm.guard
  | _ => rcases hk with hk | hk <;> cases hk

theorem Form.equals_of_rival {options : Options} {cs : List Char} {k k' : Kind} {n n' : Nat} {g g' : Guard}
    (h : Form options k n cs) (h' : Form options k' n' cs) (hg : k.guard = some g) (hg' : k'.guard = some g')
    (hr : g.rival = some g') : n = n' ∧ k = .envEqual ∧ k' = .namedParamEq := by
  cases g with
  | envEqual =>
    cases hr
    have hk : k = .envEqual := by cases k <;> first | rfl | cases hg
    have hk' : k' = .namedParamEq := by cases k' <;> first | rfl | cases hg'
    exact ⟨(h.of_equals (.inl hk)).1.trans (h'.of_equals (.inr hk')).1.symm, hk, hk'⟩
  | declaration =>
    cases hr
    have hk' : k' = .byteStringMarker := by cases k' <;> first | rfl | cases hg'
    subst hk'
    cases h' with
    | punctuation r hm => cases hm.guard
    | byteString r => exact absurd h (not_form_declaration_of_quote hg)
  | _ => cases hr

/-- **Two tokens at the front of one text** have the same length, and the same kind unless they are the two equals
signs. -/
theorem Form.agree {options : Options} {cs : List Char} {k k' : Kind} {n n' : Nat} (h : Form options k n cs)
    (h' : Form options k' n' cs) :
    n = n' ∧ (k = k' ∨ k = .envEqual ∧ k' = .namedParamEq ∨ k = .namedParamEq ∧ k' = .envEqual) := by
  obtain ⟨g, hg⟩ := h.exists_guard
  obtain ⟨g', hg'⟩ := h'.exists_guard
  have hr := Guard.reading_eq_emit_iff.2 ⟨hg, Candidates.supports_everyToken hg cs, h⟩
  have hr' := Guard.reading_eq_emit_iff.2 ⟨hg', Candidates.supports_everyToken hg' cs, h'⟩
  rcases Guard.rival_of_triggered (Guard.triggered_of_reading_eq_emit hr) (Guard.triggered_of_reading_eq_emit hr') with
    rfl | hrival | hrival
  · rw [hr, Verdict.emit.injEq] at hr'
    exact ⟨hr'.2, .inl hr'.1⟩
  · obtain ⟨hn, hk, hk'⟩ := h.equals_of_rival h' hg hg' hrival
    exact ⟨hn, .inr (.inl ⟨hk, hk'⟩)⟩
  · obtain ⟨hn, hk, hk'⟩ := h'.equals_of_rival h hg' hg hrival
    exact ⟨hn.symm, .inr (.inr ⟨hk', hk⟩)⟩

namespace Decision

variable {options : Options} {set : Candidates} {cs : List Char}

theorem ofVerdict_emission_iff {leading : Nat} {first : Option Char} {v : Verdict} {e : Emission} :
    (ofVerdict set leading first v).emission = some e ↔ e.leading = leading ∧ v = .emit e.kind e.length := by
  constructor
  · exact ofVerdict_emission
  · rintro ⟨rfl, rfl⟩
    rfl

/-- **A request emits exactly what the candidates admit and the text has the form of**, after the blanks. -/
theorem reading_emission_iff {e : Emission} : (reading options set cs).emission = some e ↔
    .errorSentinel ∉ set ∧ e.leading = (cs.takeWhile isBlank).length ∧ set.Admits (cs.dropWhile isBlank) e.kind ∧
      Form options e.kind e.length (cs.dropWhile isBlank) := by
  unfold reading
  split
  · rename_i herr
    exact ⟨nofun, fun h => absurd (Candidates.mem_iff.2 herr) h.1⟩
  · rename_i herr
    rw [ofVerdict_emission_iff, Rules.standard_reading_eq_emit_iff, Candidates.mem_iff, and_iff_right herr]

/-- **The text of an emission**: blanks, then the characters of the token, then the rest. -/
theorem exists_split {e : Emission} (h : (reading options set cs).emission = some e) :
    ∃ gap word rest, cs = gap ++ word ++ rest ∧ gap.length = e.leading ∧ word.length = e.length ∧
      (∀ c ∈ gap, isBlank c = true) ∧ word ≠ [] ∧ ∀ c ∈ word, isBlank c = false ∧ c.toNat < 128 := by
  obtain ⟨-, hl, -, hf⟩ := reading_emission_iff.1 h
  obtain ⟨word, rest, hw, hn, hne, hplain⟩ := hf.exists_word
  refine ⟨cs.takeWhile isBlank, word, rest, ?_, hl.symm, hn, fun c hc => List.mem_takeWhile_imp hc, hne, hplain⟩
  rw [List.append_assoc, ← hw, List.takeWhile_append_dropWhile]

end Decision

end ContextScan
