import ContextScan.Proofs.Exchange
import Mathlib.Data.List.Forall2
import Mathlib.Data.Option.Basic
/-!
# Proofs.Translation — a session has no memory

What a request brings depends on the text that is left, and on nothing that was requested before.  So a session in the
middle of its text answers like a fresh session over the rest of the text, with every place counted on from where the
rest begins (`Exchange.translate`); blanks at the front of the rest may be left out.  And a request that brought no token
may as well not have been made (`Exchange.thin`).

Counting on from a place adds indices and byte offsets, and lines less the one that both counts start with.  Columns add
up on the first line of the rest only; on later lines they are those of the rest (`Position.past_shifted`).
-/
namespace ContextScan

/-! ## Counting on from a place -/

/-- **One place counted twice**: `q` counts from where `p` stands, and `r` from where `p` counts. -/
structure Position.Shifted (p q r : Position) : Prop where
  index : r.index.toNat = p.index.toNat + q.index.toNat
  byteOffset : r.byteOffset.toNat = p.byteOffset.toNat + q.byteOffset.toNat
  line : r.line.toNat + 1 = p.line.toNat + q.line.toNat
  column_first : q.line = 1 → r.column.toNat + 1 = p.column.toNat + q.column.toNat
  column_later : q.line ≠ 1 → r.column = q.column

/-- **One token counted twice**, from where `p` stands and from where `p` counts. -/
structure Token.Shifted (p : Position) (t u : Token) : Prop where
  kind_eq : u.kind = t.kind
  text_eq : u.text = t.text
  start : p.Shifted t.span.start u.span.start
  stop : p.Shifted t.span.stop u.span.stop

theorem length_lastLine_of_count_eq_zero {cs : List Char} (h : cs.count '\n' = 0) :
    (cs.reverse.takeWhile (· ≠ '\n')).length = cs.length := by
  have := length_lastLine_append [] cs
  rwa [if_pos h, List.nil_append, List.reverse_nil, List.takeWhile_nil, List.length_nil, Nat.zero_add] at this

namespace Position

theorem line_past_eq_one_iff {cs : List Char} (h : Fits cs) : (past cs).line = 1 ↔ cs.count '\n' = 0 := by
  rw [← UInt64.toNat_inj, toNat_line_past h]
  show 1 + cs.count '\n' = 1 ↔ _
  omega

/-- **The position past a second part, counted on from the position past the first.** -/
theorem past_shifted {base cs : List Char} (fits : Fits (base ++ cs)) :
    (past base).Shifted (past cs) (past (base ++ cs)) := by
  have h := past_counts fits
  refine ⟨?_, ?_, ?_, fun hline => ?_, fun hline => ?_⟩
  · rw [h.index, toNat_index_past fits.right]
  · rw [h.byteOffset, toNat_byteOffset_past fits.right]
  · rw [h.line, toNat_line_past fits.right]
    omega
  · rw [line_past_eq_one_iff fits.right] at hline
    rw [h.column, if_pos hline, toNat_column_past fits.right, length_lastLine_of_count_eq_zero hline]
    omega
  · rw [ne_eq, line_past_eq_one_iff fits.right] at hline
    rw [← UInt64.toNat_inj, h.column, if_neg hline, toNat_column_past fits.right]

end Position

theorem Token.spelled_shifted {base before word : List Char} (k : Kind) (fits : Fits (base ++ before ++ word)) :
    Token.Shifted (.past base) (.spelled k before word) (.spelled k (base ++ before) word) := by
  refine ⟨rfl, rfl, Position.past_shifted fits.left, ?_⟩
  rw [List.append_assoc] at fits
  show (Position.past base).Shifted (.past (before ++ word)) (.past (base ++ before ++ word))
  rw [List.append_assoc]
  exact Position.past_shifted fits

/-! ## Blanks in front -/

theorem Decision.reading_append_emission {options : Options} {set : Candidates} {gap cs : List Char}
    (h : ∀ c ∈ gap, isBlank c = true) : (reading options set (gap ++ cs)).emission =
      (reading options set cs).emission.map fun e => { e with leading := gap.length + e.leading } := by
  unfold reading
  split
  · rfl
  · rw [List.takeWhile_append_of_pos h, List.dropWhile_append_of_pos h, List.length_append]
    generalize Rules.standard.reading options set (cs.dropWhile isBlank) = v
    cases v with
    | emit k n => rfl
    | reject why => cases why <;> rfl
    | pass => rfl

theorem Emission.Cuts.append {e : Emission} {left gap word rest blanks : List Char} (h : e.Cuts left gap word rest)
    (hblanks : ∀ c ∈ blanks, isBlank c = true) :
    Cuts { e with leading := blanks.length + e.leading } (blanks ++ left) (blanks ++ gap) word rest where
  eq := by
    rw [h.eq]
    simp only [List.append_assoc]
  leading := by rw [List.length_append, h.leading]
  length := h.length
  blank := List.forall_mem_append.2 ⟨hblanks, h.blank⟩
  ne_nil := h.ne_nil
  plain := h.plain

namespace Exchange

variable {options : Options} {done left done' left' : List Char} {sets : List Candidates} {ts : List (Option Token)}

/-- **An exchange over the rest of a text is one over the whole text, counted on from where the rest begins.**  The
rest may begin behind some blanks that the whole still has in front. -/
theorem translate (h : Exchange options done left sets ts done' left') : ∀ {base gap done₀ left₀ : List Char},
    done ++ gap = base ++ done₀ → left = gap ++ left₀ → (∀ c ∈ gap, isBlank c = true) → Fits (done ++ left) →
      ∃ us done₀' left₀', Exchange options done₀ left₀ sets us done₀' left₀' ∧
        List.Forall₂ (Option.Rel (Token.Shifted (.past base))) us ts := by
  induction h with
  | nil done left => exact fun {base gap done₀ left₀} _ _ _ _ => ⟨[], done₀, left₀, .nil done₀ left₀, .nil⟩
  | @declined done left _ _ set sets ts he hlater ih =>
    intro base gap done₀ left₀ hdone hleft hblank fits
    obtain ⟨us, done₀', left₀', hus, hshift⟩ := ih hdone hleft hblank fits
    rw [hleft, Decision.reading_append_emission hblank, Option.map_eq_none_iff] at he
    exact ⟨none :: us, done₀', left₀', .declined he hus, .cons .none hshift⟩
  | @token done left gap₁ word rest _ _ set sets ts e he hcut hlater ih =>
    intro base gap done₀ left₀ hdone hleft hblank fits
    subst hleft
    rw [Decision.reading_append_emission hblank, Option.map_eq_some_iff] at he
    obtain ⟨e₀, he₀, rfl⟩ := he
    obtain ⟨gap₀, word₀, rest₀, hcut₀⟩ := Decision.exists_cut he₀
    have hcut' := hcut₀.append hblank
    obtain ⟨rfl, rfl, rfl⟩ := hcut.unique hcut'.eq hcut'.leading hcut'.length
    -- From here on the two exchanges read the same text, so no blanks are left to make up for.
    have hplace : done ++ (gap ++ gap₀) = base ++ (done₀ ++ gap₀) := by
      rw [← List.append_assoc, hdone, List.append_assoc]
    have fits' : Fits (done ++ (gap ++ gap₀) ++ word ++ rest) := by
      rw [hcut.eq] at fits
      exact fits.assoc
    have hnext : done ++ (gap ++ gap₀) ++ word ++ [] = base ++ (done₀ ++ gap₀ ++ word) := by
      rw [List.append_nil, hplace]
      simp only [List.append_assoc]
    obtain ⟨us, done₀', left₀', hus, hshift⟩ := ih hnext rfl (List.forall_mem_nil _) fits'
    refine ⟨_, done₀', left₀', .token he₀ hcut₀ hus, .cons (.some ?_) hshift⟩
    rw [hplace] at fits' ⊢
    exact Token.spelled_shifted e₀.kind fits'.left

end Exchange

/-! ## Requests without a token -/

/-- **Leaving out requests that brought no token**, any number of them and anywhere. -/
inductive Thinned : List (Candidates × Option Token) → List (Candidates × Option Token) → Prop where
  | nil : Thinned [] []
  | keep {rs qs : List (Candidates × Option Token)} (r : Candidates × Option Token) (h : Thinned rs qs) :
      Thinned (r :: rs) (r :: qs)
  | drop {rs qs : List (Candidates × Option Token)} (set : Candidates) (h : Thinned rs qs) :
      Thinned ((set, none) :: rs) qs

/-- **The requests that are kept bring what they brought before.** -/
theorem Exchange.thin {options : Options} {done left done' left' : List Char} {sets : List Candidates}
    {ts : List (Option Token)} (h : Exchange options done left sets ts done' left') :
    ∀ {qs : List (Candidates × Option Token)}, Thinned (sets.zip ts) qs →
      Exchange options done left (qs.map Prod.fst) (qs.map Prod.snd) done' left' := by
  induction h with
  | nil done left =>
    intro qs hq
    cases hq
    exact .nil done left
  | declined he hlater ih =>
    intro qs hq
    rw [List.zip_cons_cons] at hq
    cases hq with
    | keep r hq => exact .declined he (ih hq)
    | drop set hq => exact ih hq
  | token he hcut hlater ih =>
    intro qs hq
    rw [List.zip_cons_cons] at hq
    cases hq with
    | keep r hq => exact .token he hcut (ih hq)

/-- **A session has no memory.**

Take a session after any requests, with `p` for its position past any blanks at the front of what is left, and a fresh
session over the text from there on, with the same options.  The two bring the same for every further list of requests:
no token where the other brings none, and otherwise tokens of one kind and one text, whose places are counted on from `p`.
And of the requests made so far, any that brought no token may be left out: the others bring what they brought, and the
session ends up in the same place. -/
theorem Session.replies_translate (options : Options) (text : String) (before : List Candidates)
    (fits : Fits text.toList) : ∃ ts s, (start text options).replies before = .ok (ts, s) ∧
      (∀ (gap rest : List Char) (sets : List Candidates), s.remaining.toList = gap ++ rest →
        (∀ c ∈ gap, isBlank c = true) → ∃ p us vs s₁ s₂, s.position.through gap = .ok p ∧
          (start (String.ofList rest) options).replies sets = .ok (us, s₁) ∧ s.replies sets = .ok (vs, s₂) ∧
          List.Forall₂ (Option.Rel (Token.Shifted p)) us vs) ∧
      ∀ qs, Thinned (before.zip ts) qs → ∃ s', (start text options).replies (qs.map Prod.fst) =
        .ok (qs.map Prod.snd, s') ∧ s'.position = s.position ∧ s'.remaining = s.remaining := by
  obtain ⟨ts, c, done, left, hrun, hexchange, hc, hall⟩ := exists_replies options text before fits
  have fits' : Fits (done ++ left) := hall ▸ fits
  have hremaining : c.remaining = String.ofList left := congrArg String.ofList (hc.rest_eq fits')
  refine ⟨ts, ⟨c, options⟩, hrun, ?_, ?_⟩
  · intro gap rest sets hleft hblank
    replace hleft : left = gap ++ rest := by
      rw [← hleft, remaining, hremaining, String.toList_ofList]
    obtain ⟨vs, done₂, left₂, hvs⟩ := exists_exchange options sets done left
    have hplace : done ++ gap = done ++ gap ++ [] := (List.append_nil _).symm
    obtain ⟨us, done₁, left₁, hus, hshift⟩ := hvs.translate hplace hleft hblank fits'
    subst hleft
    rw [← List.append_assoc] at fits'
    have hrest : (start (String.ofList rest) options).cursor.Between [] rest := by
      have := TextCursor.between_ofString (String.ofList rest)
      rwa [String.toList_ofList] at this
    obtain ⟨c₁, hrun₁, -⟩ := hus.replies_eq rfl hrest fits'.right
    obtain ⟨c₂, hrun₂, -⟩ := hvs.replies_eq (s := ⟨c, options⟩) rfl hc (by rwa [← List.append_assoc])
    refine ⟨_, us, vs, _, _, ?_, hrun₁, hrun₂, hshift⟩
    rw [position, hc.position_eq]
    exact Position.through_past fits'.left
  · intro qs hq
    obtain ⟨c', hrun', hc'⟩ :=
      (hexchange.thin hq).replies_eq (s := .start text options) rfl (TextCursor.between_ofString text) fits
    refine ⟨_, hrun', hc'.position_eq.trans hc.position_eq.symm, ?_⟩
    show c'.remaining = c.remaining
    rw [hremaining]
    exact congrArg String.ofList (hc'.rest_eq fits')

/-- A session behind a binding, with a request in between that brought no token, and a blank left out of the rest. -/
theorem Session.replies_translate_after_binding : ∃ ts s,
    (start "a= \tb = 1" {}).replies [.singleton .envVarName, .singleton .comma, .singleton .namedParamEq] = .ok (ts, s) ∧
      (∃ p us vs s₁ s₂, s.position.through [' '] = .ok p ∧
        (start "\tb = 1" {}).replies [.all, .singleton .constDeclVar] = .ok (us, s₁) ∧
        s.replies [.all, .singleton .constDeclVar] = .ok (vs, s₂) ∧ List.Forall₂ (Option.Rel (Token.Shifted p)) us vs) ∧
      ∃ t u s', (start "a= \tb = 1" {}).replies [.singleton .envVarName, .singleton .namedParamEq] =
        .ok ([some t, some u], s') ∧ s'.position = s.position := by
  obtain ⟨ts, s, hrun, hrest, hthin⟩ := replies_translate {} "a= \tb = 1"
    [.singleton .envVarName, .singleton .comma, .singleton .namedParamEq] (by decide)
  have hvalue : ((start "a= \tb = 1" {}).replies
      [.singleton .envVarName, .singleton .comma, .singleton .namedParamEq]).toOption.map
        (fun r => (r.1.map Option.isSome, r.2.remaining.toList)) =
      some ([true, false, true], [' '] ++ "\tb = 1".toList) := by decide +kernel
  rw [hrun] at hvalue
  obtain ⟨htokens, hleft⟩ := Prod.mk.inj (Option.some.inj hvalue)
  have hfresh := hrest [' '] "\tb = 1".toList [.all, .singleton .constDeclVar] hleft (List.forall_mem_singleton.2 rfl)
  rw [String.ofList_toList] at hfresh
  refine ⟨ts, s, hrun, hfresh, ?_⟩
  obtain ⟨a, b, c, rfl⟩ := List.length_eq_three.1 (by simpa using congrArg List.length htokens : ts.length = 3)
  obtain ⟨ha, rfl, hc⟩ : a.isSome = true ∧ b = none ∧ c.isSome = true := by simpa using htokens
  obtain ⟨t, rfl⟩ := Option.isSome_iff_exists.1 ha
  obtain ⟨u, rfl⟩ := Option.isSome_iff_exists.1 hc
  obtain ⟨s', hrun', hposition, -⟩ := hthin [(_, some t), (_, some u)] (.keep _ (.drop _ (.keep _ .nil)))
  exact ⟨t, u, s', hrun', hposition⟩

end ContextScan
