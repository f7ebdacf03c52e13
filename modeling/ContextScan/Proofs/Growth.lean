import ContextScan.Proofs.Boundary
/-!
# Proofs.Growth — what more candidates take away

A guard that is called for decides, even if all it does is reject.  So a larger set can lose a token that a smaller one
finds: a guard that only the larger set calls for may stand before the one that finds it.  There are four ways in which
this happens (`Candidates.Obstructs`), and no other (`TextCursor.Between.resolve_under_more`).

Where a token is lost it is not replaced by another, since a text has one form at its front; only the two equals signs
share a form, so there the larger set may find the other one.
-/
namespace ContextScan

namespace Candidates

/-- **A set is in the way of a token** of a kind, at the front of `cs`. -/
inductive Obstructs (set : Candidates) (cs : List Char) : Kind → Prop where
  /-- Line endings are ordinary tokens. -/
  | newline (h : .newline ∈ set) : Obstructs set cs .newline
  /-- A command would end before a blank line. -/
  | blankLine (h : .multilineCmdSentinel ∈ set) (hb : BlankLine cs.tail) : Obstructs set cs .newline
  /-- The equals sign binds a parameter. -/
  | namedParamEq (h : .namedParamEq ∈ set) : Obstructs set cs .envEqual
  /-- The name starts like a byte string. -/
  | byteString {k : Kind} (h : .byteStringMarker ∈ set) (hk : k = .envVarName ∨ k = .constDeclVar)
      (hb : cs.head? = some 'b') : Obstructs set cs k

theorem ofList_subset {ks js : List Kind} (h : ks ⊆ js) : ∀ k ∈ ofList ks, k ∈ ofList js := by
  simp only [mem_ofList]
  exact fun k hk => h hk

variable {set more : Candidates} {cs : List Char} {k : Kind}

theorem obstructs_newline_iff :
    set.Obstructs cs .newline ↔ .newline ∈ set ∨ .multilineCmdSentinel ∈ set ∧ BlankLine cs.tail := by
  constructor
  · intro h
    cases h with
    | newline h => exact .inl h
    | blankLine h hb => exact .inr ⟨h, hb⟩
    | byteString h hk => simp at hk
  · rintro (h | ⟨h, hb⟩)
    · exact .newline h
    · exact .blankLine h hb

theorem obstructs_iff_hasRival (hk : k ≠ .newline) : set.Obstructs cs k ↔ set.HasRival cs k := by
  constructor
  · intro h
    cases h with
    | newline => exact absurd rfl hk
    | blankLine => exact absurd rfl hk
    | namedParamEq h => exact h
    | byteString h hname hb => rcases hname with rfl | rfl <;> exact ⟨h, hb⟩
  · intro h
    cases k with
    | envEqual => exact .namedParamEq h
    | envVarName => exact .byteString h.1 (.inl rfl) h.2
    | constDeclVar => exact .byteString h.1 (.inr rfl) h.2
    | _ => exact h.elim

theorem supports_iff_mem (hk : k ≠ .newline) : set.Supports cs k ↔ k ∈ set := by
  cases k with
  | newline => exact absurd rfl hk
  | _ => rfl

/-- **What a set admits, a larger set admits unless it is in the way.** -/
theorem Admits.of_subset_iff (h : set.Admits cs k) (hsub : ∀ j ∈ set, j ∈ more) :
    more.Admits cs k ↔ ¬more.Obstructs cs k := by
  obtain ⟨hs, -⟩ := h
  by_cases hk : k = .newline
  · subst hk
    obtain ⟨⟨j, hj, hjs⟩, -, -⟩ := hs
    rw [obstructs_newline_iff, not_or]
    constructor
    · exact fun hm => hm.1.2
    · rintro ⟨hnl, hb⟩
      exact ⟨⟨⟨j, hj, hsub j hjs⟩, hnl, hb⟩, id⟩
  · rw [supports_iff_mem hk] at hs
    rw [obstructs_iff_hasRival hk, Admits, supports_iff_mem hk]
    exact and_iff_right (hsub k hs)

end Candidates

/-- Without an equals sign in it, a form at the front of a text excludes every other. -/
theorem Form.eq_of_ne_envEqual {options : Options} {cs : List Char} {k k' : Kind} {n n' : Nat}
    (h : Form options k n cs) (h' : Form options k' n' cs) (hk : k ≠ .envEqual) (hk' : k ≠ .namedParamEq) :
    k' = k ∧ n' = n := by
  obtain ⟨hn, hkind | ⟨he, -⟩ | ⟨he, -⟩⟩ := h.agree h'
  · exact ⟨hkind.symm, hn.symm⟩
  · exact absurd he hk
  · exact absurd he hk'

theorem Form.namedParamEq_iff {options : Options} {n : Nat} {cs : List Char} (h : Form options .envEqual n cs) :
    Form options .namedParamEq n cs ↔ cs.tail.head? ≠ some '=' := by
  cases h with
  | @envEqual r h =>
    constructor
    · intro hf
      cases hf with
      | namedParamEq h => exact h
      | punctuation r h => cases h.guard
    · exact fun hr => .namedParamEq hr
  | punctuation r h => cases h.guard

namespace Decision

variable {options : Options} {set more : Candidates} {cs : List Char} {e : Emission}

/-- **A token is found again unless the larger set is in its way.** -/
theorem reading_emission_of_subset_iff (hsub : ∀ k ∈ set, k ∈ more) (herr : .errorSentinel ∉ more)
    (he : (reading options set cs).emission = some e) :
    (reading options more cs).emission = some e ↔ ¬more.Obstructs (cs.dropWhile isBlank) e.kind := by
  obtain ⟨-, hl, hadmits, hform⟩ := reading_emission_iff.1 he
  rw [reading_emission_iff, hadmits.of_subset_iff hsub]
  constructor
  · exact fun h => h.2.2.1
  · exact fun h => ⟨herr, hl, h, hform⟩

/-- **A token that is lost is not replaced**, unless it is an equals sign. -/
theorem reading_emission_of_obstructs (hsub : ∀ k ∈ set, k ∈ more) (herr : .errorSentinel ∉ more)
    (he : (reading options set cs).emission = some e) (hk : e.kind ≠ .envEqual)
    (hobs : more.Obstructs (cs.dropWhile isBlank) e.kind) : (reading options more cs).emission = none := by
  rw [Option.eq_none_iff_forall_ne_some]
  intro e' he'
  obtain ⟨-, hl, -, hform⟩ := reading_emission_iff.1 he
  obtain ⟨-, hl', -, hform'⟩ := reading_emission_iff.1 he'
  have hnamed : e.kind ≠ .namedParamEq := by
    intro hnamed
    rw [hnamed, Candidates.obstructs_iff_hasRival (by decide)] at hobs
    exact hobs
  obtain ⟨hkind, hlen⟩ := hform.eq_of_ne_envEqual hform' hk hnamed
  obtain ⟨k, leading, n⟩ := e
  obtain ⟨k', leading', n'⟩ := e'
  obtain rfl : k' = k := hkind
  obtain rfl : n' = n := hlen
  obtain rfl : leading' = leading := hl'.trans hl.symm
  exact (reading_emission_of_subset_iff hsub herr he).1 he' hobs

/-- **An equals sign that is lost becomes the other one**, or none if a second equals sign follows. -/
theorem reading_emission_of_equals (herr : .errorSentinel ∉ more) (he : (reading options set cs).emission = some e)
    (hk : e.kind = .envEqual) (hnamed : .namedParamEq ∈ more) : (reading options more cs).emission =
      if (cs.dropWhile isBlank).tail.head? = some '=' then none else some { e with kind := .namedParamEq } := by
  obtain ⟨-, hl, -, hform⟩ := reading_emission_iff.1 he
  rw [hk] at hform
  split
  · rename_i hsecond
    rw [Option.eq_none_iff_forall_ne_some]
    intro e' he'
    obtain ⟨-, -, hadmits', hform'⟩ := reading_emission_iff.1 he'
    obtain ⟨hlen, hkind | ⟨-, hkind⟩ | ⟨hkind, -⟩⟩ := hform.agree hform'
    · rw [← hkind] at hadmits'
      exact hadmits'.2 hnamed
    · rw [hkind, ← hlen] at hform'
      exact hform.namedParamEq_iff.1 hform' hsecond
    · cases hkind
  · rename_i hsecond
    rw [reading_emission_iff]
    exact ⟨herr, hl, ⟨hnamed, id⟩, hform.namedParamEq_iff.2 hsecond⟩

end Decision

namespace TextCursor.Between

variable {c : TextCursor} {done left : List Char}

/-- **Growing the set interferes with a token in exactly four ways.**

Let a request for one set find a token.  A request for a larger set, without the sentinel of error recovery, finds the
same token if and only if the larger set is not in its way.  If it is, the larger set finds nothing; but where the token
is the equals sign of a binding, it finds that of a named parameter there, unless a second equals sign follows. -/
theorem resolve_under_more (h : c.Between done left) (fits : Fits (done ++ left)) (options : Options)
    (set more : Candidates) (hsub : ∀ k ∈ set, k ∈ more) (herr : .errorSentinel ∉ more) {d : Decision} {c' : TextCursor}
    (hrun : resolve options set c = .ok (d, c')) {e : Emission} (he : d.emission = some e) :
    ∃ d' c'', resolve options more c = .ok (d', c'') ∧
      (d'.emission = some e ↔ ¬more.Obstructs (left.dropWhile isBlank) e.kind) ∧
      (more.Obstructs (left.dropWhile isBlank) e.kind → e.kind ≠ .envEqual → d'.emission = none) ∧
      (e.kind = .envEqual → .namedParamEq ∈ more → d'.emission =
        if (left.dropWhile isBlank).tail.head? = some '=' then none else some { e with kind := .namedParamEq }) := by
  obtain ⟨c₁, hrun₁, -⟩ := h.exists_resolve fits options set
  obtain ⟨c₂, hrun₂, -⟩ := h.exists_resolve fits options more
  rw [hrun, Except.ok.injEq, Prod.mk.injEq] at hrun₁
  obtain ⟨rfl, -⟩ := hrun₁
  refine ⟨_, c₂, hrun₂, Decision.reading_emission_of_subset_iff hsub herr he, ?_, ?_⟩
  · exact fun hobs hk => Decision.reading_emission_of_obstructs hsub herr he hk hobs
  · exact Decision.reading_emission_of_equals herr he

/-- An equals sign that becomes the other one, and a name that is lost to a byte string. -/
theorem resolve_under_more_equals_and_name :
    (∃ d c, resolve {} (.ofList [.envEqual, .namedParamEq]) (ofString "\t=x") = .ok (d, c) ∧
      d.emission = some ⟨.namedParamEq, 1, 1⟩) ∧
    ∃ d c, resolve {} (.ofList [.envVarName, .byteStringMarker]) (ofString "b=x") = .ok (d, c) ∧ d.emission = none := by
  constructor
  · obtain ⟨c₁, hrun, -⟩ := (between_ofString "\t=x").exists_resolve (by decide) {} (.ofList [.envEqual])
    have he : (Decision.reading {} (.ofList [.envEqual]) "\t=x".toList).emission = some ⟨.envEqual, 1, 1⟩ := by
      decide +kernel
    obtain ⟨d, c₂, hrun', -, -, hequals⟩ := resolve_under_more (between_ofString "\t=x") (by decide) {}
      (.ofList [.envEqual]) (.ofList [.envEqual, .namedParamEq]) (Candidates.ofList_subset (by simp)) (by decide)
      hrun he
    exact ⟨d, c₂, hrun', hequals rfl (by decide)⟩
  · obtain ⟨c₁, hrun, -⟩ := (between_ofString "b=x").exists_resolve (by decide) {} (.ofList [.envVarName])
    have he : (Decision.reading {} (.ofList [.envVarName]) "b=x".toList).emission = some ⟨.envVarName, 0, 1⟩ := by
      decide +kernel
    obtain ⟨d, c₂, hrun', -, hlost, -⟩ := resolve_under_more (between_ofString "b=x") (by decide) {}
      (.ofList [.envVarName]) (.ofList [.envVarName, .byteStringMarker]) (Candidates.ofList_subset (by simp))
      (by decide) hrun he
    exact ⟨d, c₂, hrun', hlost (.byteString (by decide) (.inl rfl) rfl) (by decide)⟩

end TextCursor.Between
end ContextScan
