import ContextScan.Proofs.Growth
import ContextScan.Proofs.Log
/-!
# Proofs.Shrinkage — what fewer candidates leave

A set admits a form if it calls for the kind and is not in the way (`Candidates.admits_iff`).  Only a few kinds can be
in the way of anything (`Candidates.inhibitors`), so a set that is dropped puts nothing new in the way, and a token is
found again for as long as something that calls for it is kept (`Decision.reading_of_callsFor`).  The smallest such sets
have one member: the token's own kind, or for a line ending the sentinel of a terminator.
-/
namespace ContextScan

namespace Candidates

/-- **A set calls for a kind** that it holds.  It calls for a line ending if it holds what calls for a terminator. -/
def CallsFor (set : Candidates) : Kind → Prop
  | .newline => ∃ k, k ∈ terminatorTriggers ∧ k ∈ set
  | k => k ∈ set

/-- **The kinds that can keep a token from being found** when they are candidates themselves. -/
def inhibitors : List Kind := [.errorSentinel, .newline, .multilineCmdSentinel, .namedParamEq, .byteStringMarker]

variable {set fewer : Candidates} {cs : List Char} {k : Kind}

theorem callsFor_iff_mem (hk : k ≠ .newline) : set.CallsFor k ↔ k ∈ set := by
  cases k with
  | newline => exact absurd rfl hk
  | _ => rfl

theorem mem_singleton {j : Kind} : j ∈ singleton k ↔ j = k := by
  rw [mem_iff, singleton, contains_insert, contains_empty, Bool.false_or, decide_eq_true_iff]

/-- **A set admits what it calls for and is not in the way of.** -/
theorem admits_iff : set.Admits cs k ↔ set.CallsFor k ∧ ¬set.Obstructs cs k := by
  by_cases hk : k = .newline
  · subst hk
    rw [obstructs_newline_iff, not_or]
    exact and_iff_left id
  · rw [obstructs_iff_hasRival hk, callsFor_iff_mem hk, Admits, supports_iff_mem hk]

/-- **What is in the way of a token is an inhibitor**, and in the way in every set that holds it. -/
theorem Obstructs.of_inhibitors (h : fewer.Obstructs cs k) (hin : ∀ j ∈ inhibitors, j ∈ fewer → j ∈ set) :
    set.Obstructs cs k := by
  cases h with
  | newline h => exact .newline (hin _ (by decide) h)
  | blankLine h hb => exact .blankLine (hin _ (by decide) h) hb
  | namedParamEq h => exact .namedParamEq (hin _ (by decide) h)
  | byteString h hk hb => exact .byteString (hin _ (by decide) h) hk hb

end Candidates

/-- **A request that finds a token is decided in the same way for any other set that calls for the kind**, unless the
other set has more inhibitors. -/
theorem Decision.reading_of_callsFor {options : Options} {set fewer : Candidates} {cs : List Char} {e : Emission}
    (he : (reading options set cs).emission = some e) (hcalls : fewer.CallsFor e.kind)
    (hin : ∀ j ∈ Candidates.inhibitors, j ∈ fewer → j ∈ set) : reading options fewer cs = reading options set cs := by
  obtain ⟨herr, hl, hadmits, hform⟩ := reading_emission_iff.1 he
  have hobs : ¬fewer.Obstructs (cs.dropWhile isBlank) e.kind :=
    fun hobs => (Candidates.admits_iff.1 hadmits).2 (hobs.of_inhibitors hin)
  have herr' : .errorSentinel ∉ fewer := fun h => herr (hin _ (by decide) h)
  have he' : (reading options fewer cs).emission = some e :=
    reading_emission_iff.2 ⟨herr', hl, Candidates.admits_iff.2 ⟨hcalls, hobs⟩, hform⟩
  -- What a request with a token says in the log is told by the token.
  have hevents := (events_of_emission he').trans (events_of_emission he).symm
  generalize reading options fewer cs = d' at he' hevents
  generalize reading options set cs = d at he hevents
  cases d
  cases d'
  exact congr (congrArg Decision.mk (he'.trans he.symm)) hevents

section

variable {σ : Type} [Cursor σ] {s s' : σ} {cs : List Char}

theorem reading_of_resolve (h : (Cursor.lookahead s).Shows cs) {options : Options} {set : Candidates} {d : Decision}
    (hrun : resolve options set s = .ok (d, s')) : Decision.reading options set cs = d := by
  rw [resolve_of_shows h] at hrun
  cases hp : performAll (Decision.reading options set cs).calls s with
  | error o =>
    rw [hp] at hrun
    cases hrun
  | ok t =>
    rw [hp] at hrun
    cases hrun
    rfl

/-- **A token survives dropping unrelated candidates.**

Let a request find a token, on any cursor that shows a text.  The same request for any part of the set that still calls
for the token's kind does the same: it finds the token with its blanks and its length, leaves the same entry in the log,
and leaves the cursor at the same place.  So does the request for the kind alone, and for a line ending the request for
the sentinel of a terminator alone, whether that was a candidate or not. -/
theorem resolve_under_fewer (h : (Cursor.lookahead s).Shows cs) (options : Options) (set : Candidates) {d : Decision}
    (hrun : resolve options set s = .ok (d, s')) {e : Emission} (he : d.emission = some e) :
    (∀ fewer : Candidates, (∀ k ∈ fewer, k ∈ set) → fewer.CallsFor e.kind →
      resolve options fewer s = .ok (d, s')) ∧
    (e.kind ≠ .newline → resolve options (.singleton e.kind) s = .ok (d, s')) ∧
    (e.kind = .newline → resolve options (.singleton .terminatorSentinel) s = .ok (d, s')) := by
  obtain rfl := reading_of_resolve h hrun
  have hsame : ∀ fewer : Candidates, fewer.CallsFor e.kind → (∀ j ∈ Candidates.inhibitors, j ∈ fewer → j ∈ set) →
      resolve options fewer s = .ok (Decision.reading options set cs, s') := by
    intro fewer hcalls hin
    rw [← hrun, resolve_of_shows h, resolve_of_shows h, Decision.reading_of_callsFor he hcalls hin]
  refine ⟨fun fewer hsub hcalls => hsame fewer hcalls fun j _ hj => hsub j hj, fun hk => ?_, fun hk => ?_⟩
  · obtain ⟨-, -, hadmits, -⟩ := Decision.reading_emission_iff.1 he
    have hmem : e.kind ∈ set := (Candidates.callsFor_iff_mem hk).1 (Candidates.admits_iff.1 hadmits).1
    refine hsame _ ((Candidates.callsFor_iff_mem hk).2 (Candidates.mem_singleton.2 rfl)) fun j _ hj => ?_
    rwa [Candidates.mem_singleton.1 hj]
  · refine hsame _ ?_ fun j hin hj => ?_
    · rw [hk]
      exact ⟨.terminatorSentinel, by decide, by decide⟩
    · -- The sentinel of a terminator inhibits nothing.
      rw [Candidates.mem_singleton.1 hj] at hin
      exact absurd hin (by decide)

end

/-- A declaration that is found without the other way to bind a name, and a line ending that is found inside a command
and outside. -/
theorem resolve_under_fewer_declaration_and_newline :
    (∃ d c, d.emission = some ⟨.constDeclVar, 1, 1⟩ ∧
      resolve {} (.ofList [.constDeclVar, .envVarName, .namedParamEq]) (TextCursor.ofString "\tb = 1") = .ok (d, c) ∧
      resolve {} (.ofList [.constDeclVar, .namedParamEq]) (TextCursor.ofString "\tb = 1") = .ok (d, c) ∧
      resolve {} (.singleton .constDeclVar) (TextCursor.ofString "\tb = 1") = .ok (d, c)) ∧
    ∃ d c, d.emission = some ⟨.newline, 1, 1⟩ ∧
      resolve {} (.ofList [.comma, .multilineCmdSentinel]) (TextCursor.ofString " \n;") = .ok (d, c) ∧
      resolve {} (.singleton .terminatorSentinel) (TextCursor.ofString " \n;") = .ok (d, c) := by
  constructor
  · have hb := TextCursor.between_ofString "\tb = 1"
    have he : (Decision.reading {} (.ofList [.constDeclVar, .envVarName, .namedParamEq]) "\tb = 1".toList).emission =
        some ⟨.constDeclVar, 1, 1⟩ := by decide +kernel
    obtain ⟨c, hrun, -⟩ := hb.exists_resolve (by decide) {} (.ofList [.constDeclVar, .envVarName, .namedParamEq])
    obtain ⟨hfewer, hone, -⟩ := resolve_under_fewer (hb.shows (by decide)) {} _ hrun he
    refine ⟨_, c, he, hrun, hfewer _ (Candidates.ofList_subset (by simp)) ?_, hone (by decide)⟩
    exact Candidates.mem_ofList.2 (by decide)
  · have hb := TextCursor.between_ofString " \n;"
    have he : (Decision.reading {} (.ofList [.comma, .multilineCmdSentinel]) " \n;".toList).emission =
        some ⟨.newline, 1, 1⟩ := by decide +kernel
    obtain ⟨c, hrun, -⟩ := hb.exists_resolve (by decide) {} (.ofList [.comma, .multilineCmdSentinel])
    obtain ⟨-, -, hnewline⟩ := resolve_under_fewer (hb.shows (by decide)) {} _ hrun he
    exact ⟨_, c, he, hrun, hnewline rfl⟩

end ContextScan
