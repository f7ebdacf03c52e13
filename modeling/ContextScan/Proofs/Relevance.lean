import ContextScan.Proofs.Encoding
import ContextScan.Proofs.Exchange
import Mathlib.Data.List.Find
/-!
# Proofs.Relevance — what of a candidate set reaches a decision

A request asks a candidate set which kinds it holds, and whether it calls for a terminator; it never looks at the word.
So the bits above the last kind do not show at all, not even in the log (`Candidates.SameBits`).  Of three of the
sentinels only the log can tell which one is there, since all they do is call for a terminator; and in error recovery
nothing else is looked at (`Candidates.Alike`).

This holds on every cursor, and call by call along a whole scan (`alike_candidates_act_alike`).
-/
namespace ContextScan

namespace Candidates

/-- **Two words agree on the bits of the kinds.** -/
def SameBits (a b : Candidates) : Prop := ∀ i < Kind.count, a.word.toNat.testBit i = b.word.toNat.testBit i

/-- The sentinels that do nothing but call for a terminator. -/
def plainTriggers : List Kind := [.terminatorSentinel, .statementSentinel, .commaSentinel]

/-- **Two sets that a request does not tell apart.** -/
inductive Alike (a b : Candidates) : Prop where
  | bits (h : a.SameBits b)
  | recovery (ha : .errorSentinel ∈ a) (hb : .errorSentinel ∈ b)
  | triggers (ha : .errorSentinel ∉ a) (hb : .errorSentinel ∉ b) (hkinds : ∀ k, k ∉ plainTriggers → (k ∈ a ↔ k ∈ b))
      (hcalled : (∃ k, k ∈ terminatorTriggers ∧ k ∈ a) ↔ ∃ k, k ∈ terminatorTriggers ∧ k ∈ b)

variable {a b : Candidates}

theorem sameBits_iff : a.SameBits b ↔ a.contains = b.contains := by
  constructor
  · intro h
    funext k
    rw [← testBit_index, ← testBit_index]
    exact h k.index k.index_lt_count
  · rintro h i hi
    obtain ⟨k, rfl⟩ := Kind.exists_index hi
    rw [testBit_index, testBit_index, h]

theorem meets_congr {ks : List Kind} (h : (∃ k, k ∈ ofList ks ∧ k ∈ a) ↔ ∃ k, k ∈ ofList ks ∧ k ∈ b) :
    a.meets (ofList ks) = b.meets (ofList ks) := by
  rw [Bool.eq_iff_iff, meets_ofList_iff, meets_ofList_iff, h]

end Candidates

/-! ## What a decision asks of a set -/

section

variable {a b : Candidates} (hkinds : ∀ k, k ∉ Candidates.plainTriggers → a.contains k = b.contains k)
  (hcalled : a.meets .terminatorTriggers = b.meets .terminatorTriggers)
include hkinds hcalled

/-- **A guard asks which kinds there are, and whether a terminator is called for.** -/
theorem Guard.verdict_congr (options : Options) (first : Option Char) (ahead : Lookahead) (g : Guard) :
    g.verdict .standard options a first ahead = g.verdict .standard options b first ahead := by
  cases g with
  | terminator =>
    simp only [verdict, terminatorVerdict, hcalled, hkinds .newline (by decide),
      hkinds .multilineCmdSentinel (by decide)]
  | punctuation =>
    have hmarks : ∀ entry ∈ Rules.standard.punctuation, entry.2 ∉ Candidates.plainTriggers := by
      simp only [Rules.standard, List.forall_mem_cons]
      decide
    simp only [verdict, punctuationVerdict]
    rw [List.find?_congr fun entry hentry => by rw [hkinds _ (hmarks entry hentry)]]
  | namedParamEq => simp only [verdict, namedParamEqVerdict, hkinds .namedParamEq (by decide)]
  | dollarExpansion => simp only [verdict, dollarExpansionVerdict, hkinds .dollarExpansion (by decide)]
  | hatExpansion => simp only [verdict, hatExpansionVerdict, hkinds .hatExpansion (by decide)]
  | byteString => simp only [verdict, byteStringVerdict, hkinds .byteStringMarker (by decide)]
  | envEqual => simp only [verdict, envEqualVerdict, hkinds .envEqual (by decide)]
  | declaration =>
    simp only [verdict, declarationVerdict, hkinds .envVarName (by decide), hkinds .constDeclVar (by decide)]

theorem Rules.recognize_congr (options : Options) (first : Option Char) (ahead : Lookahead) :
    Rules.standard.recognize options a first ahead = Rules.standard.recognize options b first ahead := by
  rw [recognize, recognize, funext (Guard.verdict_congr hkinds hcalled options first ahead)]

end

namespace Decision

variable {a b : Candidates}

theorem of_recovery (h : .errorSentinel ∈ a) (options : Options) (look : Lookahead) :
    of options a look = .ok ⟨none, [.errorRecovery]⟩ := if_pos h

/-- **The bits that are no kind's do not reach a decision**, nor what it tells the log. -/
theorem of_sameBits (h : a.SameBits b) (options : Options) (look : Lookahead) :
    of options a look = of options b look := by
  have hcontains := Candidates.sameBits_iff.1 h
  have hmembers : a.members = b.members := by rw [Candidates.members, Candidates.members, hcontains]
  have hcalled : a.meets .terminatorTriggers = b.meets .terminatorTriggers :=
    Candidates.meets_congr (by simp only [Candidates.mem_iff, hcontains])
  have hverdict : ∀ leading first v, ofVerdict a leading first v = ofVerdict b leading first v := by
    intro leading first v
    unfold ofVerdict
    rw [hmembers]
  simp only [of, hcontains, hverdict, Rules.recognize_congr (fun k _ => congrFun hcontains k) hcalled]

/-- **Sets that are alike lead to the same token**, or to none. -/
theorem emission_of_alike (h : a.Alike b) (options : Options) (look : Lookahead) :
    (of options a look).map emission = (of options b look).map emission := by
  cases h with
  | bits h => rw [of_sameBits h]
  | recovery ha hb => rw [of_recovery ha, of_recovery hb]
  | triggers ha hb hkinds hcalled =>
    have hverdict : ∀ leading first v, (ofVerdict a leading first v).emission = (ofVerdict b leading first v).emission := by
      intro leading first v
      cases v with
      | reject why => cases why <;> rfl
      | _ => rfl
    have hrecognize := Rules.recognize_congr (fun k hk => Bool.eq_iff_iff.2 (hkinds k hk))
      (Candidates.meets_congr hcalled) options
    unfold of
    rw [if_neg (by exact ha), if_neg (by exact hb)]
    cases look.skip isBlank 0 with
    | error o => rfl
    | ok leading =>
      rw [Checked.ok_bind, Checked.ok_bind]
      cases look.peek leading with
      | error o => rfl
      | ok first =>
        rw [Checked.ok_bind, Checked.ok_bind, hrecognize]
        cases Rules.standard.recognize options b first (look.drop leading) with
        | error o => rfl
        | ok v => exact congrArg Except.ok (hverdict leading first v)

theorem reading_emission_of_alike (h : a.Alike b) (options : Options) (cs : List Char) :
    (reading options a cs).emission = (reading options b cs).emission := by
  have hof := emission_of_alike h options (.ofList cs)
  rw [of_eq_reading (Lookahead.shows_ofList cs), of_eq_reading (Lookahead.shows_ofList cs)] at hof
  exact Except.ok.inj hof

theorem reading_of_sameBits (h : a.SameBits b) (options : Options) (cs : List Char) :
    reading options a cs = reading options b cs := by
  have hof := of_sameBits h options (.ofList cs)
  rw [of_eq_reading (Lookahead.shows_ofList cs), of_eq_reading (Lookahead.shows_ofList cs)] at hof
  exact Except.ok.inj hof

end Decision

/-! ## Requests and scans -/

/-- **What a request does**, apart from its entries in the log: the token it finds, and the cursor and the calls made on
it. -/
def performed {σ : Type} [Cursor σ] (options : Options) (set : Candidates) (t : Traced σ) :
    Checked (Option Emission × Traced σ) := (resolve options set t).map fun r => (r.1.emission, r.2)

theorem performed_eq {σ : Type} [Cursor σ] (options : Options) (set : Candidates) (t : Traced σ) :
    performed options set t = ((Decision.of options set (Cursor.lookahead t)).map Decision.emission) >>= fun e =>
      (performAll (e.elim [] Emission.calls) t).map fun t' => (e, t') := by
  unfold performed resolve
  cases Decision.of options set (Cursor.lookahead t) with
  | error o => rfl
  | ok d =>
    obtain ⟨e, events⟩ := d
    cases e with
    | none => rfl
    | some e =>
      show Except.map _ (performAll e.calls t >>= _) = Except.map _ (performAll e.calls t)
      cases performAll e.calls t <;> rfl

/-- **Two scans whose hosts answer alike, call by call, take one course**; they can differ in what they tell the log, and
only if the answers differ in the bits of the kinds. -/
theorem Course.exists_alike {options : Options} {host host' : Host} {asked : List Query} {done left : List Char}
    {scan : Scan} (h : Course options host asked done left scan)
    (halike : ∀ before q later, scan.queries = before ++ q :: later →
      (host (asked ++ before) q).Alike (host' (asked ++ before) q)) :
    ∃ scan', Course options host' asked done left scan' ∧ scan'.tokens = scan.tokens ∧ scan'.stuck = scan.stuck ∧
      scan'.queries = scan.queries ∧
      ((∀ before q later, scan.queries = before ++ q :: later →
        (host (asked ++ before) q).SameBits (host' (asked ++ before) q)) → scan' = scan) := by
  induction h with
  | finished hblank => exact ⟨_, .finished hblank, rfl, rfl, rfl, fun _ => rfl⟩
  | @stuck asked done left hblank he =>
    have hask := halike [] _ [] rfl
    rw [List.append_nil] at hask
    rw [Decision.reading_emission_of_alike hask] at he
    refine ⟨_, .stuck hblank he, rfl, rfl, rfl, fun hbits => ?_⟩
    have hsame := hbits [] _ [] rfl
    rw [List.append_nil] at hsame
    rw [Decision.reading_of_sameBits hsame]
  | @token asked done left gap word rest e later hblank he hleft hgap hword hgaps hne hplain hlater ih =>
    have hask := halike [] _ later.queries rfl
    rw [List.append_nil] at hask
    rw [Decision.reading_emission_of_alike hask] at he
    -- The questions that come later are put after this one.
    obtain ⟨scan', hcourse, htokens, hstuck, hqueries, hall⟩ := ih fun before q after hq => by
      have h := halike (.between done left :: before) q after (congrArg (_ :: ·) hq)
      rwa [List.append_cons] at h
    refine ⟨_, .token hblank he hleft hgap hword hgaps hne hplain hcourse, congrArg (_ :: ·) htokens, hstuck,
      congrArg (_ :: ·) hqueries, fun hbits => ?_⟩
    have hsame := hbits [] _ later.queries rfl
    rw [List.append_nil] at hsame
    rw [Decision.reading_of_sameBits hsame, hall fun before q after hq => by
      have h := hbits (.between done left :: before) q after (congrArg (_ :: ·) hq)
      rwa [List.append_cons] at h]

/-- **Candidate sets that are alike act alike.**

On every cursor and in every state, a request does the same for two sets that agree on the bits of the kinds, its
entries in the log included, and so it does for two sets that both hold the sentinel of error recovery.  For two sets
without that sentinel which agree on all kinds but the sentinels that only call for a terminator, and on whether a
terminator is called for, it finds the same token and makes the same calls.

The same holds of scans.  If two hosts answer the questions that are put with sets that are alike, call by call, then the
scans have the same result, the same tokens, end at the same place and put the same questions; and if the answers agree
on the bits of the kinds, the scans have the same log as well. -/
theorem alike_candidates_act_alike (options : Options) :
    (∀ (a b : Candidates) (σ : Type) [Cursor σ] (t : Traced σ),
      (a.SameBits b → resolve options a t = resolve options b t) ∧
      (.errorSentinel ∈ a → .errorSentinel ∈ b → resolve options a t = resolve options b t) ∧
      (a.Alike b → performed options a t = performed options b t)) ∧
    ∀ (text : String) (host host' : Host), Fits text.toList → ∃ scan scan',
      Scan.of options text host = .ok scan ∧ Scan.of options text host' = .ok scan' ∧
      ((∀ asked q later, scan.queries = asked ++ q :: later → (host asked q).Alike (host' asked q)) →
        scan'.result = scan.result ∧ scan'.tokens = scan.tokens ∧ scan'.stuck = scan.stuck ∧
          scan'.queries = scan.queries) ∧
      ((∀ asked q later, scan.queries = asked ++ q :: later → (host asked q).SameBits (host' asked q)) →
        scan' = scan) := by
  constructor
  · intro a b σ _ t
    refine ⟨fun h => ?_, fun ha hb => ?_, fun h => ?_⟩
    · unfold resolve
      rw [Decision.of_sameBits h]
    · unfold resolve
      rw [Decision.of_recovery ha, Decision.of_recovery hb]
    · rw [performed_eq, performed_eq, Decision.emission_of_alike h]
  · intro text host host' fits
    obtain ⟨a, ha, hca⟩ := Scan.exists_course options text host fits
    obtain ⟨b, hb, hcb⟩ := Scan.exists_course options text host' fits
    refine ⟨_, _, ha, hb, fun halike => ?_, fun hbits => ?_⟩
    · obtain ⟨scan', hcourse, htokens, hstuck, hqueries, -⟩ := hca.exists_alike halike
      obtain rfl := hcourse.unique hcb
      refine ⟨?_, htokens, hstuck, hqueries⟩
      simp only [Scan.result, htokens, hstuck]
    · obtain ⟨scan', hcourse, -, -, -, hall⟩ := hca.exists_alike fun asked q later hq => .bits (hbits asked q later hq)
      obtain rfl := hcourse.unique hcb
      rw [hall hbits]

/-- Two words that differ in the bits above the kinds and in a sentinel, and two hosts that answer with them. -/
theorem alike_candidates_act_alike_garbage_and_sentinel :
    performed {} ⟨0x4020⟩ (Traced.mk (TextCursor.ofString "\t,") []) =
      performed {} ⟨0x8020⟩ (Traced.mk (TextCursor.ofString "\t,") []) ∧
    resolve {} ⟨0x4020⟩ (Traced.mk (TextCursor.ofString "\t,") []) =
      resolve {} ⟨0xfff84020⟩ (Traced.mk (TextCursor.ofString "\t,") []) ∧
    ∃ scan scan', Scan.of {} ",\n" (fun _ _ => ⟨0x4020⟩) = .ok scan ∧
      Scan.of {} ",\n" (fun asked _ => ⟨if asked.isEmpty then 0xfff84020 else 0x8020⟩) = .ok scan' ∧
      scan'.result = scan.result := by
  have hbits : (Candidates.mk 0x4020).SameBits ⟨0xfff84020⟩ := by
    unfold Candidates.SameBits
    decide
  have hsentinel : (Candidates.mk 0x4020).Alike ⟨0x8020⟩ := by
    refine .triggers (by decide) (by decide) ?_ ?_
    · intro k hk
      revert hk
      cases k <;> decide
    · exact iff_of_true ⟨.comma, by decide, by decide⟩ ⟨.comma, by decide, by decide⟩
  obtain ⟨hrequests, hscans⟩ := alike_candidates_act_alike {}
  refine ⟨(hrequests _ _ _ _).2.2 hsentinel, (hrequests _ _ _ _).1 hbits, ?_⟩
  obtain ⟨scan, scan', hscan, hscan', halike, -⟩ := hscans ",\n" (fun _ _ => ⟨0x4020⟩)
    (fun asked _ => ⟨if asked.isEmpty then 0xfff84020 else 0x8020⟩) (by decide)
  refine ⟨scan, scan', hscan, hscan', (halike ?_).1⟩
  intro asked q later _
  cases asked with
  | nil => exact .bits hbits
  | cons q' asked => exact hsentinel

end ContextScan
