import ContextScan.Proofs.Course
import Mathlib.Data.List.Forall2
/-!
# Proofs.Boundary — where tokens end does not depend on the candidates

Candidates decide whether there is a token and, for an equals sign, of which kind, but never where the token starts or
ends (`Decision.reading_agree`).  So two scans of one text keep in step for as long as both go on: they stand at the
same places, ask the same questions, and cut the same words out of the text.
-/
namespace ContextScan

/-- **The same stretch of a text**: two tokens that can differ only in which equals sign they are. -/
structure Token.SamePlace (t u : Token) : Prop where
  text_eq : t.text = u.text
  span_eq : t.span = u.span
  kind_eq : t.kind = u.kind ∨ t.kind = .envEqual ∧ u.kind = .namedParamEq ∨ t.kind = .namedParamEq ∧ u.kind = .envEqual

/-- **Two requests on one text** that both find a token find it at the same place. -/
theorem Decision.reading_agree {options : Options} {set set' : Candidates} {cs : List Char} {e e' : Emission}
    (h : (reading options set cs).emission = some e) (h' : (reading options set' cs).emission = some e') :
    e.leading = e'.leading ∧ e.length = e'.length ∧ (e.kind = e'.kind ∨ e.kind = .envEqual ∧ e'.kind = .namedParamEq ∨
      e.kind = .namedParamEq ∧ e'.kind = .envEqual) := by
  obtain ⟨-, hl, -, hf⟩ := reading_emission_iff.1 h
  obtain ⟨-, hl', -, hf'⟩ := reading_emission_iff.1 h'
  exact ⟨hl.trans hl'.symm, hf.agree hf'⟩

namespace Course

variable {options : Options} {f g : Host}

/-- **Two courses from one place keep in step** until one of them ends. -/
theorem lockstep {asked asked' : List Query} {done left : List Char} {a b : Scan}
    (ha : Course options f asked done left a) (hb : Course options g asked' done left b) :
    (a.queries <+: b.queries ∨ b.queries <+: a.queries) ∧
    (a.stuck = none → b.stuck = none → List.Forall₂ Token.SamePlace a.tokens b.tokens) ∧
    ∀ p, a.stuck = none → b.stuck = some p → p = .past done ∨ ∃ t ∈ a.tokens, p = t.span.stop := by
  -- The two sets of questions asked before may differ; only the place is shared, and only it is needed.
  induction ha generalizing asked' b with
  | @finished asked done left hblank =>
    cases hb with
    | finished => exact ⟨.inl (List.prefix_rfl), fun _ _ => .nil, nofun⟩
    | stuck hblank' => rw [hblank] at hblank'; cases hblank'
    | token hblank' => rw [hblank] at hblank'; cases hblank'
  | @stuck asked done left hblank he =>
    cases hb with
    | finished hblank' => rw [hblank] at hblank'; cases hblank'
    | stuck => exact ⟨.inl (List.prefix_rfl), nofun, nofun⟩
    | @token _ _ _ gap word rest e later => exact ⟨.inl ⟨later.queries, rfl⟩, nofun, nofun⟩
  | @token asked done left gap word rest e later hblank he hleft hgap hword hgaps hne hplain hlater ih =>
    cases hb with
    | finished hblank' => rw [hblank] at hblank'; cases hblank'
    | stuck => exact ⟨.inr ⟨later.queries, rfl⟩, nofun, fun p _ hp => .inl (Option.some.inj hp).symm⟩
    | @token _ _ _ gap' word' rest' e' later' hblank' he' hleft' hgap' hword' hgaps' hne' hplain' hlater' =>
      obtain ⟨hlead, hlen, hkind⟩ := Decision.reading_agree he he'
      -- Both words start behind the same blanks and are of one length, so they are the same word.
      have hsplit : gap ++ word ++ rest = gap' ++ word' ++ rest' := hleft.symm.trans hleft'
      rw [List.append_assoc, List.append_assoc] at hsplit
      obtain ⟨rfl, hwords⟩ := List.append_inj hsplit (hgap.trans (hlead.trans hgap'.symm))
      obtain ⟨rfl, rfl⟩ := List.append_inj hwords (hword.trans (hlen.trans hword'.symm))
      obtain ⟨hqueries, htokens, hend⟩ := ih hlater'
      refine ⟨?_, ?_, ?_⟩
      · simpa only [List.prefix_cons_inj] using hqueries
      · intro hs hs'
        exact .cons ⟨rfl, rfl, hkind⟩ (htokens hs hs')
      · intro p hs hp
        right
        rcases hend p hs hp with rfl | ⟨t, ht, rfl⟩
        · exact ⟨_, List.mem_cons_self, rfl⟩
        · exact ⟨t, List.mem_cons_of_mem _ ht, rfl⟩

end Course

/-- **Where tokens end does not depend on the candidates.**

Of two scans of one text against any two hosts, one puts the first questions of the other.  If both succeed, their
tokens are at the same places, with the same texts, and of the same kinds but for the two equals signs.  If one succeeds
and the other fails, it fails at the start or where a token of the first ends.  For a single request on whatever
cursor: two sets that both find a token find the same blanks and the same length, and the same kind unless the token is
an equals sign. -/
theorem boundaries_agree (options : Options) (text : String) (f g : Host) (fits : Fits text.toList) :
    (∃ a b, Scan.of options text f = .ok a ∧ Scan.of options text g = .ok b ∧
      (a.queries <+: b.queries ∨ b.queries <+: a.queries) ∧
      (∀ ts us, a.result = .ok ts → b.result = .ok us → List.Forall₂ Token.SamePlace ts us) ∧
      ∀ ts p, a.result = .ok ts → b.result = .error (.noTokenAt p) → p = .start ∨ ∃ t ∈ ts, p = t.span.stop) ∧
    ∀ (look : Lookahead) (set set' : Candidates) (d d' : Decision) (e e' : Emission), look.Clear →
      Decision.of options set look = .ok d → Decision.of options set' look = .ok d' → d.emission = some e →
      d'.emission = some e' → e.leading = e'.leading ∧ e.length = e'.length ∧
        (e.kind = e'.kind ∨ look.peek e.leading = .ok (some '=')) := by
  constructor
  · obtain ⟨a, ha, hca⟩ := Scan.exists_course options text f fits
    obtain ⟨b, hb, hcb⟩ := Scan.exists_course options text g fits
    obtain ⟨hqueries, htokens, hend⟩ := hca.lockstep hcb
    refine ⟨_, _, ha, hb, hqueries, ?_, ?_⟩
    · intro ts us hts hus
      obtain ⟨hs, rfl⟩ := Scan.stuck_of_result_ok hts
      obtain ⟨hs', rfl⟩ := Scan.stuck_of_result_ok hus
      exact htokens hs hs'
    · intro ts p hts hp
      obtain ⟨hs, rfl⟩ := Scan.stuck_of_result_ok hts
      exact hend p hs (Scan.stuck_of_result_error hp)
  · intro look set set' d d' e e' clear hd hd' he he'
    obtain ⟨cs, h⟩ := clear.exists_shows
    rw [Decision.of_eq_reading h, Except.ok.injEq] at hd hd'
    subst hd hd'
    obtain ⟨hlead, hlen, hkind⟩ := Decision.reading_agree he he'
    refine ⟨hlead, hlen, hkind.imp_right ?_⟩
    intro hequals
    obtain ⟨-, hl, -, hf⟩ := Decision.reading_emission_iff.1 he
    have hfirst : (cs.dropWhile isBlank).head? = some '=' :=
      (hf.of_equals (hequals.imp And.left And.left)).2
    rw [hl, h.peek_run isBlank, hfirst]

/-- Two hosts that take an equals sign for different tokens. -/
theorem boundaries_agree_on_equals : ∃ a b, Scan.of {} "= =" (fun _ _ => .singleton .namedParamEq) = .ok a ∧
    Scan.of {} "= =" (fun _ _ => .singleton .envEqual) = .ok b ∧
    (a.queries <+: b.queries ∨ b.queries <+: a.queries) ∧
    ∀ ts us, a.result = .ok ts → b.result = .ok us → List.Forall₂ Token.SamePlace ts us := by
  obtain ⟨⟨a, b, ha, hb, hqueries, htokens, -⟩, -⟩ := boundaries_agree {} "= =" (fun _ _ => .singleton .namedParamEq)
    (fun _ _ => .singleton .envEqual) (by decide)
  exact ⟨a, b, ha, hb, hqueries, htokens⟩

end ContextScan
