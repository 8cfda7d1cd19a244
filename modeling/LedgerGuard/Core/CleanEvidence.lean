import LedgerGuard.Core.Emissions
import LedgerGuard.Core.Fixtures
import LedgerGuard.Lib.Sha256

/-! # Evaluations that never match

An evaluation that stops at the freshness or link gates blocks no identity. It
withholds clean evidence about an order or a payment only through the list of
evaluated rules, and that list keeps PI-010 when the gate is the link.
-/

namespace LedgerGuard

variable {sha256 : String → String} {s s' : Snapshot} {e e' : Evaluation} {p : Proposal}

/-- The resolution loop cannot count the evaluation as clean for the finding. -/
def Evaluation.Withholds (e : Evaluation) (p : Proposal) : Prop :=
  p.rule ∉ e.evaluatedRules ∨ ∃ x ∈ p.identities, x ∈ e.blockedIdentities

/-- The finding is about an order or a payment. -/
def Proposal.NamesFact (p : Proposal) : Prop := ∃ x ∈ p.identities, x.isFact = true

theorem not_early_of_namesFact (he : evaluate sha256 s = .ok e) (hp : p ∈ e.proposals)
    (hf : p.NamesFact) : s.Gated := by
  rcases early_or_gated he with hs | hs
  · obtain ⟨x, hx, hxf⟩ := hf
    rw [(evaluate_of_early hs he).2.2 p hp, List.mem_singleton] at hx
    subst hx
    cases hxf
  · exact hs

theorem ne_pi009_of_gated (h : s.Gated) (he : evaluate sha256 s = .ok e) (hp : p ∈ e.proposals) :
    p.rule ≠ .pi009 := by
  rcases (mem_proposals h he).mp hp with ⟨o, -, -, hp⟩ | ⟨pid, -, hp⟩ |
    ⟨o, -, -, hp | ⟨r, hr, hp⟩⟩ | ⟨q, -, hp⟩
  · rw [(mem_conflictOutput hp).1]
    decide
  · rw [(mem_claimOutput hp).1]
    decide
  · intro hn
    have hm := (mem_paymentRules hp).1
    rw [hn] at hm
    exact absurd hm (by decide)
  · intro hn
    have hm := (mem_refundRules hr hp).1
    rw [hn] at hm
    exact absurd hm (by decide)
  · rw [(mem_paymentPart hp).1]
    decide

theorem rule_ne_pi009 (he : evaluate sha256 s = .ok e) (hp : p ∈ e.proposals)
    (hf : p.NamesFact) : p.rule ≠ .pi009 :=
  ne_pi009_of_gated (not_early_of_namesFact he hp hf) he hp

theorem proposals_of_stale (hs : s.stale ≠ []) (he : evaluate sha256 s = .ok e) :
    e.proposals = emit sha256 s .pi009 [.store s.storeId] none 100 s.now
      { staleSources := some s.stale } := by
  simp only [evaluate, evaluate_valid he, bind, Except.bind] at he
  rw [if_pos hs] at he
  obtain rfl := Except.ok.inj he
  rfl

theorem proposes_pi009_iff (he : evaluate sha256 s = .ok e) :
    (∃ p ∈ e.proposals, p.rule = .pi009) ↔ s.stale ≠ [] ∧ RuleCode.pi009 ∈ s.rules := by
  by_cases hs : s.stale = []
  · refine iff_of_false ?_ fun h => h.1 hs
    rintro ⟨p, hp, hr⟩
    by_cases hl : s.linkVerified = false ∨ s.linkConflict = true
    · simp only [evaluate, evaluate_valid he, bind, Except.bind] at he
      rw [if_neg (not_not.mpr hs), if_pos hl] at he
      obtain rfl := Except.ok.inj he
      simp only at hp
      split_ifs at hp with hc
      · rw [(mem_emit hp).2.1] at hr
        cases hr
      · exact absurd hp List.not_mem_nil
    · have hg : s.Gated := (early_or_gated he).resolve_left (not_or.mpr ⟨not_not.mpr hs, hl⟩)
      exact ne_pi009_of_gated hg he hp hr
  · rw [proposals_of_stale hs he]
    constructor
    · rintro ⟨p, hp, -⟩
      exact ⟨hs, (mem_emit hp).1⟩
    · rintro ⟨-, hr⟩
      obtain ⟨p, hp, hrule, -⟩ := exists_mem_emit sha256 hr [.store s.storeId] none 100 s.now
        { staleSources := some s.stale }
      exact ⟨p, hp, hrule⟩

theorem mem_rules {r : RuleCode} : r ∈ s.rules ↔ r ∉ s.policy.disabledRules := by
  simp [Snapshot.rules, mem_ruleCodes]

/-- A run that stops early withholds clean evidence about a finding on an order or a payment
unless it stops at the link and the finding is PI-010. -/
theorem early_withholds_iff (hs : s.Early) (he : evaluate sha256 s = .ok e)
    (he' : evaluate sha256 s' = .ok e') (hp : p ∈ e'.proposals) (hf : p.NamesFact) :
    e.Withholds p ↔
      s.stale ≠ [] ∨ p.rule ≠ .pi010 ∨ RuleCode.pi010 ∈ s.policy.disabledRules := by
  obtain ⟨hb, hr, -⟩ := evaluate_of_early hs he
  have h9 : p.rule ≠ .pi009 := rule_ne_pi009 he' hp hf
  have hw : e.Withholds p ↔ p.rule ∉ e.evaluatedRules := by
    simp [Evaluation.Withholds, hb]
  rw [hw, hr]
  by_cases hst : s.stale = []
  · have hsp : p.rule ≠ .pi010 ∨ p.rule = .pi010 := (eq_or_ne _ _).symm
    rcases hsp with h10 | h10
    · simp [hst, h9, h10]
    · simp [hst, h10, mem_rules]
  · simp [hst, h9]

namespace Fixture

/-- A second payment, named by the payment intent of the order. -/
def conflictSnapshot : Snapshot :=
  { snapshot with
    payments := [payment, { payment with id := "pi_two", orderHint := "", id_prefix := second_prefix }]
    orders := [{ order with paymentIntentId := "pi_two" }] }

/-- The store after its link was withdrawn. -/
def unlinkedSnapshot : Snapshot := { snapshot with linkVerified := false }

/-- The store before any source was read. -/
def uncoveredSnapshot : Snapshot := { snapshot with coverage := [] }

end Fixture

open Fixture Sha256

theorem early_withholds_iff_uncovered : ∃ e e',
    evaluate hexdigest uncoveredSnapshot = .ok e ∧ evaluate hexdigest conflictSnapshot = .ok e' ∧
      ∃ p ∈ e'.proposals, p.NamesFact ∧ e.Withholds p := by
  obtain ⟨e, he⟩ : ∃ e, evaluate hexdigest uncoveredSnapshot = .ok e := ⟨_, rfl⟩
  obtain ⟨e', he', p, hp, hf⟩ : ∃ e', evaluate hexdigest conflictSnapshot = .ok e' ∧
      ∃ p ∈ e'.proposals, p.NamesFact :=
    ⟨_, rfl, by unfold Proposal.NamesFact; decide +kernel⟩
  have hs : uncoveredSnapshot.stale ≠ [] := by decide
  exact ⟨e, e', he, he', p, hp, hf, (early_withholds_iff (Or.inl hs) he he' hp hf).mpr (Or.inl hs)⟩

/-- The conflict of the two payments passes for settled once the store is unlinked. -/
theorem unlinked_run_not_withheld : ∃ e e', unlinkedSnapshot.Early ∧
    evaluate hexdigest unlinkedSnapshot = .ok e ∧ evaluate hexdigest conflictSnapshot = .ok e' ∧
      ∃ p ∈ e'.proposals, p.NamesFact ∧ ¬ e.Withholds p := by
  refine ⟨_, _, Or.inr (Or.inl rfl), rfl, rfl, ?_⟩
  unfold Proposal.NamesFact Evaluation.Withholds
  decide +kernel

end LedgerGuard
