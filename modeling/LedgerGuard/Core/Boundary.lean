import LedgerGuard.Core.CleanEvidence

/-! # Facts beyond the shared boundary

The rules on an order run behind the window and boundary guards, and so does
PI-002. The two conflict passes emit before any guard, so what PI-010 names is
within the boundary only when the conflicting facts are.
-/

namespace LedgerGuard

open Ordered

variable {sha256 : String → String} {s : Snapshot} {e : Evaluation} {p : Proposal}

theorem isLeast_through (h : s.Gated) :
    IsLeast {t | ∃ k ∈ requiredSources, ∃ c, s.coverageBySource k = some c ∧
      t = c.coveredThrough} s.through := by
  have hsome : ∀ k ∈ requiredSources, ∃ c, s.coverageBySource k = some c := by
    intro k hk
    have hn : k ∉ s.stale := by simp [h.fresh]
    cases hc : s.coverageBySource k with
    | some c => exact ⟨c, rfl⟩
    | none => exact absurd (List.mem_filter.mpr ⟨hk, by simp [hc]⟩) hn
  have hset : ∀ t, t ∈ (requiredSources.filterMap s.coverageBySource).map (·.coveredThrough) ↔
      ∃ k ∈ requiredSources, ∃ c, s.coverageBySource k = some c ∧ t = c.coveredThrough := by
    intro t
    simp only [List.mem_map, List.mem_filterMap]
    constructor
    · rintro ⟨c, ⟨k, hk, hc⟩, rfl⟩
      exact ⟨k, hk, c, hc, rfl⟩
    · rintro ⟨k, hk, c, hc, rfl⟩
      exact ⟨c, ⟨k, hk, hc⟩, rfl⟩
  have hmin : ∃ t, ((requiredSources.filterMap s.coverageBySource).map
      (·.coveredThrough)).min? = some t := by
    obtain ⟨c, hc⟩ := hsome "stripe_payments" (by decide)
    refine Option.ne_none_iff_exists'.mp fun hnone => ?_
    rw [List.min?_eq_none_iff] at hnone
    have hm := (hset c.coveredThrough).mpr ⟨_, by decide, c, hc, rfl⟩
    rw [hnone] at hm
    exact List.not_mem_nil hm
  obtain ⟨t, ht⟩ := hmin
  have hth : s.through = t := by rw [Snapshot.through, ht, Option.getD_some]
  rw [hth]
  obtain ⟨hmem, hle⟩ := List.min?_eq_some_iff.mp ht
  exact ⟨(hset t).mp hmem, fun u hu => hle u ((hset u).mpr hu)⟩

/-- The order is in the window and not beyond the boundary. -/
def Snapshot.Covers (s : Snapshot) (o : Order) : Prop :=
  s.windowFrom ≤ o.createdAt ∧ o.changedAt ≤ s.through

/-- Everything the proposal names or lists lies in the window and within the boundary. -/
structure Proposal.Bounded (s : Snapshot) (p : Proposal) : Prop where
  orders : ∀ o ∈ s.orders, Identity.order o.id ∈ p.identities → s.Covers o
  payments : ∀ q ∈ s.payments, Identity.payment q.id ∈ p.identities → q.changedAt ≤ s.through
  stripeRefunds : ∀ r ∈ p.evidence.facts.stripeRefunds.getD [], r.changedAt ≤ s.through
  wooRefunds : ∀ r ∈ p.evidence.facts.wooRefunds.getD [], r.changedAt ≤ s.through

/-- What the conflict passes name lies in the window and within the boundary. -/
structure Snapshot.ConflictsCovered (s : Snapshot) : Prop where
  conflicted : ∀ o ∈ s.orders, s.conflicted o = true →
    s.Covers o ∧ ∀ q ∈ s.resolved o, q.changedAt ≤ s.through
  contested : ∀ q ∈ s.payments, s.contested q.id = true →
    q.changedAt ≤ s.through ∧ ∀ o ∈ s.claimants q.id, s.Covers o

theorem covers_of_admitted {o : Order} (ha : Admitted sha256 s o) : s.Covers o :=
  ⟨(hold_eq_none.mp ha.2).2.1, (hold_eq_none.mp ha.2).2.2.1⟩

theorem bounded_of_identities (h : s.Gated) {o : Order} (ho : o ∈ s.orders)
    (ha : Admitted sha256 s o) (hi : ∀ x ∈ p.identities, x ∈ groupIdentities o (s.group o))
    (hs : ∀ r ∈ p.evidence.facts.stripeRefunds.getD [], r.changedAt ≤ s.through)
    (hw : ∀ r ∈ p.evidence.facts.wooRefunds.getD [], r.changedAt ≤ s.through) : p.Bounded s where
  orders o' ho' hm := by
    obtain rfl := eq_of_id_eq h.orders_nodup ho' ho (order_mem_groupIdentities.mp (hi _ hm))
    exact covers_of_admitted ha
  payments q hq hm := by
    obtain ⟨q', hq', he⟩ := List.mem_map.mp (payment_mem_groupIdentities.mp (hi _ hm))
    obtain rfl := payment_eq_of_id_eq h.payments_nodup (mem_payments_of_mem_group hq') hq he
    exact (hold_eq_none.mp ha.2).2.2.2 q' hq'
  stripeRefunds := hs
  wooRefunds := hw

theorem bounded_of_conflict (h : s.Gated) (hc : s.ConflictsCovered) {o : Order}
    (ho : o ∈ s.orders) (hco : s.conflicted o = true)
    (hp : p ∈ (conflictOutput sha256 s o).proposals) : p.Bounded s := by
  obtain ⟨-, -, hi, hs, hw⟩ := mem_conflictOutput hp
  obtain ⟨hcov, hres⟩ := hc.conflicted o ho hco
  refine ⟨?_, ?_, by simp [hs], by simp [hw]⟩
  · intro o' ho' hm
    rw [hi, order_mem_groupIdentities] at hm
    obtain rfl := eq_of_id_eq h.orders_nodup ho' ho hm
    exact hcov
  · intro q hq hm
    rw [hi, payment_mem_groupIdentities] at hm
    obtain ⟨q', hq', he⟩ := List.mem_map.mp hm
    obtain rfl := payment_eq_of_id_eq h.payments_nodup (mem_resolved.mp hq').1 hq he
    exact hres q' hq'

theorem bounded_of_claim (h : s.Gated) (hc : s.ConflictsCovered) {pid : String}
    (hcp : s.contested pid = true)
    (hp : p ∈ (claimOutput sha256 s pid ((s.claimants pid).map (·.id))).proposals) :
    p.Bounded s := by
  obtain ⟨-, -, hi, hs, hw⟩ := mem_claimOutput hp
  obtain ⟨q, hq, rfl⟩ := exists_of_contested hcp
  obtain ⟨hqt, hcl⟩ := hc.contested q hq hcp
  refine ⟨?_, ?_, by simp [hs], by simp [hw]⟩
  · intro o ho hm
    rcases (hi _).mp hm with he | ⟨o', ho', he⟩
    · simp at he
    · obtain rfl := eq_of_id_eq h.orders_nodup ho (mem_claimants.mp ho').1 (by simpa using he)
      exact hcl o ho'
  · intro q' hq' hm
    rcases (hi _).mp hm with he | ⟨o', ho', he⟩
    · obtain rfl := payment_eq_of_id_eq h.payments_nodup hq' hq (by simpa using he)
      exact hqt
    · simp at he

/-- Every proposal about an order or a payment is bounded exactly when no conflict pass runs,
or what the conflict passes name is covered. -/
theorem proposals_bounded_iff (he : evaluate sha256 s = .ok e) :
    (∀ p ∈ e.proposals, p.NamesFact → p.Bounded s) ↔
      s.Early ∨ RuleCode.pi010 ∈ s.policy.disabledRules ∨ s.ConflictsCovered := by
  constructor
  · intro hb
    by_contra hn
    simp only [not_or] at hn
    obtain ⟨hearly, hen, hcov⟩ := hn
    have h := (early_or_gated he).resolve_left hearly
    have hr : RuleCode.pi010 ∈ s.rules := mem_rules.mpr hen
    refine hcov ⟨?_, ?_⟩
    · intro o ho hc
      obtain ⟨p, hp⟩ := exists_mem_conflictOutput sha256 hr o
      obtain ⟨-, -, hi, -⟩ := mem_conflictOutput hp
      have ho' : Identity.order o.id ∈ p.identities := (hi _).mpr List.mem_cons_self
      have hbp := hb p ((mem_proposals h he).mpr (Or.inl ⟨o, ho, hc, hp⟩)) ⟨_, ho', rfl⟩
      refine ⟨hbp.orders o ho ho', fun q hq => hbp.payments q (mem_resolved.mp hq).1 ?_⟩
      exact (hi _).mpr (payment_mem_groupIdentities.mpr (List.mem_map.mpr ⟨q, hq, rfl⟩))
    · intro q hq hc
      obtain ⟨p, hp⟩ := exists_mem_claimOutput sha256 hr hc
      obtain ⟨-, -, hi, -⟩ := mem_claimOutput hp
      have hq' : Identity.payment q.id ∈ p.identities := (hi _).mpr (Or.inl rfl)
      have hbp := hb p ((mem_proposals h he).mpr (Or.inr (Or.inl ⟨_, hc, hp⟩))) ⟨_, hq', rfl⟩
      refine ⟨hbp.payments q hq hq', fun o ho => hbp.orders o (mem_claimants.mp ho).1 ?_⟩
      exact (hi _).mpr (Or.inr ⟨o, ho, rfl⟩)
  · intro hcond p hp hf
    have h := not_early_of_namesFact he hp hf
    have hcov : RuleCode.pi010 ∈ s.rules → s.ConflictsCovered := by
      intro hr
      rcases hcond with hearly | hd | hc
      · rcases hearly with hs | hs | hs
        · exact absurd h.fresh hs
        · simp [h.verified] at hs
        · simp [h.unconflicted] at hs
      · exact absurd hd (mem_rules.mp hr)
      · exact hc
    rcases (mem_proposals h he).mp hp with ⟨o, ho, hc, hp⟩ | ⟨pid, hc, hp⟩ |
      ⟨o, ho, ha, hp | ⟨r, hr, hp⟩⟩ | ⟨q, hq, hp⟩
    · exact bounded_of_conflict h (hcov (mem_conflictOutput hp).2.1) ho hc hp
    · exact bounded_of_claim h (hcov (mem_claimOutput hp).2.1) hc hp
    · obtain ⟨-, -, hi, -, hs, hw⟩ := mem_paymentRules hp
      exact bounded_of_identities h ho ha hi (by simp [hs]) (by simp [hw])
    · obtain ⟨-, hi, hs, hw⟩ := mem_refundRules hr hp
      refine bounded_of_identities h ho ha (fun x hx => ?_) hs hw
      rw [hi, List.mem_singleton] at hx
      exact hx ▸ List.mem_cons_self
    · obtain ⟨-, hi, hq', hfacts⟩ := mem_paymentPart hp
      refine ⟨?_, ?_, by simp [hfacts], by simp [hfacts]⟩
      · intro o ho hm
        rw [hi] at hm
        simp at hm
      · intro q' hm' hm
        rw [hi] at hm
        obtain rfl := payment_eq_of_id_eq h.payments_nodup hm' hq (by simpa using hm)
        exact hq'

namespace Fixture

/-- An order that changed after the Stripe scan and refers to a payment not read yet. -/
def aheadSnapshot : Snapshot :=
  { snapshot with orders := [{ order with transactionId := "pi_two", changedAt := now }] }

end Fixture

open Fixture Sha256

theorem proposals_bounded_iff_conflict : ∃ e, evaluate hexdigest conflictSnapshot = .ok e ∧
    e.proposals ≠ [] ∧ ∀ p ∈ e.proposals, p.NamesFact → p.Bounded conflictSnapshot := by
  obtain ⟨e, he, hne⟩ : ∃ e, evaluate hexdigest conflictSnapshot = .ok e ∧ e.proposals ≠ [] :=
    ⟨_, rfl, by decide +kernel⟩
  have hc : conflictSnapshot.ConflictsCovered :=
    ⟨by unfold Snapshot.Covers; decide +kernel, by unfold Snapshot.Covers; decide +kernel⟩
  exact ⟨e, he, hne, (proposals_bounded_iff he).mpr (Or.inr (Or.inr hc))⟩

/-- The order ahead of the Stripe scan is reported although its last change is past the
boundary. -/
theorem ahead_order_reported : ∃ e, evaluate hexdigest aheadSnapshot = .ok e ∧
    ∃ p ∈ e.proposals, p.rule = .pi010 ∧ ∃ o ∈ aheadSnapshot.orders,
      Identity.order o.id ∈ p.identities ∧ aheadSnapshot.through < o.changedAt :=
  ⟨_, rfl, by decide +kernel⟩

end LedgerGuard
