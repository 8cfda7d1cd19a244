import LedgerGuard.Core.DateRange
import LedgerGuard.Core.Foreign

/-! # Snapshots with their collections in another order

Payments, orders, refunds and coverage are read through sorted lists, searches by a unique key and
questions about membership, so an evaluation that adds no datetimes says the same about a snapshot
and its permutations. Their inputs have one encoding.
-/

namespace LedgerGuard

open Ordered Grouping Sweep

/-- The same facts in another order. -/
structure Snapshot.Permuted (t s : Snapshot) : Prop where
  organizationId : t.organizationId = s.organizationId
  storeId : t.storeId = s.storeId
  accountId : t.accountId = s.accountId
  mode : t.mode = s.mode
  now : t.now = s.now
  windowFrom : t.windowFrom = s.windowFrom
  payments : t.payments.Perm s.payments
  orders : t.orders.Perm s.orders
  refunds : t.refunds.Perm s.refunds
  coverage : t.coverage.Perm s.coverage
  linkVerified : t.linkVerified = s.linkVerified
  linkConflict : t.linkConflict = s.linkConflict
  ambiguousOrderHints : t.ambiguousOrderHints = s.ambiguousOrderHints
  policy : t.policy = s.policy

variable {sha256 : String → String} {s t : Snapshot} {o : Order}

def Snapshot.withCoverage (s : Snapshot) (coverage : List Coverage) : Snapshot :=
  { s with coverage }

section Coverage

variable {coverage : List Coverage} (hn : (s.coverage.map (·.source)).Nodup)
  (hp : coverage.Perm s.coverage)

include hn hp

theorem withCoverage_coverageBySource :
    (s.withCoverage coverage).coverageBySource = s.coverageBySource := by
  funext source
  have hn' : (coverage.map (·.source)).Nodup := (hp.map _).nodup_iff.mpr hn
  change coverage.find? (·.source = source) = s.coverage.find? (·.source = source)
  cases hf : s.coverage.find? (·.source = source) with
  | none =>
    rw [List.find?_eq_none] at hf ⊢
    exact fun c hc => hf c (hp.mem_iff.mp hc)
  | some c =>
    have hs : c.source = source := by simpa using List.find?_some hf
    rw [← hs]
    exact find?_of_nodup hn' (hp.mem_iff.mpr (List.mem_of_find?_eq_some hf))

theorem withCoverage_stale : (s.withCoverage coverage).stale = s.stale := by
  unfold Snapshot.stale
  rw [withCoverage_coverageBySource hn hp]
  rfl

theorem withCoverage_through : (s.withCoverage coverage).through = s.through := by
  unfold Snapshot.through
  rw [withCoverage_coverageBySource hn hp]
  rfl

theorem withCoverage_emit : emit sha256 (s.withCoverage coverage) = emit sha256 s := by
  funext rule ids risk c eligible facts
  have hsort : sortBy Coverage.source coverage = sortBy Coverage.source s.coverage :=
    sortBy_congr ((hp.map _).nodup_iff.mpr hn) hp
  simp only [emit, Snapshot.withCoverage, hsort]
  rfl

theorem withCoverage_matching :
    matching sha256 (s.withCoverage coverage) = matching sha256 s := by
  have hstep : matchOrder sha256 (s.withCoverage coverage) = matchOrder sha256 s := by
    funext m o
    simp only [matchOrder, conflictOutput, withCoverage_emit hn hp]
    rfl
  simp only [matching, hstep]
  rfl

theorem withCoverage_claims : claims sha256 (s.withCoverage coverage) = claims sha256 s := by
  funext m
  simp only [claims, claimOutput, withCoverage_emit hn hp]
  rfl

theorem withCoverage_compensated : compensated (s.withCoverage coverage) = compensated s := by
  have h : isCompensated (s.withCoverage coverage) = isCompensated s := by
    funext p
    simp only [isCompensated, withCoverage_through hn hp]
    rfl
  funext group
  simp only [compensated, h]

theorem withCoverage_correctedDuplicate :
    correctedDuplicate (s.withCoverage coverage) = correctedDuplicate s := by
  funext group
  unfold correctedDuplicate
  rw [withCoverage_compensated hn hp]

theorem withCoverage_orderFacts : orderFacts (s.withCoverage coverage) = orderFacts s := by
  funext o group
  unfold orderFacts
  rw [withCoverage_compensated hn hp, withCoverage_correctedDuplicate hn hp]

theorem withCoverage_paymentRules :
    paymentRules sha256 (s.withCoverage coverage) = paymentRules sha256 s := by
  funext o group c
  have hpair : pairRules sha256 (s.withCoverage coverage) o group c =
      pairRules sha256 s o group c := by
    funext p
    unfold pairRules
    rw [withCoverage_emit hn hp, withCoverage_orderFacts hn hp]
    rfl
  unfold paymentRules duplicateRule missingRule
  rw [hpair, withCoverage_emit hn hp, withCoverage_orderFacts hn hp,
    withCoverage_correctedDuplicate hn hp]
  rfl

theorem withCoverage_stripeRefunds :
    stripeRefunds (s.withCoverage coverage) = stripeRefunds s := by
  funext group
  unfold stripeRefunds
  rw [withCoverage_compensated hn hp, withCoverage_correctedDuplicate hn hp]
  rfl

theorem withCoverage_refundRules :
    refundRules sha256 (s.withCoverage coverage) = refundRules sha256 s := by
  funext o group c
  unfold refundRules refundTotals refundFacts
  rw [withCoverage_emit hn hp, withCoverage_orderFacts hn hp, withCoverage_stripeRefunds hn hp,
    withCoverage_through hn hp]
  rfl

theorem withCoverage_hold : hold (s.withCoverage coverage) = hold s := by
  funext b o group
  unfold hold
  rw [withCoverage_through hn hp]
  rfl

theorem withCoverage_evaluateOrder :
    evaluateOrder sha256 (s.withCoverage coverage) = evaluateOrder sha256 s := by
  funext m out o
  unfold evaluateOrder applyRules
  rw [withCoverage_hold hn hp, withCoverage_paymentRules hn hp, withCoverage_refundRules hn hp]

theorem withCoverage_settlePayment :
    settlePayment sha256 (s.withCoverage coverage) = settlePayment sha256 s := by
  funext m out p
  unfold settlePayment
  rw [withCoverage_emit hn hp, withCoverage_through hn hp]
  rfl

theorem withCoverage_reconcileFacts :
    reconcileFacts sha256 (s.withCoverage coverage) = reconcileFacts sha256 s := by
  unfold reconcileFacts
  dsimp only
  rw [withCoverage_matching hn hp, withCoverage_claims hn hp, withCoverage_evaluateOrder hn hp,
    withCoverage_settlePayment hn hp]
  rfl

theorem withCoverage_ruleSums : ruleSums (s.withCoverage coverage) = ruleSums s := by
  funext o group
  unfold ruleSums compensationSums duplicateSums refundSums
  rw [withCoverage_through hn hp, withCoverage_correctedDuplicate hn hp,
    withCoverage_stripeRefunds hn hp]
  rfl

theorem withCoverage_reconcileFactsInRange :
    reconcileFactsInRange sha256 (s.withCoverage coverage) = reconcileFactsInRange sha256 s := by
  unfold reconcileFactsInRange orderSums paymentSums
  dsimp only
  rw [withCoverage_matching hn hp, withCoverage_claims hn hp, withCoverage_evaluateOrder hn hp,
    withCoverage_settlePayment hn hp, withCoverage_ruleSums hn hp, withCoverage_hold hn hp,
    withCoverage_through hn hp]
  rfl

end Coverage

namespace Snapshot.Permuted

theorem refl (s : Snapshot) : s.Permuted s :=
  ⟨rfl, rfl, rfl, rfl, rfl, rfl, .refl _, .refl _, .refl _, .refl _, rfl, rfl, rfl, rfl⟩

theorem symm (h : t.Permuted s) : s.Permuted t :=
  ⟨h.organizationId.symm, h.storeId.symm, h.accountId.symm, h.mode.symm, h.now.symm,
    h.windowFrom.symm, h.payments.symm, h.orders.symm, h.refunds.symm, h.coverage.symm,
    h.linkVerified.symm, h.linkConflict.symm, h.ambiguousOrderHints.symm, h.policy.symm⟩

theorem validate_eq (h : t.Permuted s) : t.validate = s.validate := by
  have hpayments := (h.payments.map (·.id)).nodup_iff
  have horders := (h.orders.map (·.id)).nodup_iff
  have hcoverage := (h.coverage.map (·.source)).nodup_iff
  have hrefunds := (h.refunds.map fun r => (r.source, r.id)).nodup_iff
  simp only [Snapshot.validate, h.now, h.windowFrom, h.accountId, h.mode, h.storeId, hpayments,
    horders, hcoverage, hrefunds, h.payments.any_eq, h.orders.any_eq]

theorem orderedInput_eq (h : t.Permuted s) :
    canonical t.orderedInput = canonical s.orderedInput := by
  have hsorted : ∀ {xs ys : List Json}, xs.Perm ys →
      canonical (.arr (sortBy canonical xs)) = canonical (.arr (sortBy canonical ys)) := by
    intro xs ys hp
    simp only [canonical, canonicalElems_eq, map_sortBy_congr (hp.map canonical)]
  simp only [Snapshot.orderedInput, h.organizationId, h.storeId, h.accountId, h.mode, h.now,
    h.windowFrom, h.linkVerified, h.linkConflict, h.ambiguousOrderHints, h.policy]
  rw [canonical, canonical]
  simp only [canonicalFields, hsorted (h.payments.map Payment.toJson),
    hsorted (h.orders.map Order.toJson), hsorted (h.refunds.map Refund.toJson),
    hsorted (h.coverage.map Coverage.toJson)]

theorem withCoverage (h : t.Permuted s) : (t.withCoverage s.coverage).Permuted s :=
  { h with coverage := .refl _ }

section Framed

variable (h : t.Permuted s) (hc : t.coverage = s.coverage)

include h hc

theorem frame : SameFrame t s :=
  ⟨h.organizationId, h.storeId, h.accountId, h.mode, h.now, h.windowFrom, hc, h.linkVerified,
    h.linkConflict, h.ambiguousOrderHints, h.policy⟩

theorem sameOrders : SameOrders t s where
  frame := h.frame hc
  orders := h.orders
  view o _ :=
    { resolved := by simp only [mem_resolved, h.payments.mem_iff, implies_true]
      hints := by simp only [mem_hintsByOrder, h.payments.mem_iff, h.storeId, implies_true]
      refunds := fun r _ => h.refunds.mem_iff }

theorem gated (hs : s.Gated) : t.Gated := hs.of_frame (h.frame hc) (h.validate_eq ▸ hs.valid)

theorem missingRule_eq (hs : s.Gated) (ho : o ∈ s.orders) (c : ℕ) :
    missingRule sha256 t o (s.group o) c = missingRule sha256 s o (s.group o) c := by
  have hv := (h.sameOrders hc).view o ho
  apply missingRule_congr (h.frame hc) (orderFacts_congr (h.frame hc) hv (h.gated hc hs) hs)
  intro _ _ _
  rw [similarPayments_eq_iff (h.gated hc hs).payments_nodup hs.payments_nodup]
  simp only [h.payments.mem_iff, implies_true]

theorem reconcileFacts_agree (sha256 : String → String) (hs : s.Gated) :
    (∃ m, reconcileFacts sha256 t = .error m ∧ reconcileFacts sha256 s = .error m) ∨
      ∃ out out', reconcileFacts sha256 t = .ok out ∧ reconcileFacts sha256 s = .ok out' ∧
        out.proposals = out'.proposals ∧ (∀ x, x ∈ out.blocked ↔ x ∈ out'.blocked) ∧
        out.warnings = out'.warnings := by
  have hso := h.sameOrders hc
  have ht := h.gated hc hs
  have hpayments : sortBy Payment.id t.payments = sortBy Payment.id s.payments :=
    sortBy_congr ht.payments_nodup h.payments
  have hwarnings : ∀ {u : Snapshot}, u.Gated → (matchedOutput sha256 u).warnings = [] := by
    intro u hu
    apply List.eq_nil_iff_forall_not_mem.mpr
    intro w hw
    rcases (mem_matchedOutput Output.warningsField hu.payments_nodup).mp hw with
      ⟨o, -, -, hw⟩ | ⟨pid, -, hw⟩
    · exact List.not_mem_nil hw
    · unfold claimOutput at hw
      split at hw <;> exact List.not_mem_nil hw
  rw [reconcileFacts_eq ht, reconcileFacts_eq hs, hpayments, hso.paymentPart_eq ht hs,
    hso.rounds_eq ht hs fun o ho _ => h.missingRule_eq hc hs ho _]
  cases gather (orderPart sha256 s) s.sortedOrders with
  | error m => exact Or.inl ⟨m, rfl, rfl⟩
  | ok r =>
    refine Or.inr ⟨_, _, rfl, rfl, ?_, ?_, ?_⟩
    · simp only [Output.proposals_add, hso.matchedOutput_proposals ht hs]
    · intro x
      simp only [Output.blocked_add, List.mem_append, hso.blocked_iff ht hs]
    · simp only [Output.warnings_add, hwarnings ht, hwarnings hs]

end Framed

theorem evaluate_eq (h : t.Permuted s) : evaluate sha256 t = evaluate sha256 s := by
  cases hv : s.validate with
  | error m =>
    simp only [evaluate, h.validate_eq, hv]
    rfl
  | ok u =>
    have hn : (t.coverage.map (·.source)).Nodup :=
      Snapshot.coverage_nodup_of_valid (h.validate_eq.trans hv)
    have hf := h.withCoverage.frame rfl
    have hemit : emit sha256 t = emit sha256 s :=
      (withCoverage_emit hn h.coverage.symm).symm.trans (emit_congr hf)
    have hstale : t.stale = s.stale :=
      (withCoverage_stale hn h.coverage.symm).symm.trans (stale_congr hf)
    have hrules : t.rules = s.rules := by rw [Snapshot.rules, Snapshot.rules, h.policy]
    simp only [evaluate, h.validate_eq, hv, hemit, hstale, hrules, h.linkVerified, h.linkConflict,
      h.storeId, h.now, h.orderedInput_eq, bind, Except.bind]
    split_ifs with hfresh hlink hconflict
    · rfl
    · rfl
    · rfl
    · simp only [not_or, Bool.not_eq_false, Bool.not_eq_true] at hlink
      have hg : s.Gated := ⟨hv, not_not.mp hfresh, hlink.1, hlink.2⟩
      have hpasses := h.withCoverage.reconcileFacts_agree rfl sha256 hg
      rw [withCoverage_reconcileFacts hn h.coverage.symm] at hpasses
      rcases hpasses with ⟨m, hm, hm'⟩ | ⟨out, out', hout, hout', hproposals, hblocked, hwarnings⟩
      · rw [hm, hm']
      · simp only [hout, hout', hproposals, hwarnings,
          sortedSet_congr Identity.render_injective hblocked]

theorem evaluateInRange_withCoverage (h : t.Permuted s) (hv : s.validate = .ok ()) :
    evaluateInRange sha256 (t.withCoverage s.coverage) = evaluateInRange sha256 t := by
  have hn : (t.coverage.map (·.source)).Nodup :=
    Snapshot.coverage_nodup_of_valid (h.validate_eq.trans hv)
  have hvalid : (t.withCoverage s.coverage).validate = t.validate :=
    h.withCoverage.validate_eq.trans h.validate_eq.symm
  have heq : evaluate sha256 (t.withCoverage s.coverage) = evaluate sha256 t :=
    h.withCoverage.evaluate_eq.trans h.evaluate_eq.symm
  simp only [evaluateInRange, hvalid, heq, withCoverage_stale hn h.coverage.symm,
    withCoverage_reconcileFactsInRange hn h.coverage.symm]
  rfl

end Snapshot.Permuted

end LedgerGuard
