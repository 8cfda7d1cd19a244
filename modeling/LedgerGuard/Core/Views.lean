import LedgerGuard.Core.Emissions
import Mathlib.Order.ConditionallyCompleteLattice.Basic

/-! # What the round of an order depends on

The settings of a run, the payments that an order is linked to and the refunds
of the order and of those payments. Two snapshots that agree on these agree on
all that is said about the order, apart from the similar payments that a
missing payment lists in its evidence.
-/

namespace LedgerGuard

open Ordered Sweep

variable {sha256 : String → String} {s t : Snapshot} {o : Order} {p : Payment}

/-- What a proposal says, without its evidence. -/
structure Summary where
  key : String
  rule : RuleCode
  identities : List Identity
  risk : Option Money
  confidence : ℕ
  eligibleAt : Instant
  ready : Bool

def Proposal.summary (p : Proposal) : Summary :=
  ⟨p.key, p.rule, p.identities, p.risk, p.confidence, p.eligibleAt, p.ready⟩

/-- The summaries, blocked identities and warnings of a result, each as a set. -/
abbrev Sketch := Set Summary × Set Identity × Set Warning

def Output.sketch (out : Output) : Sketch :=
  ({k | ∃ p ∈ out.proposals, p.summary = k}, {x | x ∈ out.blocked}, {w | w ∈ out.warnings})

def Evaluation.sketch (e : Evaluation) : Sketch :=
  ({k | ∃ p ∈ e.proposals, p.summary = k}, {x | x ∈ e.blockedIdentities}, {w | w ∈ e.warnings})

theorem Output.sketch_congr {a b : Output}
    (hp : a.proposals.map Proposal.summary = b.proposals.map Proposal.summary)
    (hb : ∀ x, x ∈ a.blocked ↔ x ∈ b.blocked) (hw : a.warnings = b.warnings) :
    a.sketch = b.sketch := by
  refine Prod.ext (Set.ext fun k => ?_) (Prod.ext (Set.ext hb) (by simp [Output.sketch, hw]))
  change (∃ p ∈ a.proposals, p.summary = k) ↔ ∃ p ∈ b.proposals, p.summary = k
  rw [← List.mem_map, ← List.mem_map, hp]

/-- Two snapshots of one store under the same clock, window, coverage, links and policy. -/
structure SameFrame (t s : Snapshot) : Prop where
  organizationId : t.organizationId = s.organizationId
  storeId : t.storeId = s.storeId
  accountId : t.accountId = s.accountId
  mode : t.mode = s.mode
  now : t.now = s.now
  windowFrom : t.windowFrom = s.windowFrom
  coverage : t.coverage = s.coverage
  linkVerified : t.linkVerified = s.linkVerified
  linkConflict : t.linkConflict = s.linkConflict
  ambiguousOrderHints : t.ambiguousOrderHints = s.ambiguousOrderHints
  policy : t.policy = s.policy

section Frame

variable (h : SameFrame t s)

include h

theorem rules_congr : t.rules = s.rules := by
  rw [Snapshot.rules, Snapshot.rules, h.policy]

theorem coverageBySource_congr : t.coverageBySource = s.coverageBySource := by
  unfold Snapshot.coverageBySource
  rw [h.coverage]

theorem stale_congr : t.stale = s.stale := by
  rw [Snapshot.stale, Snapshot.stale, coverageBySource_congr h, h.now, h.windowFrom, h.policy]

theorem through_congr : t.through = s.through := by
  rw [Snapshot.through, Snapshot.through, coverageBySource_congr h, h.now]

theorem paymentEligible_congr (p : Payment) : paymentEligible t p = paymentEligible s p := by
  rw [paymentEligible, paymentEligible, grace, grace, h.policy]

theorem emit_congr : emit sha256 t = emit sha256 s := by
  funext rule ids risk c eligible facts
  simp only [emit, findingKey, rules_congr h, h.organizationId, h.storeId, h.mode, h.now,
    h.policy, h.coverage]

theorem emit_summary_congr {rule : RuleCode} {ids ids' : List Identity}
    (hi : ∀ x, x ∈ ids ↔ x ∈ ids') {risk : Option Money} {c : ℕ} {eligible : Instant}
    {facts facts' : Facts} :
    (emit sha256 t rule ids risk c eligible facts).map Proposal.summary =
      (emit sha256 s rule ids' risk c eligible facts').map Proposal.summary := by
  rw [emit_congr h, emit, emit, sortedSet_congr Identity.render_injective hi]
  split_ifs <;> rfl

theorem emit_eq_of_ids {rule : RuleCode} {ids ids' : List Identity} (hi : ∀ x, x ∈ ids ↔ x ∈ ids')
    {risk : Option Money} {c : ℕ} {eligible : Instant} {facts : Facts} :
    emit sha256 t rule ids risk c eligible facts =
      emit sha256 s rule ids' risk c eligible facts := by
  rw [emit_congr h, emit, emit, sortedSet_congr Identity.render_injective hi]

theorem hold_congr_frame (b : List Identity) (o : Order) (group : List Payment) :
    hold t b o group = hold s b o group := by
  simp only [hold, through_congr h, h.windowFrom]

theorem Snapshot.Gated.of_frame (hs : s.Gated) (ht : t.validate = .ok ()) : t.Gated := by
  refine ⟨ht, ?_, ?_, ?_⟩
  · rw [stale_congr h]
    exact hs.fresh
  · rw [h.linkVerified]
    exact hs.verified
  · rw [h.linkConflict]
    exact hs.unconflicted

end Frame

/-- The refunds that the rounds of an order with this group look at. -/
def refundInView (o : Order) (group : List Payment) (r : Refund) : Bool :=
  (r.source = .stripe && r.parentId ∈ group.map (·.id)) || (r.source = .woo && r.parentId = o.id)

/-- The order is linked to the same payments, and they and it to the same refunds. -/
structure SameView (t s : Snapshot) (o : Order) : Prop where
  resolved : ∀ p, p ∈ t.resolved o ↔ p ∈ s.resolved o
  hints : ∀ p, p ∈ t.hintsByOrder o.id ↔ p ∈ s.hintsByOrder o.id
  refunds : ∀ r, refundInView o (s.group o) r = true → (r ∈ t.refunds ↔ r ∈ s.refunds)

theorem Snapshot.refunds_nodup_of_valid (hv : s.validate = .ok ()) :
    (s.refunds.map (fun r => (r.source, r.id))).Nodup := by
  unfold Snapshot.validate at hv
  split_ifs at hv with h₁ h₂ h₃ h₄ h₅ h₆
  exact h₆

theorem Snapshot.Gated.refunds_nodup (h : s.Gated) :
    (s.refunds.map (fun r => (r.source, r.id))).Nodup := Snapshot.refunds_nodup_of_valid h.valid

theorem refund_ids_nodup (h : s.Gated) {P : Refund → Bool} {k : RefundSource}
    (hP : ∀ r, P r = true → r.source = k) : ((s.refunds.filter P).map (·.id)).Nodup := by
  have hn : ((s.refunds.filter P).map fun r => (r.source, r.id)).Nodup :=
    h.refunds_nodup.sublist ((List.filter_sublist).map _)
  have hk : (s.refunds.filter P).map (fun r => (r.source, r.id)) =
      ((s.refunds.filter P).map (·.id)).map (Prod.mk k) := by
    rw [List.map_map]
    exact List.map_congr_left fun r hr => by rw [hP r (List.mem_filter.mp hr).2]; rfl
  rw [hk] at hn
  exact hn.of_map

theorem unknown_of_resolved (h : ∀ p, p ∈ t.resolved o ↔ p ∈ s.resolved o) :
    t.unknown o = s.unknown o := by
  refine List.filter_congr fun ref href => ?_
  have htarget : ∀ {u : Snapshot}, u.aliasTargets ref = [] ↔
      ∀ p ∈ u.resolved o, ref ∉ p.aliases := by
    intro u
    simp only [Snapshot.aliasTargets, List.filter_eq_nil_iff, decide_eq_true_eq, mem_resolved]
    constructor
    · rintro h p ⟨hp, -⟩
      exact h p hp
    · intro h p hp ha
      exact h p ⟨hp, ref, href, ha⟩ ha
  simp only [htarget, h]

theorem resolved_perm_of (ht : t.Gated) (hs : s.Gated)
    (h : ∀ p, p ∈ t.resolved o ↔ p ∈ s.resolved o) : (t.resolved o).Perm (s.resolved o) :=
  (List.perm_ext_iff_of_nodup (ht.payments_nodup.of_map.filter _)
    (hs.payments_nodup.of_map.filter _)).mpr h

section View

variable (hf : SameFrame t s) (hv : SameView t s o) (ht : t.Gated) (hs : s.Gated)

include hv ht hs

theorem resolved_perm : (t.resolved o).Perm (s.resolved o) := resolved_perm_of ht hs hv.resolved

theorem group_congr : t.group o = s.group o := by
  refine sortBy_congr ?_ ?_
  · exact ((sortBy_perm Payment.id _).map _).nodup_iff.mp (group_ids_nodup ht.payments_nodup o)
  · rw [List.perm_ext_iff_of_nodup (candidates_nodup ht.payments_nodup o)
      (candidates_nodup hs.payments_nodup o)]
    intro p
    have hg := @mem_group
    simp only [Snapshot.group, mem_sortBy] at hg
    rw [hg, hg, hv.resolved, hv.hints]

omit ht hs in
theorem unknown_congr : t.unknown o = s.unknown o := unknown_of_resolved hv.resolved

include hf

theorem conflict_congr : t.conflict o = s.conflict o := by
  have hh : t.hintsByOrder o.id = [] ↔ s.hintsByOrder o.id = [] := by
    simp only [List.eq_nil_iff_forall_not_mem, hv.hints]
  have hp := resolved_perm hv ht hs
  simp only [Snapshot.conflict, hp.length_eq, unknown_congr hv, hf.ambiguousOrderHints, hh, ne_eq,
    hf.storeId, hp.any_eq]

theorem isMatched_congr : t.isMatched o = s.isMatched o := by
  rw [Snapshot.isMatched, Snapshot.isMatched, conflict_congr hf hv ht hs]

theorem conflicted_congr : t.conflicted o = s.conflicted o := by
  rw [Snapshot.conflicted, Snapshot.conflicted, conflict_congr hf hv ht hs]

theorem matchConfidence_congr : t.matchConfidence o = s.matchConfidence o := by
  have hp : (t.candidates o).Perm (s.candidates o) := by
    have h := (sortBy_perm Payment.id (t.candidates o)).symm
    rw [show sortBy Payment.id (t.candidates o) = sortBy Payment.id (s.candidates o) from
      group_congr hv ht hs] at h
    exact h.trans (sortBy_perm Payment.id (s.candidates o))
  have hn : t.candidates o = [] ↔ s.candidates o = [] := by
    simp only [List.eq_nil_iff_forall_not_mem, hp.mem_iff]
  simp only [Snapshot.matchConfidence, ne_eq, hn, hp.all_eq, hf.storeId]

omit ht hs in
theorem conflictOutput_sketch :
    (conflictOutput sha256 t o).sketch = (conflictOutput sha256 s o).sketch := by
  have hi : ∀ x, x ∈ groupIdentities o (t.resolved o) ↔ x ∈ groupIdentities o (s.resolved o) := by
    intro x
    simp only [groupIdentities, List.mem_cons, List.mem_map, hv.resolved]
  refine Output.sketch_congr ?_ hi rfl
  simp only [conflictOutput, hf.now]
  exact emit_summary_congr hf hi

omit ht hs in
theorem conflictOutput_proposals :
    (conflictOutput sha256 t o).proposals = (conflictOutput sha256 s o).proposals := by
  have hi : ∀ x, x ∈ groupIdentities o (t.resolved o) ↔ x ∈ groupIdentities o (s.resolved o) := by
    intro x
    simp only [groupIdentities, List.mem_cons, List.mem_map, hv.resolved]
  simp only [conflictOutput, hf.now, unknown_congr hv]
  exact emit_eq_of_ids hf hi

omit hf in
theorem filter_refunds_perm {P : Refund → Bool}
    (hP : ∀ r, P r = true → refundInView o (s.group o) r = true) :
    (t.refunds.filter P).Perm (s.refunds.filter P) :=
  filter_perm ht.refunds_nodup.of_map hs.refunds_nodup.of_map fun r hr => hv.refunds r (hP r hr)

theorem isCompensated_congr {p : Payment} (hp : p ∈ s.group o) :
    isCompensated t p = isCompensated s p := by
  have hperm := filter_refunds_perm hv ht hs (P := fun r =>
    r.source = .stripe && r.parentId = p.id && r.status = .succeeded) (by
      intro r hr
      simp only [Bool.and_eq_true, decide_eq_true_eq] at hr
      simp only [refundInView, hr.1.1, hr.1.2, Bool.or_eq_true, Bool.and_eq_true,
        decide_eq_true_eq]
      exact Or.inl ⟨trivial, List.mem_map.mpr ⟨p, hp, rfl⟩⟩)
  have hnil := hperm.length_eq
  simp only [isCompensated, hperm.all_eq, (hperm.map fun r => r.amount.minor).sum_eq, ne_eq,
    ← List.length_eq_zero_iff, hnil, hf.policy, hf.now, through_congr hf]

theorem compensated_congr {group : List Payment} (hg : ∀ p ∈ group, p ∈ s.group o) :
    compensated t group = compensated s group := by
  have hs : ∀ p ∈ succeeded group, isCompensated t p = isCompensated s p :=
    fun p hp => isCompensated_congr hf hv ht hs (hg p (List.mem_filter.mp hp).1)
  rw [compensated, compensated, List.filter_congr hs]

theorem correctedDuplicate_congr :
    correctedDuplicate t (s.group o) = correctedDuplicate s (s.group o) := by
  rw [correctedDuplicate, correctedDuplicate, compensated_congr hf hv ht hs fun _ hp => hp]

theorem orderFacts_congr : orderFacts t o (s.group o) = orderFacts s o (s.group o) := by
  rw [orderFacts, orderFacts, correctedDuplicate_congr hf hv ht hs,
    compensated_congr hf hv ht hs fun _ hp => hp]

theorem stripeRefunds_congr : stripeRefunds t (s.group o) = stripeRefunds s (s.group o) := by
  have hP : ∀ r : Refund, (r.source = .stripe && r.parentId ∈ (s.group o).map (·.id) &&
      r.status = .succeeded && !(correctedDuplicate s (s.group o) &&
        r.parentId ∈ compensated s (s.group o))) = true → r.source = .stripe ∧
          r.parentId ∈ (s.group o).map (·.id) := by
    intro r hr
    simp only [Bool.and_eq_true, decide_eq_true_eq] at hr
    exact hr.1.1
  rw [stripeRefunds, stripeRefunds, correctedDuplicate_congr hf hv ht hs,
    compensated_congr hf hv ht hs fun _ hp => hp]
  refine sortBy_congr (refund_ids_nodup ht fun r hr => (hP r hr).1)
    (filter_refunds_perm hv ht hs fun r hr => ?_)
  simp [refundInView, (hP r hr).1, (hP r hr).2]

omit hf in
theorem wooRefunds_congr : wooRefunds t o = wooRefunds s o := by
  have hP : ∀ r : Refund, (r.source = .woo && r.parentId = o.id) = true →
      r.source = .woo ∧ r.parentId = o.id := by
    intro r hr
    simpa only [Bool.and_eq_true, decide_eq_true_eq] using hr
  refine sortBy_congr (refund_ids_nodup ht fun r hr => (hP r hr).1)
    (filter_refunds_perm hv ht hs fun r hr => ?_)
  simp [refundInView, (hP r hr).1, (hP r hr).2]

theorem refundRules_congr (c : ℕ) :
    refundRules sha256 t o (s.group o) c = refundRules sha256 s o (s.group o) c := by
  simp only [refundRules, refundTotals, refundFacts, stripeRefunds_congr hf hv ht hs,
    wooRefunds_congr hv ht hs, orderFacts_congr hf hv ht hs, through_congr hf, hf.policy,
    hf.windowFrom, emit_congr hf]

theorem duplicateRule_congr (c : ℕ) :
    duplicateRule sha256 t o (s.group o) c = duplicateRule sha256 s o (s.group o) c := by
  simp only [duplicateRule, correctedDuplicate_congr hf hv ht hs, emit_congr hf, hf.now,
    orderFacts_congr hf hv ht hs, funext (paymentEligible_congr hf)]

theorem pairRules_congr (c : ℕ) :
    pairRules sha256 t o (s.group o) c = pairRules sha256 s o (s.group o) c := by
  funext p
  simp only [pairRules, emit_congr hf, paymentEligible_congr hf, orderFacts_congr hf hv ht hs]

theorem paymentRules_summary (c : ℕ) :
    (paymentRules sha256 t o (s.group o) c).map Proposal.summary =
      (paymentRules sha256 s o (s.group o) c).map Proposal.summary := by
  have hm : (missingRule sha256 t o (s.group o) c).map Proposal.summary =
      (missingRule sha256 s o (s.group o) c).map Proposal.summary := by
    unfold missingRule
    by_cases hm : succeeded (s.group o) = [] ∧ o.status ∈ paidStatuses
    · rw [if_pos hm, if_pos hm, hf.policy]
      exact emit_summary_congr hf fun _ => Iff.rfl
    · rw [if_neg hm, if_neg hm]
  rw [paymentRules, paymentRules, List.map_append, List.map_append, List.map_append,
    List.map_append, duplicateRule_congr hf hv ht hs, hm, pairRules_congr hf hv ht hs]

theorem applyRules_congr {c : ℕ} (hm : missingRule sha256 t o (s.group o) c =
    missingRule sha256 s o (s.group o) c) :
    applyRules sha256 t o (s.group o) c = applyRules sha256 s o (s.group o) c := by
  rw [applyRules, applyRules, refundRules_congr hf hv ht hs, paymentRules, paymentRules,
    duplicateRule_congr hf hv ht hs, hm, pairRules_congr hf hv ht hs]

theorem applyRules_sketch (c : ℕ) :
    (applyRules sha256 t o (s.group o) c).map Output.sketch =
      (applyRules sha256 s o (s.group o) c).map Output.sketch := by
  rw [applyRules, applyRules, refundRules_congr hf hv ht hs]
  cases refundRules sha256 s o (s.group o) c with
  | error e => rfl
  | ok r =>
    refine congrArg Except.ok (Output.sketch_congr ?_ (fun _ => Iff.rfl) rfl)
    simp only [Output.proposals_add, List.map_append, paymentRules_summary hf hv ht hs]

theorem orderPart_sketch (hto : o ∈ t.orders) (hso : o ∈ s.orders)
    (hb : ∀ x ∈ groupIdentities o (s.group o),
      x ∈ (matchedOutput sha256 t).blocked ↔ x ∈ (matchedOutput sha256 s).blocked) :
    (orderPart sha256 t o).map Output.sketch = (orderPart sha256 s o).map Output.sketch := by
  rw [orderPart, orderPart, evaluateOrder_eq ht.orders_nodup hto,
    evaluateOrder_eq hs.orders_nodup hso, isMatched_congr hf hv ht hs, group_congr hv ht hs,
    matchConfidence_congr hf hv ht hs, hold_congr_frame hf, hold_congr hb]
  by_cases hm : s.isMatched o = true
  · rw [if_pos hm, if_pos hm]
    cases hold s (matchedOutput sha256 s).blocked o (s.group o) with
    | some held => rfl
    | none => exact applyRules_sketch hf hv ht hs _
  · rw [if_neg hm, if_neg hm]

end View

end LedgerGuard
