import LedgerGuard.Core.Views

/-! # Snapshots that show every order the same

Two snapshots with the same settings and orders, each of whose orders is linked to
the same payments and refunds, may differ in payments that no order is linked to.
Their runs match, block and propose the same, apart from what such payments
contribute and from the similar payments that a missing payment lists.
-/

namespace LedgerGuard

open Ordered Grouping Sweep

variable {sha256 : String → String} {s t : Snapshot} {o : Order} {p : Payment} {x : Identity}
  {pid : String}

structure SameOrders (t s : Snapshot) : Prop where
  frame : SameFrame t s
  orders : t.orders.Perm s.orders
  view : ∀ o ∈ s.orders, SameView t s o

namespace SameOrders

variable (h : SameOrders t s) (ht : t.Gated) (hs : s.Gated)

include h ht hs

omit hs in
theorem sortedOrders_eq : t.sortedOrders = s.sortedOrders := sortBy_congr ht.orders_nodup h.orders

theorem isMatched_eq (ho : o ∈ s.orders) : t.isMatched o = s.isMatched o :=
  isMatched_congr h.frame (h.view o ho) ht hs

theorem group_eq (ho : o ∈ s.orders) : t.group o = s.group o := group_congr (h.view o ho) ht hs

theorem claimants_eq : t.claimants pid = s.claimants pid := by
  unfold Snapshot.claimants
  rw [h.sortedOrders_eq ht]
  refine List.filter_congr fun o ho => ?_
  rw [h.isMatched_eq ht hs (mem_sortedOrders.mp ho), h.group_eq ht hs (mem_sortedOrders.mp ho)]

theorem claimed_eq : (matching sha256 t).claimed = (matching sha256 s).claimed := by
  have hpairs : ∀ o ∈ s.sortedOrders, claimPairs t o = claimPairs s o := by
    intro o ho
    rw [claimPairs, claimPairs, h.isMatched_eq ht hs (mem_sortedOrders.mp ho),
      h.group_eq ht hs (mem_sortedOrders.mp ho)]
  rw [matching_eq, matching_eq]
  simp only [h.sortedOrders_eq ht, List.flatMap_congr hpairs]

theorem contested_eq : t.contested pid = s.contested pid := by
  rw [Snapshot.contested, Snapshot.contested, h.claimants_eq ht hs]

theorem conflicted_eq (ho : o ∈ s.orders) : t.conflicted o = s.conflicted o :=
  conflicted_congr h.frame (h.view o ho) ht hs

theorem blocked_iff :
    x ∈ (matchedOutput sha256 t).blocked ↔ x ∈ (matchedOutput sha256 s).blocked := by
  rw [mem_matchedOutput_blocked ht.payments_nodup, mem_matchedOutput_blocked hs.payments_nodup]
  simp only [h.contested_eq ht hs, h.claimants_eq ht hs, h.orders.mem_iff]
  refine or_congr (exists_congr fun o => and_congr_right fun ho => ?_) Iff.rfl
  simp only [h.conflicted_eq ht hs ho, groupIdentities, List.mem_cons, List.mem_map,
    (h.view o ho).resolved]

theorem claimOutput_eq (ids : List String) (hc : pid ∈ keys (matching sha256 s).claimed) :
    claimOutput sha256 t pid ids = claimOutput sha256 s pid ids := by
  obtain ⟨o, ho⟩ := List.exists_mem_of_ne_nil _ (mem_keys_claimed.mp hc)
  obtain ⟨hos, -, hg⟩ := mem_claimants.mp ho
  obtain ⟨p, hp, rfl⟩ := List.mem_map.mp hg
  have hps : p ∈ s.payments := mem_payments_of_mem_group hp
  have hpt : p ∈ t.payments := mem_payments_of_mem_group (h.group_eq ht hs hos ▸ hp)
  rw [claimOutput, claimOutput, find?_of_nodup ht.payments_nodup hpt,
    find?_of_nodup hs.payments_nodup hps, h.frame.now, emit_congr h.frame]

theorem matchedOutput_proposals :
    (matchedOutput sha256 t).proposals = (matchedOutput sha256 s).proposals := by
  have hconflicts : (matching sha256 t).out.proposals = (matching sha256 s).out.proposals := by
    have hpart : ∀ o ∈ s.sortedOrders, (conflictPart sha256 t o).proposals =
        (conflictPart sha256 s o).proposals := by
      intro o ho
      rw [conflictPart, conflictPart, h.conflicted_eq ht hs (mem_sortedOrders.mp ho)]
      split
      · exact conflictOutput_proposals h.frame (h.view o (mem_sortedOrders.mp ho))
      · rfl
    have hsum := Output.proposalsField.get_sum
    simp only [Output.proposalsField] at hsum
    rw [matching_eq, matching_eq, hsum, hsum, List.flatMap_map, List.flatMap_map,
      h.sortedOrders_eq ht, List.flatMap_congr hpart]
  have hclaims : ∀ kv ∈ sortBy Prod.fst (matching sha256 s).claimed,
      claimOutput sha256 t kv.1 kv.2 = claimOutput sha256 s kv.1 kv.2 := by
    intro kv hkv
    exact h.claimOutput_eq ht hs kv.2 (List.mem_map.mpr ⟨kv, mem_sortBy.mp hkv, rfl⟩)
  rw [matchedOutput, matchedOutput, claims, claims, Output.proposals_add, Output.proposals_add,
    hconflicts, h.claimed_eq ht hs, List.map_congr_left hclaims]

theorem orderPart_eq (ho : o ∈ s.orders) (hm : Admitted sha256 s o →
    missingRule sha256 t o (s.group o) (s.matchConfidence o) =
      missingRule sha256 s o (s.group o) (s.matchConfidence o)) :
    orderPart sha256 t o = orderPart sha256 s o := by
  have hblocked : ∀ y ∈ groupIdentities o (s.group o),
      y ∈ (matchedOutput sha256 t).blocked ↔ y ∈ (matchedOutput sha256 s).blocked :=
    fun y _ => h.blocked_iff ht hs
  rw [orderPart, orderPart, evaluateOrder_eq ht.orders_nodup (h.orders.mem_iff.mpr ho),
    evaluateOrder_eq hs.orders_nodup ho, h.isMatched_eq ht hs ho, h.group_eq ht hs ho,
    matchConfidence_congr h.frame (h.view o ho) ht hs, hold_congr_frame h.frame,
    hold_congr hblocked]
  by_cases hmatched : s.isMatched o = true
  · rw [if_pos hmatched, if_pos hmatched]
    cases hh : hold s (matchedOutput sha256 s).blocked o (s.group o) with
    | some held => rfl
    | none => exact applyRules_congr h.frame (h.view o ho) ht hs (hm ⟨hmatched, hh⟩)
  · rw [if_neg hmatched, if_neg hmatched]

theorem paymentPart_eq : paymentPart sha256 t = paymentPart sha256 s := by
  funext p
  simp only [paymentPart, settlePayment, h.claimed_eq ht hs, h.blocked_iff ht hs,
    through_congr h.frame, h.frame.windowFrom, h.frame.storeId, emit_congr h.frame,
    paymentEligible_congr h.frame]

theorem admitted_iff (ho : o ∈ s.orders) : Admitted sha256 t o ↔ Admitted sha256 s o := by
  have hblocked : ∀ y ∈ groupIdentities o (s.group o),
      y ∈ (matchedOutput sha256 t).blocked ↔ y ∈ (matchedOutput sha256 s).blocked :=
    fun y _ => h.blocked_iff ht hs
  rw [Admitted, Admitted, h.isMatched_eq ht hs ho, h.group_eq ht hs ho,
    hold_congr_frame h.frame, hold_congr hblocked]

/-- The rounds of the orders contribute the same if a missing payment lists the same similar
payments. -/
theorem rounds_eq (hm : ∀ o ∈ s.orders, Admitted sha256 s o →
      missingRule sha256 t o (s.group o) (s.matchConfidence o) =
        missingRule sha256 s o (s.group o) (s.matchConfidence o)) :
    gather (orderPart sha256 t) t.sortedOrders = gather (orderPart sha256 s) s.sortedOrders := by
  rw [h.sortedOrders_eq ht]
  apply gather_congr
  intro o ho
  exact h.orderPart_eq ht hs (mem_sortedOrders.mp ho) (hm o (mem_sortedOrders.mp ho))

/-- The proposals of the two runs are the same if a missing payment lists the same similar payments
and the unclaimed payments contribute the same. -/
theorem proposals_eq {e e' : Evaluation} (he : evaluate sha256 t = .ok e)
    (he' : evaluate sha256 s = .ok e')
    (hm : ∀ o ∈ s.orders, Admitted sha256 s o →
      missingRule sha256 t o (s.group o) (s.matchConfidence o) =
        missingRule sha256 s o (s.group o) (s.matchConfidence o))
    (hp : (sortBy Payment.id t.payments).flatMap (fun p => (paymentPart sha256 s p).proposals) =
      (sortBy Payment.id s.payments).flatMap fun p => (paymentPart sha256 s p).proposals) :
    e.proposals = e'.proposals := by
  obtain ⟨out, hout, rfl⟩ := (evaluate_ok ht).mp he
  obtain ⟨out', hout', rfl⟩ := (evaluate_ok hs).mp he'
  have hrounds := h.rounds_eq ht hs hm
  rw [reconcileFacts_eq ht, hrounds] at hout
  rw [reconcileFacts_eq hs] at hout'
  cases hr : gather (orderPart sha256 s) s.sortedOrders with
  | error m =>
    rw [hr] at hout
    cases hout
  | ok r =>
    rw [hr] at hout hout'
    obtain rfl := Except.ok.inj hout
    obtain rfl := Except.ok.inj hout'
    have hsum := Output.proposalsField.get_sum
    simp only [Output.proposalsField] at hsum
    simp only [Output.proposals_add, h.matchedOutput_proposals ht hs, hsum, List.flatMap_map,
      h.paymentPart_eq ht hs, hp]

end SameOrders

theorem SameFrame.symm (h : SameFrame t s) : SameFrame s t :=
  ⟨h.organizationId.symm, h.storeId.symm, h.accountId.symm, h.mode.symm, h.now.symm,
    h.windowFrom.symm, h.coverage.symm, h.linkVerified.symm, h.linkConflict.symm,
    h.ambiguousOrderHints.symm, h.policy.symm⟩

theorem SameFrame.trans {u : Snapshot} (h : SameFrame t s) (h' : SameFrame s u) : SameFrame t u :=
  ⟨h.organizationId.trans h'.organizationId, h.storeId.trans h'.storeId,
    h.accountId.trans h'.accountId, h.mode.trans h'.mode, h.now.trans h'.now,
    h.windowFrom.trans h'.windowFrom, h.coverage.trans h'.coverage,
    h.linkVerified.trans h'.linkVerified, h.linkConflict.trans h'.linkConflict,
    h.ambiguousOrderHints.trans h'.ambiguousOrderHints, h.policy.trans h'.policy⟩

theorem SameOrders.of_common {b : Snapshot} (h : SameOrders b s) (h' : SameOrders b t)
    (hb : b.Gated) (hs : s.Gated) (ht : t.Gated) : SameOrders s t where
  frame := h.frame.symm.trans h'.frame
  orders := h.orders.symm.trans h'.orders
  view o ho := by
    have hos : o ∈ s.orders := h.orders.mem_iff.mp (h'.orders.mem_iff.mpr ho)
    have hv := h.view o hos
    have hv' := h'.view o ho
    have hgroup : t.group o = s.group o :=
      (group_congr hv' hb ht).symm.trans (group_congr hv hb hs)
    refine ⟨fun p => (hv.resolved p).symm.trans (hv'.resolved p),
      fun p => (hv.hints p).symm.trans (hv'.hints p), fun r hr => ?_⟩
    exact (hv.refunds r (hgroup ▸ hr)).symm.trans (hv'.refunds r hr)

theorem proposals_of_early {e e' : Evaluation} (hf : SameFrame t s) (hs : s.Early)
    (he : evaluate sha256 t = .ok e) (he' : evaluate sha256 s = .ok e') :
    e.proposals = e'.proposals := by
  simp only [evaluate, evaluate_valid he, bind, Except.bind] at he
  simp only [evaluate, evaluate_valid he', bind, Except.bind] at he'
  rw [stale_congr hf, hf.linkVerified, hf.linkConflict, emit_congr hf, hf.storeId, hf.now] at he
  by_cases hstale : s.stale = []
  · have hl : s.linkVerified = false ∨ s.linkConflict = true := hs.resolve_left (not_not.mpr hstale)
    rw [if_neg (not_not.mpr hstale), if_pos hl] at he he'
    obtain rfl := Except.ok.inj he
    obtain rfl := Except.ok.inj he'
    rfl
  · rw [if_pos hstale] at he he'
    obtain rfl := Except.ok.inj he
    obtain rfl := Except.ok.inj he'
    rfl

end LedgerGuard
