import LedgerGuard.Core.Compensation

/-! # One more attempt to pay an order

A payment that only its own metadata ties to an order joins the matched group of that
order and changes nothing else: the other orders keep their groups, and the same
identities are blocked before the rules. What its own order is told is compared rule
by rule.
-/

namespace LedgerGuard

open Ordered Grouping Sweep Raising

variable {sha256 : String → String} {s t : Snapshot} {o o' : Order} {p q : Payment}
  {rs : List Refund} {e e' : Evaluation} {f : Proposal} {x : Identity} {pid : String}

/-- The snapshot has one payment more, which hints one order, and some refunds of it. -/
structure AddsAttempt (s t : Snapshot) (o : Order) (q : Payment) (rs : List Refund) : Prop where
  frame : SameFrame t s
  orders : t.orders.Perm s.orders
  payments : t.payments.Perm (q :: s.payments)
  refunds : t.refunds.Perm (rs ++ s.refunds)
  hinted : q.orderHint = o.id
  here : q.storeHint = "" ∨ q.storeHint = s.storeId
  uncited : ∀ o' ∈ s.orders, ∀ ref ∈ o'.references, ref ∉ q.aliases
  returned : ∀ r ∈ rs, r.source = .stripe ∧ r.parentId = q.id
  unreturned : ∀ r ∈ s.refunds, r.source = .stripe → r.parentId ≠ q.id
  plain : o.id ∉ s.ambiguousOrderHints

theorem Order.id_ne_empty (o : Order) : o.id ≠ "" := by
  intro h
  have hn := o.id_numeric
  rw [h] at hn
  exact absurd hn (by decide)

namespace AddsAttempt

variable (h : AddsAttempt s t o q rs)

include h

theorem mem_payments : p ∈ t.payments ↔ p = q ∨ p ∈ s.payments := by
  rw [h.payments.mem_iff, List.mem_cons]

theorem mem_orders : o' ∈ t.orders ↔ o' ∈ s.orders := h.orders.mem_iff

theorem ids_nodup (ht : t.Gated) : q.id ∉ s.payments.map (·.id) ∧ (s.payments.map (·.id)).Nodup := by
  have hn := (h.payments.map (·.id)).nodup_iff.mp ht.payments_nodup
  rwa [List.map_cons, List.nodup_cons] at hn

theorem ne_id (ht : t.Gated) (hp : p ∈ s.payments) : p.id ≠ q.id := fun he =>
  (h.ids_nodup ht).1 (List.mem_map.mpr ⟨p, hp, he⟩)

theorem resolved_iff (ho' : o' ∈ s.orders) (p : Payment) :
    p ∈ t.resolved o' ↔ p ∈ s.resolved o' := by
  rw [mem_resolved, mem_resolved, h.mem_payments]
  constructor
  · rintro ⟨rfl | hp, ref, href, ha⟩
    · exact absurd ha (h.uncited o' ho' ref href)
    · exact ⟨hp, ref, href, ha⟩
  · rintro ⟨hp, hlinked⟩
    exact ⟨Or.inr hp, hlinked⟩

theorem hints_iff {oid : String} :
    p ∈ t.hintsByOrder oid ↔ p ∈ s.hintsByOrder oid ∨ p = q ∧ oid = o.id := by
  rw [mem_hintsByOrder, mem_hintsByOrder, h.mem_payments, h.frame.storeId, or_and_right, or_comm]
  refine or_congr Iff.rfl ?_
  constructor
  · rintro ⟨rfl, -, -, he⟩
    exact ⟨rfl, he.symm.trans h.hinted⟩
  · rintro ⟨rfl, rfl⟩
    exact ⟨rfl, h.hinted ▸ o.id_ne_empty, h.here, h.hinted⟩

theorem view (ht : t.Gated) (ho' : o' ∈ s.orders) (hne : o'.id ≠ o.id) : SameView t s o' where
  resolved := h.resolved_iff ho'
  hints p := by
    rw [h.hints_iff]
    exact or_iff_left fun hq => hne hq.2
  refunds r hr := by
    rw [h.refunds.mem_iff, List.mem_append]
    refine or_iff_right fun hq => ?_
    obtain ⟨hsrc, hparent⟩ := h.returned r hq
    simp only [refundInView, hsrc, hparent, decide_true, Bool.true_and, Bool.or_eq_true,
      Bool.and_eq_true, decide_eq_true_eq, reduceCtorEq, false_and, or_false] at hr
    obtain ⟨p, hp, he⟩ := List.mem_map.mp hr
    exact h.ne_id ht (mem_payments_of_mem_group hp) he

section Gated

variable (hs : s.Gated) (ht : t.Gated)

include hs ht

theorem conflict_eq (ho' : o' ∈ s.orders) : t.conflict o' = s.conflict o' := by
  by_cases hid : o'.id = o.id
  · -- the hints of its own order matter only for orders whose hints are ambiguous
    have hperm := resolved_perm_of ht hs (h.resolved_iff ho')
    have hplain : o'.id ∉ s.ambiguousOrderHints := hid ▸ h.plain
    simp only [Snapshot.conflict, hperm.length_eq, unknown_of_resolved (h.resolved_iff ho'),
      h.frame.ambiguousOrderHints, hplain, decide_false, Bool.false_and, h.frame.storeId,
      hperm.any_eq]
  · exact conflict_congr h.frame (h.view ht ho' hid) ht hs

theorem isMatched_eq (ho' : o' ∈ s.orders) : t.isMatched o' = s.isMatched o' := by
  rw [Snapshot.isMatched, Snapshot.isMatched, h.conflict_eq hs ht ho']

theorem conflicted_eq (ho' : o' ∈ s.orders) : t.conflicted o' = s.conflicted o' := by
  rw [Snapshot.conflicted, Snapshot.conflicted, h.conflict_eq hs ht ho']

theorem group_eq (ho' : o' ∈ s.orders) (hne : o'.id ≠ o.id) : t.group o' = s.group o' :=
  group_congr (h.view ht ho' hne) ht hs

omit hs ht in
theorem mem_group_iff (ho : o ∈ s.orders) : p ∈ t.group o ↔ p = q ∨ p ∈ s.group o := by
  rw [mem_group, mem_group, h.resolved_iff ho, h.hints_iff, ← or_assoc, or_comm]
  simp

theorem candidates_perm (ho : o ∈ s.orders) : (t.candidates o).Perm (q :: s.candidates o) := by
  have hq : q ∉ s.candidates o := fun hm => h.ne_id ht (mem_payments_of_mem_group
    (mem_sortBy.mpr hm : q ∈ s.group o)) rfl
  rw [List.perm_ext_iff_of_nodup (candidates_nodup ht.payments_nodup o)
    (List.nodup_cons.mpr ⟨hq, candidates_nodup hs.payments_nodup o⟩)]
  intro p
  have hg := h.mem_group_iff (p := p) ho
  simpa only [Snapshot.group, mem_sortBy, List.mem_cons] using hg

omit hs in
theorem sortedOrders_eq : t.sortedOrders = s.sortedOrders := sortBy_congr ht.orders_nodup h.orders

theorem claimants_eq (ho : o ∈ s.orders) (hpid : pid ≠ q.id) : t.claimants pid = s.claimants pid := by
  unfold Snapshot.claimants
  rw [h.sortedOrders_eq ht]
  refine List.filter_congr fun o' ho' => ?_
  have ho' : o' ∈ s.orders := mem_sortedOrders.mp ho'
  have hmem : pid ∈ (t.group o').map (·.id) ↔ pid ∈ (s.group o').map (·.id) := by
    by_cases hid : o'.id = o.id
    · obtain rfl := eq_of_id_eq hs.orders_nodup ho' ho hid
      simp only [List.mem_map, h.mem_group_iff ho']
      constructor
      · rintro ⟨p, rfl | hp, he⟩
        · exact absurd he.symm hpid
        · exact ⟨p, hp, he⟩
      · rintro ⟨p, hp, he⟩
        exact ⟨p, Or.inr hp, he⟩
    · rw [h.group_eq hs ht ho' hid]
  rw [h.isMatched_eq hs ht ho', decide_eq_decide.mpr hmem]

theorem mem_claimants_attempt (ho : o ∈ s.orders) :
    o' ∈ t.claimants q.id ↔ o' = o ∧ s.isMatched o = true := by
  rw [mem_claimants, h.mem_orders]
  constructor
  · rintro ⟨ho', hm, hg⟩
    by_cases hid : o'.id = o.id
    · obtain rfl := eq_of_id_eq hs.orders_nodup ho' ho hid
      exact ⟨rfl, h.isMatched_eq hs ht ho' ▸ hm⟩
    · rw [h.group_eq hs ht ho' hid] at hg
      obtain ⟨p, hp, he⟩ := List.mem_map.mp hg
      exact absurd he (h.ne_id ht (mem_payments_of_mem_group hp))
  · rintro ⟨rfl, hm⟩
    exact ⟨ho, (h.isMatched_eq hs ht ho).trans hm,
      List.mem_map.mpr ⟨q, (h.mem_group_iff ho).mpr (Or.inl rfl), rfl⟩⟩

omit hs in
theorem claimants_unknown : s.claimants q.id = [] := by
  rw [List.eq_nil_iff_forall_not_mem]
  intro o' ho'
  obtain ⟨p, hp, he⟩ := List.mem_map.mp (mem_claimants.mp ho').2.2
  exact h.ne_id ht (mem_payments_of_mem_group hp) he

theorem contested_eq (ho : o ∈ s.orders) : t.contested pid = s.contested pid := by
  by_cases hpid : pid = q.id
  · rw [hpid, Bool.eq_iff_iff, contested_iff ht.orders_nodup, contested_iff hs.orders_nodup]
    refine iff_of_false ?_ ?_
    · rintro ⟨a, ha, b, hb, hne⟩
      rw [h.mem_claimants_attempt hs ht ho] at ha hb
      exact hne (ha.1.trans hb.1.symm)
    · rw [h.claimants_unknown ht]
      rintro ⟨a, ha, -⟩
      exact List.not_mem_nil ha
  · rw [Snapshot.contested, Snapshot.contested, h.claimants_eq hs ht ho hpid]

omit hs in
theorem ne_of_contested (hc : s.contested pid = true) : pid ≠ q.id := by
  rintro rfl
  rw [Snapshot.contested, h.claimants_unknown ht] at hc
  cases hc

theorem blocked_iff (ho : o ∈ s.orders) :
    x ∈ (matchedOutput sha256 t).blocked ↔ x ∈ (matchedOutput sha256 s).blocked := by
  rw [mem_matchedOutput_blocked ht.payments_nodup, mem_matchedOutput_blocked hs.payments_nodup]
  refine or_congr (exists_congr fun o' => ?_) (exists_congr fun pid => ?_)
  · rw [h.mem_orders]
    refine and_congr_right fun ho' => ?_
    rw [h.conflicted_eq hs ht ho']
    simp only [groupIdentities, List.mem_cons, List.mem_map, h.resolved_iff ho']
  · rw [h.contested_eq hs ht ho]
    refine and_congr_right fun hc => ?_
    rw [h.claimants_eq hs ht ho (h.ne_of_contested ht hc)]

theorem attempt_not_blocked : Identity.payment q.id ∉ (matchedOutput sha256 s).blocked := by
  rw [mem_matchedOutput_blocked hs.payments_nodup]
  rintro (⟨o', -, -, hx⟩ | ⟨pid, hc, hx | ⟨o', -, hx⟩⟩)
  · obtain ⟨p, hp, he⟩ := List.mem_map.mp (payment_mem_groupIdentities.mp hx)
    exact h.ne_id ht (mem_resolved.mp hp).1 he
  · obtain ⟨p, hp, he⟩ := exists_of_contested hc
    rw [Identity.payment.injEq] at hx
    exact h.ne_id ht hp (he.trans hx.symm)
  · cases hx

theorem admitted_other (ho : o ∈ s.orders) (ho' : o' ∈ s.orders) (hne : o'.id ≠ o.id) :
    Admitted sha256 t o' ↔ Admitted sha256 s o' := by
  have hblocked : ∀ y ∈ groupIdentities o' (s.group o'),
      y ∈ (matchedOutput sha256 t).blocked ↔ y ∈ (matchedOutput sha256 s).blocked :=
    fun y _ => h.blocked_iff hs ht ho
  rw [Admitted, Admitted, h.isMatched_eq hs ht ho', h.group_eq hs ht ho' hne,
    hold_congr_frame h.frame, hold_congr hblocked]

theorem admitted_iff (ho : o ∈ s.orders) (hq : q.changedAt ≤ s.through) :
    Admitted sha256 t o ↔ Admitted sha256 s o := by
  have hunblocked : Identity.payment q.id ∉ (matchedOutput sha256 s).blocked :=
    h.attempt_not_blocked hs ht
  rw [Admitted, Admitted, h.isMatched_eq hs ht ho, hold_eq_none, hold_eq_none,
    through_congr h.frame, h.frame.windowFrom]
  simp only [groupIdentities, List.forall_mem_cons, List.forall_mem_map, h.blocked_iff hs ht ho,
    h.mem_group_iff ho, forall_eq_or_imp]
  tauto

theorem keys_claimed_iff (ho : o ∈ s.orders) (hpid : pid ≠ q.id) :
    pid ∈ keys (matching sha256 t).claimed ↔ pid ∈ keys (matching sha256 s).claimed := by
  rw [mem_keys_claimed, mem_keys_claimed, h.claimants_eq hs ht ho hpid]

theorem paymentPart_eq (ho : o ∈ s.orders) (hp : p ∈ s.payments) :
    paymentPart sha256 t p = paymentPart sha256 s p := by
  simp only [paymentPart, settlePayment, h.keys_claimed_iff hs ht ho (h.ne_id ht hp),
    h.blocked_iff hs ht ho, through_congr h.frame, h.frame.windowFrom, h.frame.storeId,
    emit_congr h.frame, paymentEligible_congr h.frame]

theorem paymentPart_attempt (ho : o ∈ s.orders) (hm : s.isMatched o = true) :
    paymentPart sha256 t q = 0 := by
  have hclaimed : q.id ∈ keys (matching sha256 t).claimed :=
    mem_keys_claimed.mpr (List.ne_nil_of_mem ((h.mem_claimants_attempt hs ht ho).mpr ⟨rfl, hm⟩))
  rw [paymentPart, settlePayment, if_pos (Or.inl hclaimed)]

theorem claimOutput_eq (ho : o ∈ s.orders) (hc : s.contested pid = true) :
    claimOutput sha256 t pid ((t.claimants pid).map (·.id)) =
      claimOutput sha256 s pid ((s.claimants pid).map (·.id)) := by
  obtain ⟨p, hp, rfl⟩ := exists_of_contested hc
  rw [h.claimants_eq hs ht ho (h.ne_of_contested ht hc), claimOutput, claimOutput,
    find?_of_nodup ht.payments_nodup (h.mem_payments.mpr (Or.inr hp)),
    find?_of_nodup hs.payments_nodup hp, h.frame.now, emit_congr h.frame]

end Gated

end AddsAttempt

def FromRules (sha256 : String → String) (s : Snapshot) (o : Order) (f : Proposal) : Prop :=
  Admitted sha256 s o ∧
    (f ∈ paymentRules sha256 s o (s.group o) (s.matchConfidence o) ∨
      ∃ r, refundRules sha256 s o (s.group o) (s.matchConfidence o) = .ok r ∧ f ∈ r.proposals)

/-- A conflict, a shared payment, another order or an unclaimed payment proposes it. -/
def FromElsewhere (sha256 : String → String) (s : Snapshot) (o : Order) (f : Proposal) : Prop :=
  (∃ o' ∈ s.orders, s.conflicted o' = true ∧ f ∈ (conflictOutput sha256 s o').proposals) ∨
  (∃ pid, s.contested pid = true ∧
    f ∈ (claimOutput sha256 s pid ((s.claimants pid).map (·.id))).proposals) ∨
  (∃ o' ∈ s.orders, o'.id ≠ o.id ∧ FromRules sha256 s o' f) ∨
  ∃ p ∈ s.payments, f ∈ (paymentPart sha256 s p).proposals

theorem mem_proposals_iff (hs : s.Gated) (he : evaluate sha256 s = .ok e) (ho : o ∈ s.orders) :
    f ∈ e.proposals ↔ FromRules sha256 s o f ∨ FromElsewhere sha256 s o f := by
  rw [mem_proposals hs he, FromElsewhere]
  have hsplit : (∃ o' ∈ s.orders, FromRules sha256 s o' f) ↔
      FromRules sha256 s o f ∨ ∃ o' ∈ s.orders, o'.id ≠ o.id ∧ FromRules sha256 s o' f := by
    constructor
    · rintro ⟨o', ho', hf⟩
      by_cases hid : o'.id = o.id
      · exact Or.inl (eq_of_id_eq hs.orders_nodup ho' ho hid ▸ hf)
      · exact Or.inr ⟨o', ho', hid, hf⟩
    · rintro (hf | ⟨o', ho', -, hf⟩)
      · exact ⟨o, ho, hf⟩
      · exact ⟨o', ho', hf⟩
  change _ ∨ _ ∨ (∃ o' ∈ s.orders, FromRules sha256 s o' f) ∨ _ ↔ _
  rw [hsplit, or_assoc, or_left_comm (b := FromRules sha256 s o f),
    or_left_comm (b := FromRules sha256 s o f)]

theorem exists_summary_congr {ps qs : List Proposal} {k : Summary}
    (h : ps.map Proposal.summary = qs.map Proposal.summary) :
    (∃ f, f ∈ ps ∧ f.summary = k) ↔ ∃ f, f ∈ qs ∧ f.summary = k := by
  rw [← List.mem_map, h, List.mem_map]

theorem fromRules_summary (hf : SameFrame t s) (hv : SameView t s o) (ht : t.Gated) (hs : s.Gated)
    (ha : Admitted sha256 t o ↔ Admitted sha256 s o) {k : Summary} :
    (∃ f, FromRules sha256 t o f ∧ f.summary = k) ↔ ∃ f, FromRules sha256 s o f ∧ f.summary = k := by
  have hpayments : (paymentRules sha256 t o (s.group o) (s.matchConfidence o)).map
        Proposal.summary =
      (paymentRules sha256 s o (s.group o) (s.matchConfidence o)).map Proposal.summary :=
    paymentRules_summary hf hv ht hs _
  have hrules := exists_summary_congr (k := k) hpayments
  simp only [FromRules, group_congr hv ht hs, matchConfidence_congr hf hv ht hs,
    refundRules_congr hf hv ht hs, ha, and_assoc, exists_and_left, or_and_right, exists_or, hrules]

theorem AddsAttempt.elsewhere_summary (h : AddsAttempt s t o q rs) (hs : s.Gated) (ht : t.Gated)
    (ho : o ∈ s.orders) (hm : s.isMatched o = true) {k : Summary} :
    (∃ f, FromElsewhere sha256 t o f ∧ f.summary = k) ↔
      ∃ f, FromElsewhere sha256 s o f ∧ f.summary = k := by
  have hconflict : ∀ o' ∈ s.orders, s.conflicted o' = true →
      (conflictOutput sha256 t o').proposals = (conflictOutput sha256 s o').proposals := by
    intro o' ho' hc
    refine conflictOutput_proposals h.frame (h.view ht ho' fun hid => ?_)
    rw [eq_of_id_eq hs.orders_nodup ho' ho hid, Snapshot.conflicted] at hc
    rw [Snapshot.isMatched] at hm
    simp_all
  have hrules : ∀ o' ∈ s.orders, o'.id ≠ o.id →
      ((∃ f, FromRules sha256 t o' f ∧ f.summary = k) ↔
        ∃ f, FromRules sha256 s o' f ∧ f.summary = k) := fun o' ho' hne =>
    fromRules_summary h.frame (h.view ht ho' hne) ht hs (h.admitted_other hs ht ho ho' hne)
  simp only [FromElsewhere, or_and_right, exists_or]
  refine or_congr ?_ (or_congr ?_ (or_congr ?_ ?_))
  · refine exists_congr fun f => and_congr_left fun _ => exists_congr fun o' => ?_
    rw [h.mem_orders]
    refine and_congr_right fun ho' => ?_
    rw [h.conflicted_eq hs ht ho']
    exact and_congr_right fun hc => by rw [hconflict o' ho' hc]
  · refine exists_congr fun f => and_congr_left fun _ => exists_congr fun pid => ?_
    rw [h.contested_eq hs ht ho]
    exact and_congr_right fun hc => by rw [h.claimOutput_eq hs ht ho hc]
  · constructor
    · rintro ⟨f, ⟨o', ho', hne, hf⟩, hk⟩
      have ho' : o' ∈ s.orders := h.mem_orders.mp ho'
      obtain ⟨g, hg, hk⟩ := (hrules o' ho' hne).mp ⟨f, hf, hk⟩
      exact ⟨g, ⟨o', ho', hne, hg⟩, hk⟩
    · rintro ⟨f, ⟨o', ho', hne, hf⟩, hk⟩
      obtain ⟨g, hg, hk⟩ := (hrules o' ho' hne).mpr ⟨f, hf, hk⟩
      exact ⟨g, ⟨o', h.mem_orders.mpr ho', hne, hg⟩, hk⟩
  · refine exists_congr fun f => and_congr_left fun _ => ?_
    constructor
    · rintro ⟨p, hp, hf⟩
      rcases h.mem_payments.mp hp with rfl | hp
      · rw [h.paymentPart_attempt hs ht ho hm] at hf
        exact absurd hf List.not_mem_nil
      · exact ⟨p, hp, h.paymentPart_eq hs ht ho hp ▸ hf⟩
    · rintro ⟨p, hp, hf⟩
      refine ⟨p, h.mem_payments.mpr (Or.inr hp), ?_⟩
      rw [h.paymentPart_eq hs ht ho hp]
      exact hf

theorem SameFrame.refl (s : Snapshot) : SameFrame s s :=
  ⟨rfl, rfl, rfl, rfl, rfl, rfl, rfl, rfl, rfl, rfl, rfl⟩

def emittedKeys (sha256 : String → String) (s : Snapshot) (rule : RuleCode) (ids : List Identity) :
    List String :=
  if rule ∈ s.rules then [findingKey sha256 s rule (sortedSet Identity.render ids)] else []

theorem emittedKeys_eq_nil {rule : RuleCode} {ids : List Identity} :
    emittedKeys sha256 s rule ids = [] ↔ rule ∉ s.rules := by
  simp [emittedKeys]

def pairKeys (sha256 : String → String) (s : Snapshot) (o : Order) (p : Payment) : List String :=
  (if o.status ∈ unpaidStatuses then emittedKeys sha256 s .pi001 [.order o.id, .payment p.id]
  else []) ++
  (if p.received ≠ o.amount then emittedKeys sha256 s .pi005 [.order o.id, .payment p.id] else [])

theorem pairKeys_eq_nil : pairKeys sha256 s o p = [] ↔
    (o.status ∈ unpaidStatuses → RuleCode.pi001 ∉ s.rules) ∧
      (p.received ≠ o.amount → RuleCode.pi005 ∉ s.rules) := by
  simp only [pairKeys, List.append_eq_nil_iff, ite_eq_right_iff, emittedKeys_eq_nil]

def duplicateKeys (sha256 : String → String) (s : Snapshot) (o : Order) (group : List Payment)
    (corrected : Bool) : List String :=
  if 1 < (succeeded group).length ∧ corrected = false then
    emittedKeys sha256 s .pi004 (groupIdentities o group)
  else []

section Keys

variable (hf : SameFrame t s) {group group' : List Payment} {c c' : ℕ}

include hf

theorem emit_keys {rule : RuleCode} {ids : List Identity} {risk : Option Money}
    {eligible : Instant} {facts : Facts} :
    (emit sha256 t rule ids risk c eligible facts).map Proposal.key =
      emittedKeys sha256 s rule ids := by
  rw [emit_congr hf, emit, emittedKeys]
  by_cases hr : rule ∈ s.rules
  · rw [if_neg (not_not.mpr hr), if_pos hr]
    rfl
  · rw [if_pos hr, if_neg hr]
    rfl

theorem paymentRules_keys : (paymentRules sha256 t o group c).map Proposal.key =
    duplicateKeys sha256 s o group (correctedDuplicate t group) ++
      (if succeeded group = [] ∧ o.status ∈ paidStatuses then
        emittedKeys sha256 s .pi003 [.order o.id] else []) ++
      (succeeded group).flatMap (pairKeys sha256 s o) := by
  have hpair : ∀ p, (pairRules sha256 t o group c p).map Proposal.key = pairKeys sha256 s o p := by
    intro p
    simp only [pairRules, pairKeys, List.map_append, apply_ite (List.map Proposal.key),
      emit_keys hf, List.map_nil]
  simp only [paymentRules, duplicateRule, missingRule, duplicateKeys, List.map_append,
    apply_ite (List.map Proposal.key), emit_keys hf, List.map_nil, List.map_flatMap, hpair]

theorem refundRules_keys {extra : List Refund}
    (hstripe : (stripeRefunds t group').Perm (extra ++ stripeRefunds s group))
    (hextra : ∀ r ∈ extra, r.changedAt ≤ s.through ∧ r.Comparable o ∧ r.amount.minor = 0)
    (hwoo : wooRefunds t o = wooRefunds s o)
    (hexceed : ((succeeded group').any fun p => p.received.minor <
        (((stripeRefunds t group').filter (·.parentId = p.id)).map (·.amount.minor)).sum) =
      (succeeded group).any fun p => p.received.minor <
        (((stripeRefunds s group).filter (·.parentId = p.id)).map (·.amount.minor)).sum) :
    (refundRules sha256 t o group' c').map (fun d => d.proposals.map Proposal.key) =
      (refundRules sha256 s o group c).map fun d => d.proposals.map Proposal.key := by
  have hany : ∀ P : Refund → Bool, (∀ r ∈ extra, P r = false) →
      (stripeRefunds t group' ++ wooRefunds t o).any P =
        (stripeRefunds s group ++ wooRefunds s o).any P := by
    intro P hP
    have hnone : extra.any P = false := by simpa using hP
    rw [List.any_append, hstripe.any_eq, List.any_append, hnone, Bool.false_or, hwoo,
      List.any_append]
  have hsum : ((stripeRefunds t group').map (·.amount.minor)).sum =
      ((stripeRefunds s group).map (·.amount.minor)).sum := by
    have hzero := sum_minor_eq_zero.mpr fun r hr => (hextra r hr).2.2
    rw [(hstripe.map _).sum_eq, List.map_append, List.sum_append, hzero, Nat.zero_add]
  have hlate := hany (fun r => s.through < r.changedAt) fun r hr =>
    decide_eq_false (not_lt.mpr (hextra r hr).1)
  have hdiffer := hany (fun r => r.amount.currency ≠ o.amount.currency ||
      r.amount.exponent ≠ o.amount.exponent) fun r hr => by
    simp [(hextra r hr).2.1.1, (hextra r hr).2.1.2]
  unfold refundRules
  dsimp only
  rw [through_congr hf, hlate, hdiffer, hexceed, hwoo]
  split_ifs
  · rfl
  · simp only [Except.map, emit_keys hf, emit_keys (SameFrame.refl s)]
  · rfl
  · rfl
  · simp only [refundTotals, bind, Except.bind, hsum]
    cases Money.make |((((stripeRefunds s group).map (·.amount.minor)).sum : ℕ) : ℤ) -
        o.refunded.minor| o.amount.currency o.amount.exponent with
    | error m => rfl
    | ok risk =>
      simp only [Except.map, apply_ite (List.map Proposal.key), emit_keys hf,
        emit_keys (SameFrame.refl s), List.map_nil]

end Keys

namespace AddsAttempt

variable (h : AddsAttempt s t o q rs) (hs : s.Gated) (ht : t.Gated)

include h

theorem filter_refunds_perm {P : Refund → Bool} (hP : ∀ r ∈ rs, P r = false) :
    (t.refunds.filter P).Perm (s.refunds.filter P) := by
  have hnone : rs.filter P = [] := by
    rw [List.filter_eq_nil_iff]
    intro r hr
    rw [hP r hr]
    exact Bool.false_ne_true
  have hperm := h.refunds.filter P
  rwa [List.filter_append, hnone, List.nil_append] at hperm

include ht

theorem wooRefunds_eq : wooRefunds t o = wooRefunds s o := by
  refine sortBy_congr (refund_ids_nodup (k := .woo) ht fun r hr => ?_)
    (h.filter_refunds_perm fun r hr => ?_)
  · simp only [Bool.and_eq_true, decide_eq_true_eq] at hr
    exact hr.1
  · simp [(h.returned r hr).1]

theorem returnsOf_perm (hp : p ∈ s.payments) : (returnsOf t p).Perm (returnsOf s p) := by
  refine h.filter_refunds_perm fun r hr => ?_
  have hne : ¬ q.id = p.id := fun he => h.ne_id ht hp he.symm
  simp [(h.returned r hr).2, hne]

include hs

theorem isCompensated_eq (hp : p ∈ s.payments) : isCompensated t p = isCompensated s p := by
  have hperm := h.returnsOf_perm ht hp
  rw [Bool.eq_iff_iff, isCompensated_iff ht, isCompensated_iff hs, through_congr h.frame,
    h.frame.policy]
  simp only [hperm.mem_iff]
  refine and_congr_left fun _ => ⟨fun hr => ⟨?_, ?_, ?_⟩, fun hr => ⟨?_, ?_, ?_⟩⟩
  · exact fun hnil => hr.refunded (List.perm_nil.mp (hnil ▸ hperm))
  · exact fun r hm => hr.comparable r (hperm.mem_iff.mpr hm)
  · rw [← (hperm.map _).sum_eq]
    exact hr.sum
  · exact fun hnil => hr.refunded (List.perm_nil.mp (hnil ▸ hperm.symm))
  · exact fun r hm => hr.comparable r (hperm.mem_iff.mp hm)
  · rw [(hperm.map _).sum_eq]
    exact hr.sum

theorem succeeded_perm (ho : o ∈ s.orders) :
    (succeeded (t.group o)).Perm
      ((q :: s.group o).filter fun p => p.status = .succeeded) := by
  refine (((sortBy_perm Payment.id _).trans (h.candidates_perm hs ht ho)).trans
    (List.Perm.cons q ?_)).filter _
  exact (sortBy_perm Payment.id _).symm

theorem completes (ho : o ∈ s.orders) (hq : q.changedAt ≤ s.through)
    (ha : Admitted sha256 s o) (he : evaluate sha256 s = .ok e)
    (hrules : (∃ d, refundRules sha256 t o (t.group o) (t.matchConfidence o) = .ok d) ↔
      ∃ d, refundRules sha256 s o (s.group o) (s.matchConfidence o) = .ok d) :
    ∃ e', evaluate sha256 t = .ok e' := by
  have hall := (evaluate_ok_iff sha256 hs).mp ⟨e, he⟩
  have happly : ∀ {u : Snapshot} {group : List Payment} {c : ℕ},
      (∃ d, applyRules sha256 u o group c = .ok d) ↔ ∃ d, refundRules sha256 u o group c = .ok d := by
    intro u group c
    constructor
    · rintro ⟨d, hd⟩
      obtain ⟨r, hr, -⟩ := applyRules_ok.mp hd
      exact ⟨r, hr⟩
    · rintro ⟨r, hr⟩
      exact ⟨_, applyRules_ok.mpr ⟨r, hr, rfl⟩⟩
  refine (evaluate_ok_iff sha256 ht).mpr fun o' ho' => ?_
  have hos : o' ∈ s.orders := h.mem_orders.mp ho'
  by_cases hid : o'.id = o.id
  · obtain rfl := eq_of_id_eq hs.orders_nodup hos ho hid
    have ha' := (h.admitted_iff hs ht ho hq).mpr ha
    have hround := hall o' ho
    rw [orderPart, evaluateOrder_eq hs.orders_nodup ho, if_pos ha.1, ha.2] at hround
    rw [orderPart, evaluateOrder_eq ht.orders_nodup ho', if_pos ha'.1, ha'.2]
    exact happly.mpr (hrules.mpr (happly.mp hround))
  · have hround : (∃ d, orderPart sha256 t o' = .ok d) ↔ ∃ d, orderPart sha256 s o' = .ok d :=
      completes_congr (orderPart_sketch h.frame (h.view ht hos hid) ht hs ho' hos
        fun x _ => h.blocked_iff hs ht ho)
    exact hround.mpr (hall o' hos)

end AddsAttempt

section Unsuccessful

variable (h : AddsAttempt s t o q []) (hs : s.Gated) (ht : t.Gated) (ho : o ∈ s.orders)
  (hq : q.status ≠ .succeeded)

include h hs ht ho hq

theorem AddsAttempt.succeeded_eq : succeeded (t.group o) = succeeded (s.group o) := by
  refine filter_sortBy_congr ?_ ?_
  · exact ((sortBy_perm Payment.id _).map _).nodup_iff.mp (group_ids_nodup ht.payments_nodup o)
  · have hperm := (h.candidates_perm hs ht ho).filter fun p => p.status = .succeeded
    rwa [List.filter_cons_of_neg (by simpa using hq)] at hperm

theorem AddsAttempt.compensated_eq : compensated t (t.group o) = compensated s (s.group o) := by
  have hsame : ∀ p ∈ succeeded (s.group o), isCompensated t p = isCompensated s p := fun p hp =>
    h.isCompensated_eq hs ht (mem_payments_of_mem_group (mem_succeeded.mp hp).1)
  rw [compensated, compensated, h.succeeded_eq hs ht ho hq, List.filter_congr hsame]

theorem AddsAttempt.correctedDuplicate_eq :
    correctedDuplicate t (t.group o) = correctedDuplicate s (s.group o) := by
  rw [correctedDuplicate, correctedDuplicate, h.succeeded_eq hs ht ho hq,
    h.compensated_eq hs ht ho hq]

theorem AddsAttempt.stripeRefunds_eq :
    stripeRefunds t (t.group o) = stripeRefunds s (s.group o) := by
  have hsrc : ∀ (u : Snapshot) (group : List Payment) (r : Refund), (r.source = .stripe &&
      r.parentId ∈ group.map (·.id) && r.status = .succeeded && !(correctedDuplicate u group &&
        r.parentId ∈ compensated u group)) = true → r.source = .stripe := by
    intro u group r hr
    simp only [Bool.and_eq_true, decide_eq_true_eq] at hr
    exact hr.1.1.1
  refine sortBy_congr (refund_ids_nodup ht (hsrc t (t.group o))) ?_
  refine (sortBy_perm Refund.id _).symm.trans (List.Perm.trans ?_ (sortBy_perm Refund.id _))
  change (stripeRefunds t (t.group o)).Perm (stripeRefunds s (s.group o))
  rw [List.perm_ext_iff_of_nodup (stripeRefunds_nodup ht) (stripeRefunds_nodup hs)]
  intro r
  rw [mem_stripeRefunds, mem_stripeRefunds, h.refunds.mem_iff, List.nil_append,
    h.correctedDuplicate_eq hs ht ho hq, h.compensated_eq hs ht ho hq]
  refine and_congr_right fun hr => and_congr_right fun hsource => and_congr_right fun _ =>
    and_congr_left fun _ => ?_
  simp only [List.mem_map, h.mem_group_iff ho]
  constructor
  · rintro ⟨p, rfl | hp, he⟩
    · exact absurd he.symm (h.unreturned r hr hsource)
    · exact ⟨p, hp, he⟩
  · rintro ⟨p, hp, he⟩
    exact ⟨p, Or.inr hp, he⟩

theorem AddsAttempt.refundRules_keys_eq {c c' : ℕ} :
    (refundRules sha256 t o (t.group o) c').map (fun d => d.proposals.map Proposal.key) =
      (refundRules sha256 s o (s.group o) c).map fun d => d.proposals.map Proposal.key := by
  refine refundRules_keys h.frame ?_ (List.forall_mem_nil _) (h.wooRefunds_eq ht) ?_
  · rw [h.stripeRefunds_eq hs ht ho hq]
    exact .refl _
  · rw [h.stripeRefunds_eq hs ht ho hq, h.succeeded_eq hs ht ho hq]

end Unsuccessful

/-- The keys of two runs tell their rules and identities. -/
def KeysApart (e e' : Evaluation) : Prop :=
  ∀ f ∈ e.proposals, ∀ f' ∈ e'.proposals, f.key = f'.key →
    f.rule = f'.rule ∧ f.identities = f'.identities

/-- Two runs propose the same keys. -/
def SameKeys (e e' : Evaluation) : Prop :=
  ∀ k, (∃ f ∈ e.proposals, f.key = k) ↔ ∃ f ∈ e'.proposals, f.key = k

/-- Several payments of the order succeeded, which PI-004 reports. -/
structure ReportsDuplicate (s : Snapshot) (o : Order) : Prop where
  on : RuleCode.pi004 ∈ s.rules
  many : 1 < (succeeded (s.group o)).length
  uncorrected : correctedDuplicate s (s.group o) = false

theorem exists_key_iff {ps : List Proposal} {k : String} :
    (∃ f, f ∈ ps ∧ f.key = k) ↔ k ∈ ps.map Proposal.key := by
  rw [List.mem_map]

theorem exists_refund_key_iff {c : ℕ} {group : List Payment} {k : String} :
    (∃ f, (∃ r, refundRules sha256 s o group c = .ok r ∧ f ∈ r.proposals) ∧ f.key = k) ↔
      ∃ ks, (refundRules sha256 s o group c).map (fun d => d.proposals.map Proposal.key) = .ok ks ∧
        k ∈ ks := by
  cases refundRules sha256 s o group c with
  | error m => simp [Except.map]
  | ok d => simp [Except.map]

theorem exists_fromRules_key_iff {k : String} : (∃ f, FromRules sha256 s o f ∧ f.key = k) ↔
    Admitted sha256 s o ∧
      (k ∈ (paymentRules sha256 s o (s.group o) (s.matchConfidence o)).map Proposal.key ∨
        ∃ ks, (refundRules sha256 s o (s.group o) (s.matchConfidence o)).map
          (fun d => d.proposals.map Proposal.key) = .ok ks ∧ k ∈ ks) := by
  simp only [FromRules, and_assoc, exists_and_left, or_and_right, exists_or, exists_key_iff,
    exists_refund_key_iff]

theorem exists_elsewhere_key_iff (h : AddsAttempt s t o q rs) (hs : s.Gated) (ht : t.Gated)
    (ho : o ∈ s.orders) (hm : s.isMatched o = true) {k : String} :
    (∃ f, FromElsewhere sha256 t o f ∧ f.key = k) ↔
      ∃ f, FromElsewhere sha256 s o f ∧ f.key = k := by
  constructor
  · rintro ⟨f, hf, rfl⟩
    obtain ⟨g, hg, hk⟩ := (h.elsewhere_summary hs ht ho hm).mp ⟨f, hf, rfl⟩
    exact ⟨g, hg, congrArg Summary.key hk⟩
  · rintro ⟨f, hf, rfl⟩
    obtain ⟨g, hg, hk⟩ := (h.elsewhere_summary hs ht ho hm).mpr ⟨f, hf, rfl⟩
    exact ⟨g, hg, congrArg Summary.key hk⟩

theorem identities_of_pi004 (hs : s.Gated) (he : evaluate sha256 s = .ok e) (hf : f ∈ e.proposals)
    (hr : f.rule = .pi004) : ∃ o ∈ s.orders,
      f.identities = sortedSet Identity.render (groupIdentities o (s.group o)) := by
  rcases (mem_proposals hs he).mp hf with ⟨o, -, -, hp⟩ | ⟨pid, -, hp⟩ |
    ⟨o, ho, -, hp | ⟨r, hok, hp⟩⟩ | ⟨q, -, hp⟩
  · rw [(mem_conflictOutput hp).1] at hr
    cases hr
  · rw [(mem_claimOutput hp).1] at hr
    cases hr
  · simp only [paymentRules, duplicateRule, missingRule, pairRules, List.mem_append,
      List.mem_flatMap, List.mem_ite_nil_right] at hp
    rcases hp with (⟨-, hp⟩ | ⟨-, hp⟩) | ⟨q, -, ⟨-, hp⟩ | ⟨-, hp⟩⟩
    · exact ⟨o, ho, (mem_emit hp).2.2.1⟩
    all_goals
      rw [(mem_emit hp).2.1] at hr
      cases hr
  · have hmem := (mem_refundRules hok hp).1
    rw [hr] at hmem
    exact absurd hmem (by decide)
  · rw [(mem_paymentPart hp).1] at hr
    cases hr

/-- An unsuccessful attempt changes a finding key exactly if a duplicate of its order is reported:
the key of PI-004 is made from every payment of the group. -/
theorem unsuccessful_attempt_keys_iff (h : AddsAttempt s t o q []) (hs : s.Gated)
    (ht : t.validate = .ok ()) (ho : o ∈ s.orders) (he : evaluate sha256 s = .ok e)
    (hr : ReachesPaymentRules sha256 s o) (hq : q.status ≠ .succeeded)
    (hb : q.changedAt ≤ s.through) :
    ∃ e', evaluate sha256 t = .ok e' ∧ (¬ ReportsDuplicate s o → SameKeys e e') ∧
      (KeysApart e e' → SameKeys e e' → ¬ ReportsDuplicate s o) := by
  have ht : t.Gated := hs.of_frame h.frame ht
  have ha : Admitted sha256 s o := (reachesPaymentRules_iff hs he ho).mp hr
  have ha' : Admitted sha256 t o := (h.admitted_iff hs ht ho hb).mpr ha
  have hrefunds : (refundRules sha256 t o (t.group o) (t.matchConfidence o)).map
        (fun d => d.proposals.map Proposal.key) =
      (refundRules sha256 s o (s.group o) (s.matchConfidence o)).map fun d =>
        d.proposals.map Proposal.key := h.refundRules_keys_eq hs ht ho hq
  obtain ⟨e', he'⟩ := h.completes hs ht ho hb ha he (completes_congr hrefunds)
  refine ⟨e', he', fun hnone k => ?_, fun hapart hsame hd => ?_⟩
  · have hrules : (paymentRules sha256 t o (t.group o) (t.matchConfidence o)).map Proposal.key =
        (paymentRules sha256 s o (s.group o) (s.matchConfidence o)).map Proposal.key := by
      have hdup : ∀ group, succeeded group = succeeded (s.group o) →
          duplicateKeys sha256 s o group (correctedDuplicate s (s.group o)) = [] := by
        intro group hg
        unfold duplicateKeys
        split_ifs with hc
        · exact emittedKeys_eq_nil.mpr fun hon => hnone ⟨hon, hg ▸ hc.1, hc.2⟩
        · rfl
      rw [paymentRules_keys h.frame, paymentRules_keys (SameFrame.refl s),
        h.correctedDuplicate_eq hs ht ho hq, h.succeeded_eq hs ht ho hq,
        hdup _ (h.succeeded_eq hs ht ho hq), hdup _ rfl]
    simp only [mem_proposals_iff hs he ho, mem_proposals_iff ht he' (h.mem_orders.mpr ho),
      or_and_right, exists_or, exists_fromRules_key_iff, exists_elsewhere_key_iff h hs ht ho ha.1,
      hrules, hrefunds, ha, ha']
  · obtain ⟨f, hf, hrule, hids⟩ := exists_mem_emit sha256 hd.on (groupIdentities o (s.group o))
      (some o.amount) (s.matchConfidence o)
      (((succeeded (s.group o)).map (paymentEligible s)).max?.getD s.now)
      (orderFacts s o (s.group o))
    have hmem : f ∈ e.proposals := by
      refine (mem_proposals_iff hs he ho).mpr (Or.inl ⟨ha, Or.inl ?_⟩)
      rw [paymentRules, duplicateRule, if_pos ⟨hd.many, hd.uncorrected⟩]
      exact List.mem_append_left _ (List.mem_append_left _ hf)
    obtain ⟨f', hf', hk⟩ := (hsame f.key).mp ⟨f, hmem, rfl⟩
    obtain ⟨hrule', hids'⟩ := hapart f hmem f' hf' hk.symm
    obtain ⟨o', ho', hgroup⟩ := identities_of_pi004 ht he' hf' (hrule'.symm.trans hrule)
    -- both groups would have the same identities, though only the new one has the attempt
    have hiff : ∀ x, x ∈ groupIdentities o (s.group o) ↔ x ∈ groupIdentities o' (t.group o') := by
      intro x
      have hsorted : x ∈ sortedSet Identity.render (groupIdentities o (s.group o)) ↔
          x ∈ groupIdentities o (s.group o) := mem_sortedSet
      rw [← hsorted, ← hids, hids', hgroup, mem_sortedSet]
    have hid : o.id = o'.id := order_mem_groupIdentities.mp ((hiff _).mp List.mem_cons_self)
    obtain rfl := eq_of_id_eq hs.orders_nodup ho (h.mem_orders.mp ho') hid
    have hattempt : q.id ∈ (s.group o).map (·.id) := by
      refine payment_mem_groupIdentities.mp ((hiff _).mpr (payment_mem_groupIdentities.mpr ?_))
      exact List.mem_map.mpr ⟨q, (h.mem_group_iff ho).mpr (Or.inl rfl), rfl⟩
    obtain ⟨p, hp, hpq⟩ := List.mem_map.mp hattempt
    exact h.ne_id ht (mem_payments_of_mem_group hp) hpq

namespace Fixture

/-- An attempt of order 1 that was canceled. -/
def canceledPayment : Payment :=
  { payment with id := "pi_three", status := .canceled, id_prefix := by decide }

/-- Two payments of the order succeeded. -/
def duplicateSnapshot : Snapshot := { snapshot with payments := [payment, extraPayment] }

def retriedSnapshot (s : Snapshot) : Snapshot :=
  { s with payments := canceledPayment :: s.payments }

theorem retriedSnapshot_adds {s : Snapshot} (hid : s.storeId = "store_one")
    (hhints : s.ambiguousOrderHints = [])
    (horders : ∀ o ∈ s.orders, ∀ ref ∈ o.references, ref ∉ canceledPayment.aliases)
    (hrefunds : s.refunds = []) (ho : o.id = "1") :
    AddsAttempt s (retriedSnapshot s) o canceledPayment [] where
  frame := ⟨rfl, rfl, rfl, rfl, rfl, rfl, rfl, rfl, rfl, rfl, rfl⟩
  orders := .refl _
  payments := .refl _
  refunds := .refl _
  hinted := ho.symm
  here := Or.inr hid.symm
  uncited := horders
  returned := List.forall_mem_nil _
  unreturned r hr := by
    rw [hrefunds] at hr
    exact absurd hr List.not_mem_nil
  plain := by
    rw [hhints]
    exact List.not_mem_nil

end Fixture

open Fixture Sha256

theorem unsuccessful_attempt_keys_iff_unpaid : ∃ e e',
    evaluate hexdigest unpaidSnapshot = .ok e ∧
      evaluate hexdigest (retriedSnapshot unpaidSnapshot) = .ok e' ∧ SameKeys e e' := by
  have hs : unpaidSnapshot.Gated := ⟨rfl, by decide, rfl, rfl⟩
  have ho : { order with status := .pending } ∈ unpaidSnapshot.orders := List.mem_cons_self
  obtain ⟨e, he⟩ : ∃ e, evaluate hexdigest unpaidSnapshot = .ok e :=
    exists_of_isOk (by decide +kernel)
  have hr : ReachesPaymentRules hexdigest unpaidSnapshot { order with status := .pending } :=
    (reachesPaymentRules_iff hs he ho).mpr ⟨by decide +kernel, by decide +kernel⟩
  obtain ⟨e', he', hsame, -⟩ := unsuccessful_attempt_keys_iff
    (retriedSnapshot_adds rfl rfl (by decide) rfl rfl) hs rfl ho he hr (by decide) (by decide)
  exact ⟨e, e', he, he', hsame fun hd => absurd hd.many (by decide)⟩

/-- The key of the duplicate changes with a canceled attempt. -/
theorem canceled_attempt_changes_key : ∃ e e',
    AddsAttempt duplicateSnapshot (retriedSnapshot duplicateSnapshot) order canceledPayment [] ∧
      ReachesPaymentRules hexdigest duplicateSnapshot order ∧
        evaluate hexdigest duplicateSnapshot = .ok e ∧
          evaluate hexdigest (retriedSnapshot duplicateSnapshot) = .ok e' ∧ ¬ SameKeys e e' := by
  have hs : duplicateSnapshot.Gated := ⟨rfl, by decide, rfl, rfl⟩
  obtain ⟨e, e', he, he', f, hf, hne⟩ : ∃ e e', evaluate hexdigest duplicateSnapshot = .ok e ∧
      evaluate hexdigest (retriedSnapshot duplicateSnapshot) = .ok e' ∧
        ∃ f ∈ e.proposals, ∀ f' ∈ e'.proposals, f'.key ≠ f.key :=
    ⟨_, _, rfl, rfl, by decide +kernel⟩
  refine ⟨e, e', retriedSnapshot_adds rfl rfl (by decide) rfl rfl,
    (reachesPaymentRules_iff hs he List.mem_cons_self).mpr ⟨by decide +kernel, by decide +kernel⟩,
    he, he', fun hsame => ?_⟩
  obtain ⟨f', hf', hk⟩ := (hsame f.key).mp ⟨f, hf, rfl⟩
  exact hne f' hf' hk

end LedgerGuard
