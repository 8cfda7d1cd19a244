import LedgerGuard.Core.CleanEvidence

/-! # Which order a payment belongs to

A payment joins the group of an order through an exact reference or through its
own metadata, and only an order that shares none of its payments reaches the
rules. A succeeded payment is accounted for unless it is the unshared part of a
group that another of its payments puts on hold.
-/

namespace LedgerGuard

open Ordered Grouping Sweep

variable {sha256 : String → String} {s : Snapshot} {e : Evaluation} {o o' : Order} {p q : Payment}

def InGroup (s : Snapshot) (o : Order) (p : Payment) : Prop :=
  s.isMatched o = true ∧ p ∈ s.group o

theorem mem_claimants_iff (h : (s.payments.map (·.id)).Nodup) (hp : p ∈ s.payments) :
    o ∈ s.claimants p.id ↔ o ∈ s.orders ∧ InGroup s o p := by
  rw [mem_claimants, InGroup]
  refine and_congr_right fun _ => and_congr_right fun _ => ?_
  constructor
  · intro hm
    obtain ⟨q, hq, he⟩ := List.mem_map.mp hm
    rwa [payment_eq_of_id_eq h hp (mem_payments_of_mem_group hq) he.symm]
  · intro hm
    exact List.mem_map.mpr ⟨p, hm, rfl⟩

theorem contested_iff_inGroup (h : s.Gated) (hp : p ∈ s.payments) : s.contested p.id = true ↔
    ∃ o ∈ s.orders, ∃ o' ∈ s.orders, InGroup s o p ∧ InGroup s o' p ∧ o ≠ o' := by
  rw [contested_iff h.orders_nodup]
  simp only [mem_claimants_iff h.payments_nodup hp]
  constructor
  · rintro ⟨o, ⟨ho, hg⟩, o', ⟨ho', hg'⟩, hne⟩
    exact ⟨o, ho, o', ho', hg, hg', hne⟩
  · rintro ⟨o, ho, o', ho', hg, hg', hne⟩
    exact ⟨o, ⟨ho, hg⟩, o', ⟨ho', hg'⟩, hne⟩

theorem blocked_of_shared (sha256 : String → String) (h : s.Gated) (ho : o ∈ s.orders)
    (ho' : o' ∈ s.orders) (hg : InGroup s o p) (hg' : InGroup s o' p) (hne : o ≠ o') :
    Identity.payment p.id ∈ (matchedOutput sha256 s).blocked ∧
      Identity.order o.id ∈ (matchedOutput sha256 s).blocked := by
  have hp := mem_payments_of_mem_group hg.2
  have hc := (contested_iff_inGroup h hp).mpr ⟨o, ho, o', ho', hg, hg', hne⟩
  have ho := (mem_claimants_iff h.payments_nodup hp).mpr ⟨ho, hg⟩
  simp only [mem_matchedOutput_blocked h.payments_nodup]
  exact ⟨Or.inr ⟨_, hc, Or.inl rfl⟩, Or.inr ⟨_, hc, Or.inr ⟨o, ho, rfl⟩⟩⟩

theorem eq_of_admitted (h : s.Gated) (ho : o ∈ s.orders) (ha : Admitted sha256 s o)
    (hp : p ∈ s.group o) (ho' : o' ∈ s.orders) (hg' : InGroup s o' p) : o' = o := by
  by_contra hne
  have hb := (blocked_of_shared sha256 h ho ho' ⟨ha.1, hp⟩ hg' (Ne.symm hne)).2
  exact (hold_eq_none.mp ha.2).1 _ List.mem_cons_self hb

def Order.referenceFields (o : Order) : List String :=
  [o.transactionId, o.paymentIntentId, o.chargeId, o.sessionId]

/-- The payment belongs to the group of this order alone, by a reference of the order or by its
own metadata, and its metadata names no other order or store. -/
structure Attributed (s : Snapshot) (o : Order) (p : Payment) : Prop where
  inGroup : InGroup s o p
  only : ∀ o' ∈ s.orders, InGroup s o' p → o' = o
  reason : (∃ ref ∈ o.referenceFields, ref ∈ p.aliases) ∨
    p.orderHint = o.id ∧ (p.storeHint = "" ∨ p.storeHint = s.storeId)
  order_hint : p.orderHint ≠ "" → p.orderHint = o.id
  store_hint : p.storeHint ≠ "" → p.storeHint = s.storeId

theorem mem_references {ref : String} :
    ref ∈ o.references ↔ ref ∈ o.referenceFields ∧ ref ≠ "" := by
  simp only [Order.references, mem_sortedSet, List.mem_filter, decide_eq_true_eq,
    Order.referenceFields]

theorem not_conflict_of_isMatched (hm : s.isMatched o = true) : (s.resolved o).length ≤ 1 ∧
    s.unknown o = [] ∧ ∀ p ∈ s.resolved o, (p.storeHint = "" ∨ p.storeHint = s.storeId) ∧
      (p.orderHint = "" ∨ p.orderHint = o.id) := by
  simp only [Snapshot.isMatched, Snapshot.conflict, Bool.and_eq_true, Bool.not_eq_true',
    Bool.or_eq_false_iff, decide_eq_false_iff_not, not_lt, not_not, List.any_eq_false] at hm
  obtain ⟨-, ⟨⟨hl, hu⟩, -⟩, hh⟩ := hm
  refine ⟨hl, hu, fun p hp => ?_⟩
  have := hh p hp
  simp only [Bool.or_eq_true, Bool.and_eq_true, decide_eq_true_eq, not_or, not_and_or,
    not_not] at this
  exact this

theorem attributed_of_admitted (h : s.Gated) (ho : o ∈ s.orders) (ha : Admitted sha256 s o)
    (hp : p ∈ s.group o) : Attributed s o p := by
  obtain ⟨-, -, hh⟩ := not_conflict_of_isMatched ha.1
  have hreason : (p ∈ s.resolved o) ∨ p.orderHint = o.id ∧
      (p.storeHint = "" ∨ p.storeHint = s.storeId) := by
    rcases mem_group.mp hp with hr | hr
    · exact Or.inl hr
    · obtain ⟨-, -, hs, ho⟩ := mem_hintsByOrder.mp hr
      exact Or.inr ⟨ho, hs⟩
  refine ⟨⟨ha.1, hp⟩, fun o' ho' hg' => eq_of_admitted h ho ha hp ho' hg', ?_, ?_, ?_⟩
  · refine hreason.imp_left fun hr => ?_
    obtain ⟨-, ref, href, hal⟩ := mem_resolved.mp hr
    exact ⟨ref, (mem_references.mp href).1, hal⟩
  · intro hne
    rcases hreason with hr | hr
    · exact (hh p hr).2.resolve_left hne
    · exact hr.1
  · intro hne
    rcases hreason with hr | hr
    · exact (hh p hr).1.resolve_left hne
    · exact hr.2.resolve_left hne

/-- The rules that compare an order with its payments. -/
def paymentRuleCodes : List RuleCode := [.pi001, .pi003, .pi004, .pi005]

theorem admitted_of_paymentRule (he : evaluate sha256 s = .ok e) {f : Proposal}
    (hf : f ∈ e.proposals) (hr : f.rule ∈ paymentRuleCodes) (ho : o ∈ s.orders)
    (hn : Identity.order o.id ∈ f.identities) : s.Gated ∧ Admitted sha256 s o ∧
      f ∈ paymentRules sha256 s o (s.group o) (s.matchConfidence o) := by
  have h := not_early_of_namesFact he hf ⟨_, hn, rfl⟩
  rcases (mem_proposals h he).mp hf with ⟨o', -, -, hp⟩ | ⟨pid, -, hp⟩ |
    ⟨o', ho', ha, hp | ⟨d, hd, hp⟩⟩ | ⟨q, -, hp⟩
  · rw [(mem_conflictOutput hp).1] at hr
    exact absurd hr (by decide)
  · rw [(mem_claimOutput hp).1] at hr
    exact absurd hr (by decide)
  · have hid := order_mem_groupIdentities.mp ((mem_paymentRules hp).2.2.1 _ hn)
    obtain rfl := eq_of_id_eq h.orders_nodup ho ho' hid
    exact ⟨h, ha, hp⟩
  · have hm := (mem_refundRules hd hp).1
    simp only [List.mem_cons, List.not_mem_nil, or_false] at hm
    rcases hm with hm | hm | hm <;> rw [hm] at hr <;> exact absurd hr (by decide)
  · rw [(mem_paymentPart hp).1] at hr
    exact absurd hr (by decide)

/-- Every payment that a payment rule names or lists for an order belongs to that order alone,
and all references of the order resolve, to at most one payment. -/
theorem no_misattribution (he : evaluate sha256 s = .ok e) {f : Proposal} (hf : f ∈ e.proposals)
    (hr : f.rule ∈ paymentRuleCodes) (ho : o ∈ s.orders)
    (hn : Identity.order o.id ∈ f.identities) :
    (∀ pid, Identity.payment pid ∈ f.identities →
      ∃ p ∈ s.payments, p.id = pid ∧ Attributed s o p) ∧
    (∀ p ∈ f.evidence.facts.payments.getD [], p ∈ s.payments ∧ Attributed s o p) ∧
    s.unknown o = [] ∧ (s.resolved o).length ≤ 1 := by
  obtain ⟨h, ha, hp⟩ := admitted_of_paymentRule he hf hr ho hn
  obtain ⟨-, -, hi, hl, -⟩ := mem_paymentRules hp
  obtain ⟨hlen, hu, -⟩ := not_conflict_of_isMatched ha.1
  refine ⟨?_, ?_, hu, hlen⟩
  · intro pid hm
    obtain ⟨p, hp, he⟩ := List.mem_map.mp (payment_mem_groupIdentities.mp (hi _ hm))
    exact ⟨p, mem_payments_of_mem_group hp, he, attributed_of_admitted h ho ha hp⟩
  · intro p hp
    rw [hl] at hp
    exact ⟨mem_payments_of_mem_group hp, attributed_of_admitted h ho ha hp⟩

namespace Fixture

/-- The order is still unpaid in the shop. -/
def unpaidSnapshot : Snapshot :=
  { snapshot with orders := [{ order with status := .pending }] }

end Fixture

open Fixture Sha256

theorem no_misattribution_unpaid : ∃ e, evaluate hexdigest unpaidSnapshot = .ok e ∧
    ∃ f ∈ e.proposals, Identity.payment "pi_one" ∈ f.identities ∧ ∃ o ∈ unpaidSnapshot.orders,
      ∃ p ∈ unpaidSnapshot.payments, p.id = "pi_one" ∧ Attributed unpaidSnapshot o p := by
  obtain ⟨e, he, f, hf, hr, hp, o, ho, hn⟩ : ∃ e, evaluate hexdigest unpaidSnapshot = .ok e ∧
      ∃ f ∈ e.proposals, f.rule ∈ paymentRuleCodes ∧ Identity.payment "pi_one" ∈ f.identities ∧
        ∃ o ∈ unpaidSnapshot.orders, Identity.order o.id ∈ f.identities :=
    ⟨_, rfl, by decide +kernel⟩
  exact ⟨e, he, f, hf, hp, o, ho, (no_misattribution he hf hr ho hn).1 _ hp⟩

/-- The round of the order in the loop gets past every guard, to the payment rules. -/
def ReachesPaymentRules (sha256 : String → String) (s : Snapshot) (o : Order) : Prop :=
  ∃ before after out group confidence, s.sortedOrders = before ++ o :: after ∧
    sweep (evaluateOrder sha256 s (matching sha256 s)) (claims sha256 s (matching sha256 s))
      before = .ok out ∧
    (matching sha256 s).matched.lookup o.id = some (group, confidence) ∧
    hold s out.blocked o group = none

theorem hold_of_sweep (h : s.Gated) {before after : List Order} {out : Output}
    (hs : s.sortedOrders = before ++ o :: after) (hm : s.isMatched o = true)
    (hout : sweep (evaluateOrder sha256 s (matching sha256 s)) (matchedOutput sha256 s)
      before = .ok out) :
    hold s out.blocked o (s.group o) = none ↔
      hold s (matchedOutput sha256 s).blocked o (s.group o) = none := by
  have hmem : ∀ o' ∈ before ++ o :: after, o' ∈ s.orders := by
    intro o' ho'
    exact mem_sortedOrders.mp (hs ▸ ho')
  have hagree : ∀ x ∈ orderFootprint sha256 s o,
      x ∈ blockedSet out ↔ x ∈ blockedSet (matchedOutput sha256 s) := by
    intro x hx
    exact agree_of_sweep blockedSet_zero blockedSet_add
      (fun o' ho' => evaluateOrder_reads h.orders_nodup (hmem o' ho'))
      (fun o' ho' => evaluateOrder_writes h.orders_nodup (hmem o' ho'))
      (hs ▸ orderFootprint_pairwise h) hout hx
  by_cases hb : Identity.order o.id ∈ (matchedOutput sha256 s).blocked
  · have hb' : Identity.order o.id ∈ out.blocked :=
      (hagree (.order o.id) (by simp [orderFootprint, hb])).mpr hb
    rw [hold_of_blocked hb, hold_of_blocked hb']
  · have hF : orderFootprint sha256 s o = {x | x ∈ groupIdentities o (s.group o)} :=
      if_pos ⟨hm, hb⟩
    rw [hold_congr fun x hx => hagree x (hF ▸ hx)]

theorem reachesPaymentRules_iff (h : s.Gated) (he : evaluate sha256 s = .ok e)
    (ho : o ∈ s.orders) : ReachesPaymentRules sha256 s o ↔ Admitted sha256 s o := by
  constructor
  · rintro ⟨before, after, out, group, confidence, hs, hout, hl, hh⟩
    rw [lookup_matched h.orders_nodup ho] at hl
    by_cases hm : s.isMatched o = true
    · rw [if_pos hm, Option.some.injEq, Prod.mk.injEq] at hl
      obtain ⟨rfl, -⟩ := hl
      exact ⟨hm, (hold_of_sweep h hs hm hout).mp hh⟩
    · rw [if_neg hm] at hl
      cases hl
  · rintro ⟨hm, hh⟩
    obtain ⟨before, after, hs⟩ := List.append_of_mem (mem_sortedOrders.mpr ho)
    obtain ⟨out, hrun, -⟩ := (evaluate_ok h).mp he
    obtain ⟨r, hr⟩ : ∃ r, gather (orderPart sha256 s) s.sortedOrders = .ok r := by
      rw [gather_ok_iff]
      intro o' ho'
      exact (reconcileFacts_ok_iff sha256 h).mp ⟨out, hrun⟩ o' (mem_sortedOrders.mp ho')
    have hall : sweep (evaluateOrder sha256 s (matching sha256 s)) (matchedOutput sha256 s)
        (before ++ o :: after) = .ok (matchedOutput sha256 s + r) := by
      rw [← hs, sweep_evaluateOrder h]
      change (gather (orderPart sha256 s) s.sortedOrders >>= _) = _
      rw [hr]
      rfl
    rw [sweep_append] at hall
    cases hb : sweep (evaluateOrder sha256 s (matching sha256 s)) (matchedOutput sha256 s)
      before with
    | error m =>
      rw [hb] at hall
      cases hall
    | ok out =>
      refine ⟨before, after, out, s.group o, s.matchConfidence o, hs, hb, ?_, ?_⟩
      · rw [lookup_matched h.orders_nodup ho, if_pos hm]
      · exact (hold_of_sweep h hs hm hb).mpr hh

/-- What became of a succeeded payment. -/
def Accounted (sha256 : String → String) (s : Snapshot) (e : Evaluation) (p : Payment) : Prop :=
  Identity.payment p.id ∈ e.blockedIdentities ∨
  (∃ f ∈ e.proposals, f.rule = .pi002 ∧ Identity.payment p.id ∈ f.identities) ∨
  Warning.unattributedPayment p.id ∈ e.warnings ∨
  ∃ o ∈ s.orders, (∀ o' ∈ s.orders, InGroup s o' p ↔ o' = o) ∧ ReachesPaymentRules sha256 s o

/-- The payment is in the group of one order only, and that order shares another payment. -/
def Overshadowed (s : Snapshot) (p : Payment) : Prop :=
  ∃ o ∈ s.orders, (∀ o' ∈ s.orders, InGroup s o' p ↔ o' = o) ∧
    ∃ q ∈ s.group o, ∃ o' ∈ s.orders, o' ≠ o ∧ InGroup s o' q

theorem not_mem_warnings_of_orderPart (h : s.Gated) (ho : o ∈ s.orders) {d : Output}
    (hd : orderPart sha256 s o = .ok d) (pid : String) :
    Warning.unattributedPayment pid ∉ d.warnings := by
  have hheld : ∀ {b group held}, hold s b o group = some held →
      Warning.unattributedPayment pid ∉ held.warnings := by
    intro b group held hh
    unfold hold at hh
    split_ifs at hh <;> obtain rfl := Option.some.inj hh <;> simp
  have hrules : ∀ {group c d}, applyRules sha256 s o group c = .ok d →
      Warning.unattributedPayment pid ∉ d.warnings := by
    intro group c d hd
    obtain ⟨r, hr, rfl⟩ := applyRules_ok.mp hd
    simp only [Output.warnings_add, List.nil_append]
    simp only [refundRules] at hr
    split_ifs at hr
    · obtain rfl := Except.ok.inj hr
      simp
    · obtain rfl := Except.ok.inj hr
      simp
    · obtain rfl := Except.ok.inj hr
      simp
    · obtain rfl := Except.ok.inj hr
      simp
    · simp [(refundTotals_ok hr).2]
  rw [orderPart, evaluateOrder_eq h.orders_nodup ho] at hd
  by_cases hm : s.isMatched o = true
  · rw [if_pos hm] at hd
    cases hh : hold s (matchedOutput sha256 s).blocked o (s.group o) with
    | some held =>
      rw [hh] at hd
      exact Except.ok.inj hd ▸ hheld hh
    | none =>
      rw [hh] at hd
      exact hrules hd
  · rw [if_neg hm] at hd
    obtain rfl := Except.ok.inj hd
    exact List.not_mem_nil

theorem blocked_of_held {b : List Identity} {group : List Payment} {held : Output}
    (hh : hold s b o group = some held) (hb : Identity.order o.id ∉ b) :
    held.blocked = groupIdentities o group := by
  unfold hold at hh
  split_ifs at hh <;> obtain rfl := Option.some.inj hh <;> rfl

theorem mem_keys_claimed_iff (h : (s.payments.map (·.id)).Nodup) (hp : p ∈ s.payments) :
    p.id ∈ keys (matching sha256 s).claimed ↔ ∃ o ∈ s.orders, InGroup s o p := by
  rw [mem_keys_claimed]
  constructor
  · intro hne
    obtain ⟨o, ho⟩ := List.exists_mem_of_ne_nil _ hne
    exact ⟨o, (mem_claimants_iff h hp).mp ho⟩
  · rintro ⟨o, ho⟩
    exact List.ne_nil_of_mem ((mem_claimants_iff h hp).mpr ho)

theorem accounted_of_unclaimed (h : s.Gated) (hd : s.policy.disabledRules = [])
    (he : evaluate sha256 s = .ok e) (hp : p ∈ s.payments) (hs : p.status = .succeeded)
    (hn : ¬ ∃ o ∈ s.orders, InGroup s o p) : Accounted sha256 s e p := by
  have hk : p.id ∉ keys (matching sha256 s).claimed :=
    fun hk => hn ((mem_keys_claimed_iff h.payments_nodup hp).mp hk)
  by_cases hb : Identity.payment p.id ∈ (matchedOutput sha256 s).blocked
  · exact Or.inl ((mem_blockedIdentities h he).mpr (Or.inl hb))
  have hpart : paymentPart sha256 s p =
      if s.through < p.changedAt ∨ p.createdAt < s.windowFrom then
        { blocked := [.payment p.id] }
      else if p.storeHint = s.storeId then
        { proposals := emit sha256 s .pi002 [.payment p.id] (some p.received) 90
            (paymentEligible s p) { payment := some p, confirmedStoreId := some s.storeId } }
      else { warnings := [.unattributedPayment p.id] } := by
    rw [paymentPart, settlePayment, if_neg]
    simp [hk, hb, hs]
  by_cases h₁ : s.through < p.changedAt ∨ p.createdAt < s.windowFrom
  · rw [if_pos h₁] at hpart
    refine Or.inl ((mem_blockedIdentities h he).mpr (Or.inr (Or.inr ⟨p, hp, ?_⟩)))
    rw [hpart]
    exact List.mem_singleton_self _
  rw [if_neg h₁] at hpart
  by_cases h₂ : p.storeHint = s.storeId
  · rw [if_pos h₂] at hpart
    have hr : RuleCode.pi002 ∈ s.rules := mem_rules.mpr (by simp [hd])
    obtain ⟨f, hf, hfr, hfi⟩ := exists_mem_emit sha256 hr [.payment p.id] (some p.received) 90
      (paymentEligible s p) { payment := some p, confirmedStoreId := some s.storeId }
    refine Or.inr (Or.inl ⟨f, ?_, hfr, by simp [hfi]⟩)
    exact (mem_proposals h he).mpr (Or.inr (Or.inr (Or.inr ⟨p, hp, by rw [hpart]; exact hf⟩)))
  · rw [if_neg h₂] at hpart
    refine Or.inr (Or.inr (Or.inl ((mem_warnings h he).mpr (Or.inr ⟨p, hp, ?_⟩))))
    rw [hpart]
    exact List.mem_singleton_self _

/-- A payment in the group of a single order is blocked or evaluated with it, unless the order
shares another payment. -/
theorem accounted_of_sole (h : s.Gated) (he : evaluate sha256 s = .ok e) (ho : o ∈ s.orders)
    (hsole : ∀ o' ∈ s.orders, InGroup s o' p ↔ o' = o)
    (hq : ∀ q ∈ s.group o, ∀ o' ∈ s.orders, InGroup s o' q → o' = o) :
    Accounted sha256 s e p := by
  have hg : InGroup s o p := (hsole o ho).mpr rfl
  have hb : Identity.order o.id ∉ (matchedOutput sha256 s).blocked := by
    intro hb
    rcases (mem_matchedOutput_blocked h.payments_nodup).mp hb with ⟨o', ho', hc, hm⟩ |
      ⟨pid, hc, hm⟩
    · obtain rfl := eq_of_id_eq h.orders_nodup ho ho' (order_mem_groupIdentities.mp hm)
      have hcm := hg.1
      simp only [Snapshot.conflicted, Snapshot.isMatched, Bool.and_eq_true,
        Bool.not_eq_true'] at hc hcm
      rw [hc.2] at hcm
      exact Bool.noConfusion hcm.2
    · rcases hm with hm | ⟨o', ho', hm⟩
      · cases hm
      · obtain rfl := eq_of_id_eq h.orders_nodup ho (mem_claimants.mp ho').1 (by simpa using hm)
        obtain ⟨o₁, ho₁, o₂, ho₂, hne⟩ := (contested_iff h.orders_nodup).mp hc
        obtain ⟨q, hqg, rfl⟩ := List.mem_map.mp (mem_claimants.mp ho').2.2
        have hqp := mem_payments_of_mem_group hqg
        rw [mem_claimants_iff h.payments_nodup hqp] at ho₁ ho₂
        exact hne ((hq q hqg o₁ ho₁.1 ho₁.2).trans (hq q hqg o₂ ho₂.1 ho₂.2).symm)
  cases hh : hold s (matchedOutput sha256 s).blocked o (s.group o) with
  | none =>
    exact Or.inr (Or.inr (Or.inr ⟨o, ho, hsole,
      (reachesPaymentRules_iff h he ho).mpr ⟨hg.1, hh⟩⟩))
  | some held =>
    refine Or.inl ((mem_blockedIdentities h he).mpr (Or.inr (Or.inl ⟨o, ho, held, ?_, ?_⟩)))
    · rw [orderPart, evaluateOrder_eq h.orders_nodup ho, if_pos hg.1, hh, Option.elim_some]
    · rw [blocked_of_held hh hb]
      exact payment_mem_groupIdentities.mpr (List.mem_map.mpr ⟨p, hg.2, rfl⟩)

theorem not_accounted_of_overshadowed (h : s.Gated) (he : evaluate sha256 s = .ok e)
    (hp : p ∈ s.payments) (hov : Overshadowed s p)
    (hn : ¬ ∃ o ∈ s.orders, s.conflicted o = true ∧ p ∈ s.resolved o) :
    ¬ Accounted sha256 s e p := by
  obtain ⟨o, ho, hsole, q, hq, o₂, ho₂, hne, hg₂⟩ := hov
  have hg : InGroup s o p := (hsole o ho).mpr rfl
  have hob : Identity.order o.id ∈ (matchedOutput sha256 s).blocked :=
    (blocked_of_shared sha256 h ho ho₂ ⟨hg.1, hq⟩ hg₂ hne.symm).2
  have hzero : paymentPart sha256 s p = 0 := by
    rw [paymentPart, settlePayment, if_pos]
    exact Or.inl ((mem_keys_claimed_iff h.payments_nodup hp).mpr ⟨o, ho, hg⟩)
  rintro (hb | ⟨f, hf, hfr, hfi⟩ | hw | ⟨o', ho', hsole', hr⟩)
  · rcases (mem_blockedIdentities h he).mp hb with hb | ⟨o', ho', d, hd, hb⟩ | ⟨p', hp', hb⟩
    · rcases (mem_matchedOutput_blocked h.payments_nodup).mp hb with ⟨o', ho', hc, hm⟩ |
        ⟨pid, hc, hm | ⟨o', -, hm⟩⟩
      · obtain ⟨p', hp', hid⟩ := List.mem_map.mp (payment_mem_groupIdentities.mp hm)
        obtain rfl := payment_eq_of_id_eq h.payments_nodup (mem_resolved.mp hp').1 hp hid
        exact hn ⟨o', ho', hc, hp'⟩
      · obtain rfl : p.id = pid := by simpa using hm
        obtain ⟨o₃, ho₃, o₄, ho₄, hg₃, hg₄, hne'⟩ := (contested_iff_inGroup h hp).mp hc
        exact hne' (((hsole o₃ ho₃).mp hg₃).trans ((hsole o₄ ho₄).mp hg₄).symm)
      · cases hm
    · obtain ⟨hm, hx⟩ := blocked_of_orderPart h.orders_nodup ho' hd hb
      obtain ⟨p', hp', hid⟩ := List.mem_map.mp (payment_mem_groupIdentities.mp hx)
      obtain rfl := payment_eq_of_id_eq h.payments_nodup (mem_payments_of_mem_group hp') hp hid
      obtain rfl := (hsole o' ho').mp ⟨hm, hp'⟩
      rw [orderPart, evaluateOrder_eq h.orders_nodup ho, if_pos hm, hold_of_blocked hob] at hd
      obtain rfl := Except.ok.inj hd
      exact List.not_mem_nil hb
    · obtain rfl := payment_eq_of_id_eq h.payments_nodup hp hp'
        (by simpa using settlePayment_blocked hb)
      rw [hzero] at hb
      exact List.not_mem_nil hb
  · rcases (mem_proposals h he).mp hf with ⟨o', -, -, hf⟩ | ⟨pid, -, hf⟩ |
      ⟨o', -, -, hf | ⟨d, hd, hf⟩⟩ | ⟨p', hp', hf⟩
    · rw [(mem_conflictOutput hf).1] at hfr
      cases hfr
    · rw [(mem_claimOutput hf).1] at hfr
      cases hfr
    · have hm := (mem_paymentRules hf).1
      rw [hfr] at hm
      exact absurd hm (by decide)
    · have hm := (mem_refundRules hd hf).1
      rw [hfr] at hm
      exact absurd hm (by decide)
    · rw [(mem_paymentPart hf).2.1] at hfi
      obtain rfl := payment_eq_of_id_eq h.payments_nodup hp hp' (by simpa using hfi)
      rw [hzero] at hf
      exact List.not_mem_nil hf
  · rcases (mem_warnings h he).mp hw with ⟨o', ho', d, hd, hw⟩ | ⟨p', hp', hw⟩
    · exact not_mem_warnings_of_orderPart h ho' hd _ hw
    · have hpart : ∀ {w}, w ∈ (paymentPart sha256 s p').warnings →
          w = .unattributedPayment p'.id := by
        intro w hw
        unfold paymentPart settlePayment at hw
        split_ifs at hw <;> simp_all
      obtain rfl := payment_eq_of_id_eq h.payments_nodup hp hp' (by simpa using hpart hw)
      rw [hzero] at hw
      exact List.not_mem_nil hw
  · obtain rfl := (hsole o' ho').mp ((hsole' o' ho').mpr rfl)
    have ha := (reachesPaymentRules_iff h he ho).mp hr
    rw [Admitted, hold_of_blocked hob] at ha
    cases ha.2

/-- A succeeded payment is dropped exactly when it is overshadowed and no conflict names it. -/
theorem accounted_iff (h : s.Gated) (hd : s.policy.disabledRules = [])
    (he : evaluate sha256 s = .ok e) (hp : p ∈ s.payments) (hs : p.status = .succeeded) :
    Accounted sha256 s e p ↔
      (∃ o ∈ s.orders, s.conflicted o = true ∧ p ∈ s.resolved o) ∨ ¬ Overshadowed s p := by
  constructor
  · intro ha
    by_contra hn
    obtain ⟨hn, hov⟩ := not_or.mp hn
    exact not_accounted_of_overshadowed h he hp (not_not.mp hov) hn ha
  · rintro (⟨o, ho, hc, hr⟩ | hov)
    · refine Or.inl ((mem_blockedIdentities h he).mpr (Or.inl ?_))
      exact (mem_matchedOutput_blocked h.payments_nodup).mpr (Or.inl ⟨o, ho, hc,
        payment_mem_groupIdentities.mpr (List.mem_map.mpr ⟨p, hr, rfl⟩)⟩)
    · by_cases hg : ∃ o ∈ s.orders, InGroup s o p
      · obtain ⟨o, ho, hg⟩ := hg
        by_cases hsole : ∀ o' ∈ s.orders, InGroup s o' p → o' = o
        · have hsole' : ∀ o' ∈ s.orders, InGroup s o' p ↔ o' = o :=
            fun o' ho' => ⟨hsole o' ho', fun he => he ▸ hg⟩
          refine accounted_of_sole h he ho hsole' fun q hq o' ho' hg' => ?_
          by_contra hne
          exact hov ⟨o, ho, hsole', q, hq, o', ho', hne, hg'⟩
        · push Not at hsole
          obtain ⟨o', ho', hg', hne⟩ := hsole
          exact Or.inl ((mem_blockedIdentities h he).mpr
            (Or.inl (blocked_of_shared sha256 h ho ho' hg hg' hne.symm).1))
      · exact accounted_of_unclaimed h hd he hp hs hg

theorem accounted_iff_matched : ∃ e, evaluate hexdigest snapshot = .ok e ∧
    Accounted hexdigest snapshot e payment := by
  obtain ⟨e, he⟩ : ∃ e, evaluate hexdigest snapshot = .ok e := ⟨_, rfl⟩
  have h : snapshot.Gated := ⟨rfl, by decide, rfl, rfl⟩
  have hov : ¬ Overshadowed snapshot payment := by
    unfold Overshadowed InGroup
    decide
  exact ⟨e, he, (accounted_iff h rfl he (List.mem_singleton_self _) rfl).mpr (Or.inr hov)⟩

namespace Fixture

/-- The first order hinted by one payment and, like the second order, referring to another. -/
def sharedSnapshot : Snapshot :=
  { snapshot with
    payments := [payment,
      { payment with id := "pi_two", storeHint := "", orderHint := "", id_prefix := second_prefix }]
    orders := [{ order with transactionId := "pi_two" },
      { order with id := "2", transactionId := "pi_two", id_numeric := by decide }] }

end Fixture

/-- The payment that only the first order claims appears nowhere in the result. -/
theorem shared_order_drops_payment : ∃ e, sharedSnapshot.Gated ∧
    sharedSnapshot.policy.disabledRules = [] ∧ evaluate hexdigest sharedSnapshot = .ok e ∧
    payment ∈ sharedSnapshot.payments ∧ payment.status = .succeeded ∧
    ¬ Accounted hexdigest sharedSnapshot e payment := by
  obtain ⟨e, he⟩ : ∃ e, evaluate hexdigest sharedSnapshot = .ok e := ⟨_, rfl⟩
  have h : sharedSnapshot.Gated := ⟨rfl, by decide, rfl, rfl⟩
  have hp : payment ∈ sharedSnapshot.payments := List.mem_cons_self
  have hov : Overshadowed sharedSnapshot payment := by
    unfold Overshadowed InGroup
    decide
  exact ⟨e, h, rfl, he, hp, rfl, not_accounted_of_overshadowed h he hp hov (by decide)⟩

end LedgerGuard
