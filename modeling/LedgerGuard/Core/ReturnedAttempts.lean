import LedgerGuard.Core.Attempts

/-! # An attempt that was returned in full

A second succeeded attempt whose refunds are settled leaves the duplicate rule and the
refund totals as they were. The rule on amounts looks at every succeeded payment, so it
reports the returned one as well.
-/

namespace LedgerGuard

open Ordered Sweep Raising

variable {sha256 : String → String} {s t : Snapshot} {o : Order} {p q : Payment}
  {rs : List Refund} {e e' : Evaluation} {f : Proposal} {r : Refund}

/-- A second attempt within the boundary, returned by refunds whose grace has passed. -/
structure ReturnedAttempt (s : Snapshot) (q : Payment) (rs : List Refund) : Prop where
  succeeded : q.status = .succeeded
  bounded : q.changedAt ≤ s.through
  refunds : ∀ r ∈ rs, r.status = .succeeded ∧ r.amount.currency = q.received.currency ∧
    r.amount.exponent = q.received.exponent ∧
    r.changedAt + s.policy.refundGrace ≤ min s.now s.through
  sum : (rs.map (·.amount.minor)).sum = q.received.minor

/-- The refund is one that the refund rules compare, as a Stripe or Woo refund of the order. -/
def Refund.Compared (s : Snapshot) (o : Order) (r : Refund) : Prop :=
  r ∈ s.refunds ∧ (r.source = .stripe ∧ r.status = .succeeded ∧
      r.parentId ∈ (s.group o).map (·.id) ∨ r.source = .woo ∧ r.parentId = o.id)

/-- The amount rule is off or finds the order's amount, and what returned nothing is neither
reported as a duplicate nor by its currency. -/
structure Invisible (s : Snapshot) (o : Order) (q : Payment) (rs : List Refund) : Prop where
  amount : RuleCode.pi005 ∈ s.rules → q.received = o.amount
  duplicate : q.received.minor = 0 → RuleCode.pi004 ∉ s.rules
  currency : q.received.minor = 0 → (∃ r ∈ rs, ¬ r.Comparable o) → RuleCode.pi008 ∈ s.rules →
    ∃ r : Refund, r.Compared s o ∧ s.through < r.changedAt

theorem ReturnedAttempt.extra (hq : ReturnedAttempt s q rs)
    (hr : r ∈ (if 0 < q.received.minor then [] else rs)) :
    r ∈ rs ∧ r.changedAt ≤ s.through ∧ r.amount.minor = 0 ∧ q.received.minor = 0 := by
  split_ifs at hr with hpos
  · exact absurd hr List.not_mem_nil
  have hzero : q.received.minor = 0 := Nat.eq_zero_of_not_pos hpos
  have hgrace : (0 : ℤ) ≤ s.policy.refundGrace :=
    le_trans (by decide) s.policy.refundGrace_mem.1
  refine ⟨hr, ?_, sum_minor_eq_zero.mp (hq.sum.trans hzero) r hr, hzero⟩
  exact (le_add_of_nonneg_right hgrace).trans
    ((hq.refunds r hr).2.2.2.trans (min_le_right _ _))

theorem compared_iff (hone : succeeded (s.group o) = [p]) :
    r ∈ stripeRefunds s (s.group o) ++ wooRefunds s o ↔ r.Compared s o := by
  have hsingle : correctedDuplicate s (s.group o) = false := by
    rw [correctedDuplicate, hone]
    rfl
  rw [List.mem_append, mem_stripeRefunds, mem_wooRefunds, hsingle, Refund.Compared, and_or_left]
  simp only [Bool.false_eq_true, false_and, not_false_eq_true, and_true]

section Rules

variable (h : AddsAttempt s t o q rs) (hs : s.Gated) (ht : t.Gated) (ho : o ∈ s.orders)
  (hq : ReturnedAttempt s q rs)

include h hq

theorem returnsOf_attempt : (returnsOf t q).Perm rs := by
  have hall : rs.filter (fun r => r.source = .stripe && r.parentId = q.id &&
      r.status = .succeeded) = rs := by
    rw [List.filter_eq_self]
    intro r hr
    simp [(h.returned r hr).1, (h.returned r hr).2, (hq.refunds r hr).1]
  have hnone : s.refunds.filter (fun r => r.source = .stripe && r.parentId = q.id &&
      r.status = .succeeded) = [] := by
    rw [List.filter_eq_nil_iff]
    intro r hr hm
    simp only [Bool.and_eq_true, decide_eq_true_eq] at hm
    exact h.unreturned r hr hm.1.1 hm.1.2
  have hperm := h.refunds.filter fun r => r.source = .stripe && r.parentId = q.id &&
    r.status = .succeeded
  rwa [List.filter_append, hall, hnone, List.append_nil] at hperm

include ht in
theorem isCompensated_attempt : isCompensated t q = true ↔ 0 < q.received.minor := by
  have hperm := returnsOf_attempt h hq
  rw [isCompensated_iff ht, through_congr h.frame, h.frame.policy]
  refine ⟨fun hc => hc.2.1, fun hpos => ⟨⟨?_, ?_, ?_⟩, hpos, ?_⟩⟩
  · intro hnil
    rw [hnil] at hperm
    have hsum := hq.sum
    rw [List.perm_nil.mp hperm.symm] at hsum
    exact absurd hpos (not_lt.mpr hsum.ge)
  · intro r hr
    obtain ⟨-, hc, he, -⟩ := hq.refunds r (hperm.mem_iff.mp hr)
    exact ⟨hc, he⟩
  · rw [(hperm.map _).sum_eq]
    exact hq.sum
  · intro r hr
    exact (hq.refunds r (hperm.mem_iff.mp hr)).2.2.2.trans (min_le_right _ _)

variable (hone : succeeded (s.group o) = [p]) (hnot : ¬ Returned s p)

include ho hs ht hone

theorem succeeded_attempt : (succeeded (t.group o)).Perm [q, p] := by
  have hperm := h.succeeded_perm hs ht ho
  rw [List.filter_cons_of_pos (by simpa using hq.succeeded)] at hperm
  change (succeeded (t.group o)).Perm (q :: succeeded (s.group o)) at hperm
  rwa [hone] at hperm

omit hq hs ho in
theorem ne_attempt : p ≠ q := by
  rintro rfl
  have hp : p ∈ s.group o := (mem_succeeded.mp (hone ▸ List.mem_singleton_self p)).1
  exact h.ne_id ht (mem_payments_of_mem_group hp) rfl

include hnot

omit hq ho in
theorem kept_not_compensated : isCompensated t p = false := by
  have hp : p ∈ s.group o := (mem_succeeded.mp (hone ▸ List.mem_singleton_self p)).1
  rw [h.isCompensated_eq hs ht (mem_payments_of_mem_group hp), ← Bool.not_eq_true,
    isCompensated_iff hs]
  exact fun hc => hnot hc.1

theorem corrected_attempt :
    correctedDuplicate t (t.group o) = true ↔ 0 < q.received.minor := by
  have hperm := succeeded_attempt h hs ht ho hq hone
  have hn : (succeeded (t.group o)).Nodup := (group_ids_nodup ht.payments_nodup o).of_map.filter _
  rw [correctedDuplicate_iff hn (hperm.length_eq ▸ Nat.one_lt_two)
    (hperm.mem_iff.mpr (List.mem_cons_of_mem _ (List.mem_singleton_self p)))
    (kept_not_compensated h hs ht hone hnot)]
  simp only [hperm.mem_iff, List.mem_cons, List.not_mem_nil, or_false, forall_eq_or_imp, forall_eq,
    ne_eq, not_true_eq_false, false_imp_iff, and_true, isCompensated_attempt h ht hq]
  exact imp_iff_right fun he => ne_attempt h ht hone he.symm

theorem compensated_attempt {pid : String} :
    pid ∈ compensated t (t.group o) ↔ 0 < q.received.minor ∧ pid = q.id := by
  have hperm := succeeded_attempt h hs ht ho hq hone
  have hkept := kept_not_compensated h hs ht hone hnot
  simp only [mem_compensated, hperm.mem_iff, List.mem_cons, List.not_mem_nil, or_false]
  constructor
  · rintro ⟨u, rfl | rfl, hc, he⟩
    · exact ⟨(isCompensated_attempt h ht hq).mp hc, he.symm⟩
    · rw [hkept] at hc
      cases hc
  · rintro ⟨hpos, rfl⟩
    exact ⟨q, Or.inl rfl, (isCompensated_attempt h ht hq).mpr hpos, rfl⟩

theorem stripeRefunds_attempt : (stripeRefunds t (t.group o)).Perm
    ((if 0 < q.received.minor then [] else rs) ++ stripeRefunds s (s.group o)) := by
  have hsingle : correctedDuplicate s (s.group o) = false := by
    rw [correctedDuplicate, hone]
    rfl
  have hnodup : ((if 0 < q.received.minor then [] else rs) ++ stripeRefunds s (s.group o)).Nodup := by
    have hsub : ((if 0 < q.received.minor then [] else rs) ++ stripeRefunds s (s.group o)).Subperm
        (rs ++ s.refunds) := by
      refine List.Subperm.append ?_ ?_
      · split_ifs
        · exact List.nil_subperm
        · exact List.Subperm.refl _
      · exact (sortBy_perm _ _).subperm.trans List.filter_sublist.subperm
    obtain ⟨zs, hz, hsub⟩ := hsub
    exact hz.nodup_iff.mp ((h.refunds.nodup_iff.mp ht.refunds_nodup.of_map).sublist hsub)
  rw [List.perm_ext_iff_of_nodup (stripeRefunds_nodup ht) hnodup]
  intro r
  rw [List.mem_append, mem_stripeRefunds, mem_stripeRefunds, h.refunds.mem_iff, List.mem_append,
    corrected_attempt h hs ht ho hq hone hnot, compensated_attempt h hs ht ho hq hone hnot, hsingle]
  simp only [List.mem_map, h.mem_group_iff ho, Bool.false_eq_true, false_and, not_false_eq_true,
    and_true]
  constructor
  · rintro ⟨hr | hr, hsrc, hstatus, ⟨u, rfl | hu, he⟩, hc⟩
    · by_cases hpos : 0 < u.received.minor
      · exact absurd ⟨hpos, hpos, he.symm⟩ hc
      · exact Or.inl (by rwa [if_neg hpos])
    · exact absurd ((h.returned r hr).2.symm.trans he.symm).symm
        (h.ne_id ht (mem_payments_of_mem_group hu))
    · exact absurd he.symm (h.unreturned r hr hsrc)
    · exact Or.inr ⟨hr, hsrc, hstatus, u, hu, he⟩
  · rintro (hr | ⟨hr, hsrc, hstatus, u, hu, he⟩)
    · split_ifs at hr with hpos
      · exact absurd hr List.not_mem_nil
      · obtain ⟨hsrc, hparent⟩ := h.returned r hr
        exact ⟨Or.inl hr, hsrc, (hq.refunds r hr).1, ⟨q, Or.inl rfl, hparent.symm⟩,
          fun hc => hpos hc.1⟩
    · exact ⟨Or.inr hr, hsrc, hstatus, ⟨u, Or.inr hu, he⟩,
        fun hc => h.unreturned r hr hsrc hc.2.2⟩

theorem exceeded_attempt :
    ((succeeded (t.group o)).any fun p => p.received.minor <
        (((stripeRefunds t (t.group o)).filter (·.parentId = p.id)).map (·.amount.minor)).sum) =
      (succeeded (s.group o)).any fun p => p.received.minor <
        (((stripeRefunds s (s.group o)).filter (·.parentId = p.id)).map (·.amount.minor)).sum := by
  have hperm := stripeRefunds_attempt h hs ht ho hq hone hnot
  have hp : p ∈ s.group o := (mem_succeeded.mp (hone ▸ List.mem_singleton_self p)).1
  have hne := h.ne_id ht (mem_payments_of_mem_group hp)
  have hextra : ∀ r ∈ (if 0 < q.received.minor then [] else rs), r ∈ rs := by
    intro r hr
    split_ifs at hr
    · exact absurd hr List.not_mem_nil
    · exact hr
  have hkept : (((if 0 < q.received.minor then [] else rs) ++
      stripeRefunds s (s.group o)).filter (·.parentId = p.id)) =
        (stripeRefunds s (s.group o)).filter (·.parentId = p.id) := by
    rw [List.filter_append, List.filter_eq_nil_iff.mpr, List.nil_append]
    intro r hr hparent
    exact hne ((of_decide_eq_true hparent).symm.trans (h.returned r (hextra r hr)).2)
  have hattempt : (((if 0 < q.received.minor then [] else rs) ++
      stripeRefunds s (s.group o)).filter (·.parentId = q.id)) =
        (if 0 < q.received.minor then [] else rs) := by
    rw [List.filter_append, List.filter_eq_self.mpr, List.filter_eq_nil_iff.mpr, List.append_nil]
    · intro r hr hparent
      obtain ⟨hm, hsrc, -⟩ := mem_stripeRefunds.mp hr
      exact h.unreturned r hm hsrc (of_decide_eq_true hparent)
    · intro r hr
      exact decide_eq_true (h.returned r (hextra r hr)).2
  have hsum : ((if 0 < q.received.minor then [] else rs).map (·.amount.minor)).sum ≤
      q.received.minor := by
    split_ifs
    · exact Nat.zero_le _
    · exact hq.sum.le
  rw [(succeeded_attempt h hs ht ho hq hone).any_eq, hone]
  simp only [List.any_cons, List.any_nil, Bool.or_false, ((hperm.filter _).map _).sum_eq, hkept,
    hattempt, not_lt.mpr hsum, decide_false, Bool.false_or]

theorem refundRules_attempt {c c' : ℕ} {d : Output}
    (hd : refundRules sha256 s o (s.group o) c = .ok d) (hquiet : d.proposals = []) :
    ∃ d', refundRules sha256 t o (t.group o) c' = .ok d' ∧ (d'.proposals = [] ↔
      (q.received.minor = 0 → (∃ r ∈ rs, ¬ r.Comparable o) → RuleCode.pi008 ∈ s.rules →
        ∃ r : Refund, r.Compared s o ∧ s.through < r.changedAt)) := by
  have hstripe := stripeRefunds_attempt h hs ht ho hq hone hnot
  have hwoo := h.wooRefunds_eq ht
  by_cases hsame : ∀ r ∈ (if 0 < q.received.minor then [] else rs), r.Comparable o
  · have hkeys : (refundRules sha256 t o (t.group o) c').map
          (fun d => d.proposals.map Proposal.key) =
        (refundRules sha256 s o (s.group o) c).map fun d => d.proposals.map Proposal.key :=
      refundRules_keys h.frame hstripe
        (fun r hr => ⟨(hq.extra hr).2.1, hsame r hr, (hq.extra hr).2.2.1⟩) hwoo
        (exceeded_attempt h hs ht ho hq hone hnot)
    rw [hd] at hkeys
    cases hd' : refundRules sha256 t o (t.group o) c' with
    | error m =>
      rw [hd'] at hkeys
      cases hkeys
    | ok d' =>
      rw [hd'] at hkeys
      have hnil : d'.proposals = [] := by
        have hmap : d'.proposals.map Proposal.key = d.proposals.map Proposal.key :=
          Except.ok.inj hkeys
        rwa [hquiet, List.map_nil, List.map_eq_nil_iff] at hmap
      refine ⟨d', rfl, iff_of_true hnil ?_⟩
      rintro hzero ⟨r, hr, hne⟩
      rw [if_neg (by omega)] at hsame
      exact absurd (hsame r hr) hne
  · -- a refund of nothing in another currency
    push Not at hsame
    obtain ⟨r, hr, hne⟩ := hsame
    obtain ⟨hrs, -, -, hzero⟩ := hq.extra hr
    have hon_time : (if 0 < q.received.minor then [] else rs).any
        (fun r => s.through < r.changedAt) = false := by
      rw [List.any_eq_false]
      exact fun r hr => by simpa using (hq.extra hr).2.1
    have hlate : (stripeRefunds t (t.group o) ++ wooRefunds t o).any
        (fun r => t.through < r.changedAt) = true ↔
          ∃ r : Refund, r.Compared s o ∧ s.through < r.changedAt := by
      rw [through_congr h.frame, List.any_append, hstripe.any_eq, List.any_append, hon_time,
        Bool.false_or, ← List.any_append, hwoo, List.any_eq_true]
      exact exists_congr fun r => and_congr (compared_iff hone) decide_eq_true_iff
    have hdiffer : (stripeRefunds t (t.group o) ++ wooRefunds t o).any (fun r =>
        r.amount.currency ≠ o.amount.currency || r.amount.exponent ≠ o.amount.exponent) = true := by
      refine List.any_eq_true.mpr ⟨r, List.mem_append_left _
        (hstripe.mem_iff.mpr (List.mem_append_left _ hr)), ?_⟩
      rw [Refund.Comparable] at hne
      simpa only [Bool.or_eq_true, decide_eq_true_eq, ← not_and_or] using hne
    unfold refundRules
    dsimp only
    rw [hdiffer, if_pos rfl]
    by_cases hl : ∃ r : Refund, r.Compared s o ∧ s.through < r.changedAt
    · rw [if_pos (hlate.mpr hl)]
      exact ⟨_, rfl, iff_of_true rfl fun _ _ _ => hl⟩
    · rw [if_neg fun hm => hl (hlate.mp hm)]
      refine ⟨_, rfl, ?_⟩
      rw [← List.map_eq_nil_iff (f := Proposal.key), emit_keys h.frame, emittedKeys_eq_nil]
      exact ⟨fun hoff _ _ hon => absurd hon hoff, fun hc hon => hl (hc hzero ⟨r, hrs, hne⟩ hon)⟩

theorem paymentRules_attempt {c c' : ℕ} (hquiet : paymentRules sha256 s o (s.group o) c = []) :
    paymentRules sha256 t o (t.group o) c' = [] ↔
      (q.received.minor = 0 → RuleCode.pi004 ∉ s.rules) ∧
        (RuleCode.pi005 ∈ s.rules → q.received = o.amount) := by
  have hperm := succeeded_attempt h hs ht ho hq hone
  have hlen : 1 < (succeeded (t.group o)).length := hperm.length_eq ▸ Nat.one_lt_two
  have hne : succeeded (t.group o) ≠ [] := fun hnil => by
    rw [hnil] at hlen
    cases hlen
  rw [← List.map_eq_nil_iff (f := Proposal.key), paymentRules_keys (SameFrame.refl s), hone] at hquiet
  simp only [List.append_eq_nil_iff, List.flatMap_cons, List.flatMap_nil, List.append_nil,
    pairKeys_eq_nil] at hquiet
  have hunpaid := hquiet.2.1
  have hcorrected : correctedDuplicate t (t.group o) = false ↔ q.received.minor = 0 := by
    rw [← Bool.not_eq_true, corrected_attempt h hs ht ho hq hone hnot, Nat.pos_iff_ne_zero, not_not]
  have hdup : duplicateKeys sha256 s o (t.group o) (correctedDuplicate t (t.group o)) = [] ↔
      (q.received.minor = 0 → RuleCode.pi004 ∉ s.rules) := by
    rw [duplicateKeys, ite_eq_right_iff, emittedKeys_eq_nil, hcorrected, and_iff_right hlen]
  have hpairs : (succeeded (t.group o)).flatMap (pairKeys sha256 s o) = [] ↔
      (RuleCode.pi005 ∈ s.rules → q.received = o.amount) := by
    rw [List.flatMap_eq_nil_iff]
    simp only [hperm.mem_iff, List.mem_cons, List.not_mem_nil, or_false, forall_eq_or_imp, forall_eq,
      pairKeys_eq_nil]
    constructor
    · rintro ⟨⟨-, ha⟩, -⟩ hon
      exact not_not.mp fun hdiffer => ha hdiffer hon
    · intro ha
      exact ⟨⟨hunpaid, fun hdiffer hon => hdiffer (ha hon)⟩, hquiet.2⟩
  rw [← List.map_eq_nil_iff (f := Proposal.key), paymentRules_keys h.frame, if_neg fun hc =>
    hne hc.1, List.append_nil, List.append_eq_nil_iff, hdup, hpairs]

end Rules

theorem order_mem_of_fromRules (hf : FromRules sha256 s o f) :
    Identity.order o.id ∈ f.identities := by
  rcases hf.2 with hf | ⟨r, hr, hf⟩
  · exact (mem_paymentRules hf).2.1
  · rw [(mem_refundRules hr hf).2.1]
    exact List.mem_singleton_self _

theorem exists_payment_of_identity {pid : String} (hs : s.Gated) (he : evaluate sha256 s = .ok e)
    (hf : f ∈ e.proposals) (hn : Identity.payment pid ∈ f.identities) :
    ∃ p ∈ s.payments, p.id = pid := by
  rcases (mem_proposals hs he).mp hf with ⟨o, -, -, hp⟩ | ⟨pid', hc, hp⟩ |
    ⟨o, -, -, hp | ⟨r, hr, hp⟩⟩ | ⟨q, hq, hp⟩
  · obtain ⟨p, hp, hid⟩ := List.mem_map.mp
      (payment_mem_groupIdentities.mp (((mem_conflictOutput hp).2.2.1 _).mp hn))
    exact ⟨p, (mem_resolved.mp hp).1, hid⟩
  · obtain ⟨p, hmem, hid⟩ := exists_of_contested hc
    rcases ((mem_claimOutput hp).2.2.1 _).mp hn with hid' | ⟨o, -, hid'⟩
    · exact ⟨p, hmem, hid.trans (Identity.payment.inj hid').symm⟩
    · cases hid'
  · obtain ⟨p, hp, hid⟩ := List.mem_map.mp
      (payment_mem_groupIdentities.mp ((mem_paymentRules hp).2.2.1 _ hn))
    exact ⟨p, mem_payments_of_mem_group hp, hid⟩
  · rw [(mem_refundRules hr hp).2.1, List.mem_singleton] at hn
    cases hn
  · rw [(mem_paymentPart hp).2.1, List.mem_singleton, Identity.payment.injEq] at hn
    exact ⟨q, hq, hn.symm⟩

/-- A second attempt that was returned in full stays unmentioned exactly if the amount rule finds
the order's amount in it and, where it received nothing, no other rule minds. -/
theorem returned_attempt_invisible_iff (h : AddsAttempt s t o q rs) (hs : s.Gated)
    (ht : t.validate = .ok ()) (ho : o ∈ s.orders) (he : evaluate sha256 s = .ok e)
    (hr : ReachesPaymentRules sha256 s o) (hone : succeeded (s.group o) = [p])
    (hnot : ¬ Returned s p) (hq : ReturnedAttempt s q rs)
    (hquiet : ∀ f ∈ e.proposals, Identity.order o.id ∉ f.identities) :
    ∃ e', evaluate sha256 t = .ok e' ∧
      ((∀ f ∈ e'.proposals, Identity.order o.id ∉ f.identities ∧
        Identity.payment q.id ∉ f.identities) ↔ Invisible s o q rs) := by
  have ht : t.Gated := hs.of_frame h.frame ht
  have ha : Admitted sha256 s o := (reachesPaymentRules_iff hs he ho).mp hr
  have ha' : Admitted sha256 t o := (h.admitted_iff hs ht ho hq.bounded).mpr ha
  have hsilent : ∀ f, ¬ FromRules sha256 s o f := fun f hf =>
    hquiet f ((mem_proposals_iff hs he ho).mpr (Or.inl hf)) (order_mem_of_fromRules hf)
  have hpayment : paymentRules sha256 s o (s.group o) (s.matchConfidence o) = [] :=
    List.eq_nil_iff_forall_not_mem.mpr fun f hf => hsilent f ⟨ha, Or.inl hf⟩
  obtain ⟨d, hd⟩ : ∃ d, refundRules sha256 s o (s.group o) (s.matchConfidence o) = .ok d := by
    obtain ⟨d, hd⟩ := (evaluate_ok_iff sha256 hs).mp ⟨e, he⟩ o ho
    rw [orderPart, evaluateOrder_eq hs.orders_nodup ho, if_pos ha.1, ha.2] at hd
    obtain ⟨r, hr, -⟩ := applyRules_ok.mp hd
    exact ⟨r, hr⟩
  have hrefund : d.proposals = [] :=
    List.eq_nil_iff_forall_not_mem.mpr fun f hf => hsilent f ⟨ha, Or.inr ⟨d, hd, hf⟩⟩
  obtain ⟨d', hd', hnil⟩ := @refundRules_attempt _ _ _ _ _ _ _ h hs ht ho hq hone hnot _
    (t.matchConfidence o) _ hd hrefund
  obtain ⟨e', he'⟩ := h.completes hs ht ho hq.bounded ha he (iff_of_true ⟨d', hd'⟩ ⟨d, hd⟩)
  refine ⟨e', he', ?_⟩
  have hrules : (∀ f, ¬ FromRules sha256 t o f) ↔
      paymentRules sha256 t o (t.group o) (t.matchConfidence o) = [] ∧ d'.proposals = [] := by
    simp only [FromRules, ha', true_and, hd', Except.ok.injEq, exists_eq_left', not_or,
      forall_and, List.eq_nil_iff_forall_not_mem]
  have hinvisible : Invisible s o q rs ↔
      paymentRules sha256 t o (t.group o) (t.matchConfidence o) = [] ∧ d'.proposals = [] := by
    rw [paymentRules_attempt h hs ht ho hq hone hnot hpayment, hnil]
    exact ⟨fun hi => ⟨⟨hi.duplicate, hi.amount⟩, hi.currency⟩,
      fun hc => ⟨hc.1.2, hc.1.1, hc.2⟩⟩
  rw [hinvisible, ← hrules]
  constructor
  · intro hnone f hf
    exact (hnone f ((mem_proposals_iff ht he' (h.mem_orders.mpr ho)).mpr (Or.inl hf))).1
      (order_mem_of_fromRules hf)
  · intro hnone f hf
    rcases (mem_proposals_iff ht he' (h.mem_orders.mpr ho)).mp hf with hf | hf
    · exact absurd hf (hnone f)
    · -- the same was proposed before the attempt was made
      obtain ⟨g, hg, hk⟩ := (h.elsewhere_summary hs ht ho ha.1).mp ⟨f, hf, rfl⟩
      have hge : g ∈ e.proposals := (mem_proposals_iff hs he ho).mpr (Or.inr hg)
      have hids : f.identities = g.identities := (congrArg Summary.identities hk).symm
      rw [hids]
      refine ⟨hquiet g hge, fun hn => ?_⟩
      obtain ⟨p', hp', hid⟩ := exists_payment_of_identity hs he hge hn
      exact h.ne_id ht hp' hid

namespace Fixture

def returnedPayment (minor : ℕ) (hm : minor ≤ maxMinor) : Payment :=
  { extraPayment with amount := eur minor hm, received := eur minor hm, compatible := ⟨rfl, rfl⟩ }

def fullRefund (minor : ℕ) (hm : minor ≤ maxMinor) : Refund :=
  { extraRefund old with amount := eur minor hm }

def correctedSnapshot (minor : ℕ) (hm : minor ≤ maxMinor) : Snapshot :=
  { snapshot with
    payments := [returnedPayment minor hm, payment]
    refunds := [fullRefund minor hm] }

theorem correctedSnapshot_adds (minor : ℕ) (hm : minor ≤ maxMinor) :
    AddsAttempt snapshot (correctedSnapshot minor hm) order (returnedPayment minor hm)
      [fullRefund minor hm] where
  frame := ⟨rfl, rfl, rfl, rfl, rfl, rfl, rfl, rfl, rfl, rfl, rfl⟩
  orders := .refl _
  payments := .refl _
  refunds := .refl _
  hinted := rfl
  here := Or.inr rfl
  uncited := by
    intro o ho
    rw [List.mem_singleton.mp ho]
    change ∀ ref ∈ order.references, ref ∉ extraPayment.aliases
    decide
  returned r hr := by
    rw [List.mem_singleton.mp hr]
    exact ⟨rfl, rfl⟩
  unreturned := List.forall_mem_nil _
  plain := List.not_mem_nil

theorem returnedPayment_returned (minor : ℕ) (hm : minor ≤ maxMinor) :
    ReturnedAttempt snapshot (returnedPayment minor hm) [fullRefund minor hm] where
  succeeded := rfl
  bounded := by
    change old ≤ snapshot.through
    decide
  refunds r hr := by
    rw [List.mem_singleton.mp hr]
    refine ⟨rfl, rfl, rfl, ?_⟩
    change old + snapshot.policy.refundGrace ≤ min snapshot.now snapshot.through
    decide
  sum := Nat.add_zero minor

theorem smallAttempt_reported : ∃ e,
    evaluate Sha256.hexdigest (correctedSnapshot 500 (by decide)) = .ok e ∧
      ∃ f ∈ e.proposals, f.rule = .pi005 ∧ Identity.order order.id ∈ f.identities ∧
        Identity.payment extraPayment.id ∈ f.identities :=
  ⟨_, rfl, by decide +kernel⟩

end Fixture

open Fixture Sha256

theorem returned_attempt_invisible_iff_same_amount : ∃ e,
    evaluate hexdigest (correctedSnapshot 12995 (by decide)) = .ok e ∧
      ∀ f ∈ e.proposals, Identity.order order.id ∉ f.identities ∧
        Identity.payment extraPayment.id ∉ f.identities := by
  have hs : snapshot.Gated := ⟨rfl, by decide, rfl, rfl⟩
  obtain ⟨e, he, hquiet⟩ : ∃ e, evaluate hexdigest snapshot = .ok e ∧ e.proposals = [] :=
    ⟨_, rfl, by decide +kernel⟩
  have hr : ReachesPaymentRules hexdigest snapshot order :=
    (reachesPaymentRules_iff hs he List.mem_cons_self).mpr ⟨by decide +kernel, by decide +kernel⟩
  obtain ⟨e', he', hiff⟩ := returned_attempt_invisible_iff (correctedSnapshot_adds 12995 (by decide))
    hs rfl List.mem_cons_self he hr (p := payment) (by decide) (fun hc => hc.refunded rfl)
    (returnedPayment_returned 12995 (by decide)) (by rw [hquiet]; exact List.forall_mem_nil _)
  exact ⟨e', he', hiff.mpr ⟨fun _ => by decide, fun hz => absurd hz (by decide),
    fun hz => absurd hz (by decide)⟩⟩

/-- The amount rule reports the returned attempt of another amount. -/
theorem returned_attempt_reported : ∃ t q rs, AddsAttempt snapshot t order q rs ∧
    ReturnedAttempt snapshot q rs ∧ 0 < q.received.minor ∧
      succeeded (snapshot.group order) = [payment] ∧ ¬ Returned snapshot payment ∧
        ReachesPaymentRules hexdigest snapshot order ∧
          ∃ e e', evaluate hexdigest snapshot = .ok e ∧ e.proposals = [] ∧
            evaluate hexdigest t = .ok e' ∧
              ∃ f ∈ e'.proposals, f.rule = .pi005 ∧ Identity.order order.id ∈ f.identities ∧
                Identity.payment q.id ∈ f.identities := by
  have hs : snapshot.Gated := ⟨rfl, by decide, rfl, rfl⟩
  obtain ⟨e, he, hquiet⟩ : ∃ e, evaluate hexdigest snapshot = .ok e ∧ e.proposals = [] :=
    ⟨_, rfl, by decide +kernel⟩
  obtain ⟨e', he', hf⟩ := smallAttempt_reported
  exact ⟨_, _, _, correctedSnapshot_adds 500 (by decide), returnedPayment_returned 500 (by decide),
    by decide, by decide, fun hc => hc.refunded rfl,
    (reachesPaymentRules_iff hs he List.mem_cons_self).mpr ⟨by decide +kernel, by decide +kernel⟩,
    e, e', he, hquiet, he', hf⟩

end LedgerGuard
