import LedgerGuard.Core.Attribution
import LedgerGuard.Core.DateRange
import LedgerGuard.Core.Fixtures
import LedgerGuard.Core.Views
import LedgerGuard.Lib.Sha256
import Mathlib.Algebra.Order.BigOperators.Group.List

/-! # Refunds that reverse duplicate attempts

A duplicate counts as corrected once every attempt but one was returned in full and
the grace of its refunds passed by the shared boundary. Until then the same refunds
count against the order, and the rules on refunds measure their grace by the clock.
-/

namespace LedgerGuard

open Ordered

variable {sha256 : String → String} {s : Snapshot} {e : Evaluation} {o : Order}
  {p kept : Payment} {group : List Payment} {r : Refund} {f : Proposal} {rule : RuleCode}

def returnsOf (s : Snapshot) (p : Payment) : List Refund :=
  s.refunds.filter fun r => r.source = .stripe && r.parentId = p.id && r.status = .succeeded

/-- Succeeded refunds return exactly what was received, in its currency. -/
structure Returned (s : Snapshot) (p : Payment) : Prop where
  refunded : returnsOf s p ≠ []
  comparable : ∀ r ∈ returnsOf s p, r.amount.currency = p.received.currency ∧
    r.amount.exponent = p.received.exponent
  sum : ((returnsOf s p).map (·.amount.minor)).sum = p.received.minor

theorem mem_returnsOf : r ∈ returnsOf s p ↔
    r ∈ s.refunds ∧ r.source = .stripe ∧ r.parentId = p.id ∧ r.status = .succeeded := by
  simp [returnsOf, and_assoc]

theorem isCompensated_iff (h : s.Gated) : isCompensated s p = true ↔ Returned s p ∧
    0 < p.received.minor ∧ ∀ r ∈ returnsOf s p, r.changedAt + s.policy.refundGrace ≤ s.through := by
  have hmin : min s.now s.through = s.through := min_eq_right (through_le_now h)
  unfold isCompensated
  change (returnsOf s p ≠ [] && 0 < p.received.minor && (returnsOf s p).all _ && _ &&
    (returnsOf s p).all _) = true ↔ _
  simp only [hmin, Bool.and_eq_true, decide_eq_true_eq, List.all_eq_true]
  constructor
  · rintro ⟨⟨⟨⟨hne, hpos⟩, hc⟩, hsum⟩, hgrace⟩
    exact ⟨⟨hne, hc, hsum⟩, hpos, hgrace⟩
  · rintro ⟨⟨hne, hc, hsum⟩, hpos, hgrace⟩
    exact ⟨⟨⟨⟨hne, hpos⟩, hc⟩, hsum⟩, hgrace⟩

theorem mem_compensated {pid : String} : pid ∈ compensated s group ↔
    ∃ p ∈ succeeded group, isCompensated s p = true ∧ p.id = pid := by
  simp [compensated, and_assoc]

theorem mem_stripeRefunds : r ∈ stripeRefunds s group ↔ r ∈ s.refunds ∧ r.source = .stripe ∧
    r.status = .succeeded ∧ r.parentId ∈ group.map (·.id) ∧
      ¬ (correctedDuplicate s group = true ∧ r.parentId ∈ compensated s group) := by
  simp only [stripeRefunds, mem_sortBy, List.mem_filter, Bool.and_eq_true, decide_eq_true_eq,
    Bool.not_eq_true', Bool.and_eq_false_iff, decide_eq_false_iff_not, not_and_or, Bool.not_eq_true]
  tauto

theorem stripeRefunds_nodup (h : s.Gated) : (stripeRefunds s group).Nodup :=
  (sortBy_perm _ _).nodup_iff.mpr (h.refunds_nodup.of_map.filter _)

theorem mem_wooRefunds :
    r ∈ wooRefunds s o ↔ r ∈ s.refunds ∧ r.source = .woo ∧ r.parentId = o.id := by
  simp [wooRefunds]

theorem mem_succeeded : p ∈ succeeded group ↔ p ∈ group ∧ p.status = .succeeded := by
  simp [succeeded]

theorem sum_minor_eq_zero {rs : List Refund} :
    (rs.map (·.amount.minor)).sum = 0 ↔ ∀ r ∈ rs, r.amount.minor = 0 := by
  rw [List.sum_eq_zero_iff, List.forall_mem_map]

theorem length_filter_of_excepted {α : Type} [DecidableEq α] {xs : List α} {x : α} {P : α → Bool}
    (hn : xs.Nodup) (hx : x ∈ xs) (hP : P x = false) :
    (xs.filter P).length + 1 = xs.length ↔ ∀ y ∈ xs, y ≠ x → P y = true := by
  have hperm : (xs.filter P).Perm ((xs.erase x).filter P) := by
    have hcons := (List.perm_cons_erase hx).filter P
    rwa [List.filter_cons_of_neg (by simp [hP])] at hcons
  rw [hperm.length_eq, ← (List.perm_cons_erase hx).length_eq.symm, List.length_cons,
    Nat.add_right_cancel_iff, List.length_filter_eq_length_iff]
  simp only [hn.mem_erase_iff, ne_eq, and_imp]
  exact forall_congr' fun y => ⟨fun h hy hne => h hne hy, fun h hne hy => h hy hne⟩

theorem correctedDuplicate_iff (hn : (succeeded group).Nodup) (hlen : 1 < (succeeded group).length)
    (hk : kept ∈ succeeded group) (hc : isCompensated s kept = false) :
    correctedDuplicate s group = true ↔
      ∀ p ∈ succeeded group, p ≠ kept → isCompensated s p = true := by
  rw [← length_filter_of_excepted hn hk hc, correctedDuplicate, compensated, List.length_map]
  have hle := List.length_filter_le (isCompensated s) (succeeded group)
  simp only [hlen, decide_true, Bool.true_and, decide_eq_true_eq]
  omega

theorem exists_ready_emit_iff {ids : List Identity} {risk : Option Money} {c : ℕ}
    {eligible : Instant} {facts : Facts} :
    (∃ f ∈ emit sha256 s rule ids risk c eligible facts, f.ready = true) ↔
      rule ∈ s.rules ∧ eligible ≤ s.now := by
  unfold emit
  by_cases hr : rule ∈ s.rules
  · rw [if_neg (not_not.mpr hr)]
    simp [hr]
  · rw [if_pos hr]
    simp [hr]

theorem latest_add_le {t u : Instant} {ts : List Instant} {grace : Duration} :
    latest t ts + grace ≤ u ↔ t + grace ≤ u ∧ ∀ v ∈ ts, v + grace ≤ u := by
  unfold latest
  induction ts generalizing t with
  | nil => simp
  | cons v ts ih =>
    rw [List.foldl_cons, ih, List.forall_mem_cons, ← and_assoc, ← max_add_add_right, max_le_iff]

/-- All succeeded payments of a matched order but one were returned within the boundary, and the
shop records no refund. -/
structure ReversesDuplicates (s : Snapshot) (o : Order) (kept : Payment) : Prop where
  matched : s.isMatched o = true
  many : 1 < (succeeded (s.group o)).length
  kept_mem : kept ∈ succeeded (s.group o)
  kept_unrefunded : ∀ r ∈ s.refunds, r.source = .stripe → r.parentId ≠ kept.id
  returned : ∀ p ∈ succeeded (s.group o), p ≠ kept →
    Returned s p ∧ ∀ r ∈ returnsOf s p, r.changedAt ≤ s.through
  unrecorded : o.refunded.minor = 0 ∧ o.status ≠ .refunded

/-- Every returned attempt received something, and its refunds had their grace by the boundary. -/
def Settled (s : Snapshot) (o : Order) (kept : Payment) : Prop :=
  ∀ p ∈ succeeded (s.group o), p ≠ kept → 0 < p.received.minor ∧
    ∀ r ∈ returnsOf s p, r.changedAt + s.policy.refundGrace ≤ s.through

/-- The refund is one of a matched payment, other than of a settled attempt. -/
def Refund.Counts (s : Snapshot) (o : Order) (kept : Payment) (r : Refund) : Prop :=
  r.source = .stripe ∧ r.status = .succeeded ∧
    ∃ p ∈ s.group o, r.parentId = p.id ∧ (p.status = .succeeded → ¬ Settled s o kept)

def Refund.InView (s : Snapshot) (o : Order) (kept : Payment) (r : Refund) : Prop :=
  r ∈ s.refunds ∧ (r.Counts s o kept ∨ r.source = .woo ∧ r.parentId = o.id)

def Refund.Comparable (o : Order) (r : Refund) : Prop :=
  r.amount.currency = o.amount.currency ∧ r.amount.exponent = o.amount.exponent

/-- Refunds that count, none past the boundary, had their grace by the clock. -/
structure Reopens (sha256 : String → String) (s : Snapshot) (o : Order) (kept : Payment) :
    Prop where
  admitted : Admitted sha256 s o
  bounded : ∀ r : Refund, r.InView s o kept →
    r.changedAt ≤ s.through ∧ r.changedAt + s.policy.refundGrace ≤ s.now
  differs : ((∃ r : Refund, r.InView s o kept ∧ ¬ r.Comparable o) ∧ RuleCode.pi008 ∈ s.rules ∧
      o.changedAt + s.policy.refundGrace ≤ s.now) ∨
    ((∀ r : Refund, r.InView s o kept → r.Comparable o) ∧
      (∀ r ∈ s.refunds, r.source = .woo → r.parentId = o.id → r.amount.minor = 0) ∧
      (∃ r ∈ s.refunds, r.Counts s o kept ∧ r.amount.minor ≠ 0) ∧ RuleCode.pi006 ∈ s.rules ∧
      s.windowFrom + s.policy.refundGrace ≤ s.now)

section Reverses

variable (h : ReversesDuplicates s o kept) (hs : s.Gated)

include h hs

theorem ReversesDuplicates.kept_not_compensated : isCompensated s kept = false := by
  rw [← Bool.not_eq_true, isCompensated_iff hs]
  rintro ⟨hr, -⟩
  obtain ⟨r, hm⟩ := List.exists_mem_of_ne_nil _ hr.refunded
  obtain ⟨hm, hsrc, hparent, -⟩ := mem_returnsOf.mp hm
  exact h.kept_unrefunded r hm hsrc hparent

theorem ReversesDuplicates.corrected_iff :
    correctedDuplicate s (s.group o) = true ↔ Settled s o kept := by
  have hn : (succeeded (s.group o)).Nodup := (group_ids_nodup hs.payments_nodup o).of_map.filter _
  rw [correctedDuplicate_iff hn h.many h.kept_mem (h.kept_not_compensated hs)]
  refine forall₃_congr fun p hp hne => ?_
  rw [isCompensated_iff hs, and_iff_right (h.returned p hp hne).1]

theorem ReversesDuplicates.mem_stripeRefunds_iff :
    r ∈ stripeRefunds s (s.group o) ↔ r ∈ s.refunds ∧ r.Counts s o kept := by
  rw [mem_stripeRefunds, h.corrected_iff hs]
  refine and_congr_right fun hr => and_congr_right fun hsrc => and_congr_right fun hstatus => ?_
  constructor
  · rintro ⟨hparent, hc⟩
    obtain ⟨p, hp, he⟩ := List.mem_map.mp hparent
    refine ⟨p, hp, he.symm, fun hsucceeded hsettled => hc ⟨hsettled, ?_⟩⟩
    have hp' : p ∈ succeeded (s.group o) := mem_succeeded.mpr ⟨hp, hsucceeded⟩
    have hne : p ≠ kept := by
      rintro rfl
      exact h.kept_unrefunded r hr hsrc he.symm
    have hcomp := (isCompensated_iff hs).mpr ⟨(h.returned p hp' hne).1, hsettled p hp' hne⟩
    exact mem_compensated.mpr ⟨p, hp', hcomp, he⟩
  · rintro ⟨p, hp, he, hc⟩
    refine ⟨List.mem_map.mpr ⟨p, hp, he.symm⟩, ?_⟩
    rintro ⟨hsettled, hm⟩
    obtain ⟨q, hq, -, hqe⟩ := mem_compensated.mp hm
    obtain ⟨hqg, hsucceeded⟩ := mem_succeeded.mp hq
    have hpq : q = p := payment_eq_of_id_eq hs.payments_nodup (mem_payments_of_mem_group hqg)
      (mem_payments_of_mem_group hp) (hqe.trans he)
    exact hc (hpq ▸ hsucceeded) hsettled

theorem ReversesDuplicates.inView_iff :
    r ∈ stripeRefunds s (s.group o) ++ wooRefunds s o ↔ r.InView s o kept := by
  rw [List.mem_append, h.mem_stripeRefunds_iff hs, mem_wooRefunds, ← and_or_left, Refund.InView]

theorem ReversesDuplicates.not_exceeded (hp : p ∈ succeeded (s.group o)) :
    (((stripeRefunds s (s.group o)).filter (·.parentId = p.id)).map (·.amount.minor)).sum ≤
      p.received.minor := by
  have hperm : ((stripeRefunds s (s.group o)).filter (·.parentId = p.id)).Subperm
      (returnsOf s p) := by
    refine (List.subperm_of_subset ?_ fun r hr => ?_)
    · exact (stripeRefunds_nodup hs).filter _
    · obtain ⟨hr, he⟩ := List.mem_filter.mp hr
      obtain ⟨hm, hsrc, hstatus, -⟩ := mem_stripeRefunds.mp hr
      exact mem_returnsOf.mpr ⟨hm, hsrc, of_decide_eq_true he, hstatus⟩
  have hsum : (((stripeRefunds s (s.group o)).filter (·.parentId = p.id)).map
      (·.amount.minor)).sum ≤ ((returnsOf s p).map (·.amount.minor)).sum := by
    obtain ⟨zs, hz, hsub⟩ := hperm
    rw [← (hz.map _).sum_eq]
    exact (hsub.map _).sum_le_sum fun _ _ => Nat.zero_le _
  by_cases hk : p = kept
  · have hnone : returnsOf s p = [] := by
      rw [List.eq_nil_iff_forall_not_mem]
      intro r hr
      obtain ⟨hm, hsrc, hparent, -⟩ := mem_returnsOf.mp hr
      exact h.kept_unrefunded r hm hsrc (hk ▸ hparent)
    rw [hnone] at hsum
    exact hsum.trans (Nat.zero_le _)
  · exact hsum.trans_eq (h.returned p hp hk).1.sum

theorem ReversesDuplicates.exists_ready_iff {c : ℕ} {d : Output}
    (hd : refundRules sha256 s o (s.group o) c = .ok d) (ha : Admitted sha256 s o) :
    (∃ f ∈ d.proposals, f.ready = true) ↔ Reopens sha256 s o kept := by
  have hview : ∀ P : Refund → Bool,
      (stripeRefunds s (s.group o) ++ wooRefunds s o).any P = true ↔
        ∃ r : Refund, r.InView s o kept ∧ P r = true := by
    intro P
    rw [List.any_eq_true]
    exact exists_congr fun r => and_congr_left fun _ => h.inView_iff hs
  have hgrace : ∀ t, latest t ((stripeRefunds s (s.group o) ++ wooRefunds s o).map
      (·.changedAt)) + s.policy.refundGrace ≤ s.now ↔ t + s.policy.refundGrace ≤ s.now ∧
        ∀ r : Refund, r.InView s o kept → r.changedAt + s.policy.refundGrace ≤ s.now := by
    intro t
    rw [latest_add_le, List.forall_mem_map]
    exact and_congr_right fun _ => forall_congr' fun r => imp_congr_left (h.inView_iff hs)
  have hzero : o.refunded.minor = 0 := h.unrecorded.1
  unfold refundRules at hd
  dsimp only at hd
  split_ifs at hd with hlate hdiffer hexceed hwoo
  · -- a refund past the boundary holds the order
    obtain rfl := Except.ok.inj hd
    obtain ⟨r, hr, hlt⟩ := (hview _).mp hlate
    refine iff_of_false (by simp) fun hreopens => ?_
    exact absurd (hreopens.bounded r hr).1 (not_le.mpr (of_decide_eq_true hlt))
  all_goals
    have hbounded : ∀ r : Refund, r.InView s o kept → r.changedAt ≤ s.through := by
      intro r hr
      by_contra hlt
      exact hlate ((hview _).mpr ⟨r, hr, decide_eq_true (not_le.mp hlt)⟩)
  · obtain rfl := Except.ok.inj hd
    have hdiffer' : ∃ r : Refund, r.InView s o kept ∧ ¬ r.Comparable o := by
      obtain ⟨r, hr, hne⟩ := (hview _).mp hdiffer
      simp only [Bool.or_eq_true, decide_eq_true_eq, ← not_and_or] at hne
      exact ⟨r, hr, hne⟩
    rw [exists_ready_emit_iff, hgrace]
    constructor
    · rintro ⟨hon, ho, hr⟩
      exact ⟨ha, fun r hv => ⟨hbounded r hv, hr r hv⟩, Or.inl ⟨hdiffer', hon, ho⟩⟩
    · intro hreopens
      rcases hreopens.differs with ⟨-, hon, ho⟩ | ⟨hall, -⟩
      · exact ⟨hon, ho, fun r hv => (hreopens.bounded r hv).2⟩
      · obtain ⟨r, hr, hne⟩ := hdiffer'
        exact absurd (hall r hr) hne
  · -- no payment has more refunded than it received
    exfalso
    rcases hexceed with hlt | hany
    · rw [hzero] at hlt
      exact Nat.not_lt_zero _ hlt
    · obtain ⟨p, hp, hlt⟩ := List.any_eq_true.mp hany
      exact absurd (h.not_exceeded hs hp) (not_le.mpr (of_decide_eq_true hlt))
  all_goals
    have hsame : ∀ r : Refund, r.InView s o kept → r.Comparable o := by
      intro r hr
      by_contra hne
      refine hdiffer ((hview _).mpr ⟨r, hr, ?_⟩)
      rw [Refund.Comparable] at hne
      simpa only [Bool.or_eq_true, decide_eq_true_eq, ← not_and_or] using hne
    have hwooSum : ((wooRefunds s o).map (·.amount.minor)).sum = 0 ↔ ∀ r ∈ s.refunds,
        r.source = .woo → r.parentId = o.id → r.amount.minor = 0 := by
      simp only [sum_minor_eq_zero, mem_wooRefunds, and_imp]
  · obtain rfl := Except.ok.inj hd
    refine iff_of_false (by simp) fun hreopens => ?_
    rcases hreopens.differs with ⟨⟨r, hr, hne⟩, -⟩ | ⟨-, hnone, -⟩
    · exact hne (hsame r hr)
    · exact hwoo.2 ((hwooSum.mpr hnone).trans hzero.symm)
  · have hnone : ∀ r ∈ s.refunds, r.source = .woo → r.parentId = o.id → r.amount.minor = 0 := by
      rw [← hwooSum, ← hzero]
      by_cases hw : wooRefunds s o = []
      · rw [hw, hzero]
        rfl
      · exact not_not.mp fun hne => hwoo ⟨hw, hne⟩
    have hsum : ((stripeRefunds s (s.group o)).map (·.amount.minor)).sum ≠ 0 ↔
        ∃ r ∈ s.refunds, r.Counts s o kept ∧ r.amount.minor ≠ 0 := by
      simp only [ne_eq, sum_minor_eq_zero, h.mem_stripeRefunds_iff hs, not_forall, exists_prop,
        and_assoc]
    unfold refundTotals at hd
    simp only [bind, Except.bind] at hd
    split at hd
    · cases hd
    obtain rfl := Except.ok.inj hd
    simp only [hzero, ne_eq, not_true_eq_false, h.unrecorded.2, or_self, if_false, false_and,
      and_true]
    by_cases hsr : ((stripeRefunds s (s.group o)).map (·.amount.minor)).sum = 0
    · rw [if_neg (not_not.mpr hsr), if_neg (not_not.mpr hsr)]
      refine iff_of_false (by simp) fun hreopens => ?_
      rcases hreopens.differs with ⟨⟨r, hr, hne⟩, -⟩ | ⟨-, -, hsome, -⟩
      · exact hne (hsame r hr)
      · exact hsum.mpr hsome hsr
    · rw [if_pos hsr, exists_ready_emit_iff, hgrace]
      constructor
      · rintro ⟨hon, hw, hr⟩
        exact ⟨ha, fun r hv => ⟨hbounded r hv, hr r hv⟩,
          Or.inr ⟨hsame, hnone, hsum.mp hsr, hon, hw⟩⟩
      · intro hreopens
        rcases hreopens.differs with ⟨⟨r, hr, hne⟩, -⟩ | ⟨-, -, -, hon, hw⟩
        · exact absurd (hsame r hr) hne
        · exact ⟨hon, hw, fun r hv => (hreopens.bounded r hv).2⟩

omit hs in
theorem ReversesDuplicates.rule_of_refundRules {c : ℕ} {d : Output}
    (hd : refundRules sha256 s o group c = .ok d) (hf : f ∈ d.proposals) :
    f.rule = .pi006 ∨ f.rule = .pi008 := by
  have hzero : o.refunded.minor = 0 := h.unrecorded.1
  unfold refundRules refundTotals at hd
  simp only [bind, Except.bind, hzero, ne_eq, not_true_eq_false, h.unrecorded.2, or_self,
    false_and, if_false, and_true] at hd
  split_ifs at hd
  · obtain rfl := Except.ok.inj hd
    exact absurd hf List.not_mem_nil
  · obtain rfl := Except.ok.inj hd
    exact Or.inr (mem_emit hf).2.1
  · obtain rfl := Except.ok.inj hd
    exact absurd hf List.not_mem_nil
  · obtain rfl := Except.ok.inj hd
    exact absurd hf List.not_mem_nil
  · split at hd
    · cases hd
    · obtain rfl := Except.ok.inj hd
      exact absurd hf List.not_mem_nil
  · split at hd
    · cases hd
    · obtain rfl := Except.ok.inj hd
      exact Or.inl (mem_emit hf).2.1

end Reverses

theorem mem_refund_proposals (hs : s.Gated) (he : evaluate sha256 s = .ok e) (ho : o ∈ s.orders)
    (hr : rule ∈ [RuleCode.pi006, .pi007, .pi008]) :
    (f ∈ e.proposals ∧ f.rule = rule ∧ Identity.order o.id ∈ f.identities) ↔
      Admitted sha256 s o ∧ ∃ d, refundRules sha256 s o (s.group o) (s.matchConfidence o) = .ok d ∧
        f ∈ d.proposals ∧ f.rule = rule := by
  constructor
  · rintro ⟨hf, rfl, hn⟩
    rcases (mem_proposals hs he).mp hf with ⟨o', -, -, hp⟩ | ⟨pid, -, hp⟩ |
      ⟨o', ho', ha, hp | ⟨d, hd, hp⟩⟩ | ⟨q, -, hp⟩
    · rw [(mem_conflictOutput hp).1] at hr
      exact absurd hr (by decide)
    · rw [(mem_claimOutput hp).1] at hr
      exact absurd hr (by decide)
    · have hmem := (mem_paymentRules hp).1
      simp only [List.mem_cons, List.not_mem_nil, or_false] at hmem
      rcases hmem with hm | hm | hm | hm <;> rw [hm] at hr <;> exact absurd hr (by decide)
    · rw [(mem_refundRules hd hp).2.1, List.mem_singleton, Identity.order.injEq] at hn
      obtain rfl := eq_of_id_eq hs.orders_nodup ho ho' hn
      exact ⟨ha, d, hd, hp, rfl⟩
    · rw [(mem_paymentPart hp).1] at hr
      exact absurd hr (by decide)
  · rintro ⟨ha, d, hd, hf, hrule⟩
    refine ⟨(mem_proposals hs he).mpr (Or.inr (Or.inr (Or.inl ⟨o, ho, ha, Or.inr ⟨d, hd, hf⟩⟩))),
      hrule, ?_⟩
    rw [(mem_refundRules hd hf).2.1]
    exact List.mem_singleton_self _

/-- The order whose duplicates were returned gets a ready refund finding exactly if refunds reopen
it. -/
theorem no_refund_finding_iff (hs : s.Gated) (he : evaluate sha256 s = .ok e) (ho : o ∈ s.orders)
    (h : ReversesDuplicates s o kept) :
    (∀ f ∈ e.proposals, f.rule = .pi006 ∨ f.rule = .pi008 →
      Identity.order o.id ∈ f.identities → f.ready = false) ↔ ¬ Reopens sha256 s o kept := by
  rw [← not_iff_not, not_not]
  push Not
  constructor
  · rintro ⟨f, hf, hr, hn, hready⟩
    have hrule : f.rule ∈ [RuleCode.pi006, .pi007, .pi008] := by
      rcases hr with hr | hr <;> rw [hr] <;> decide
    obtain ⟨ha, d, hd, hm, -⟩ := (mem_refund_proposals hs he ho hrule).mp ⟨hf, rfl, hn⟩
    exact (h.exists_ready_iff hs hd ha).mp ⟨f, hm, by simpa using hready⟩
  · intro hreopens
    have ha := hreopens.admitted
    obtain ⟨d, hd⟩ : ∃ d, applyRules sha256 s o (s.group o) (s.matchConfidence o) = .ok d := by
      obtain ⟨d, hd⟩ := (evaluate_ok_iff sha256 hs).mp ⟨e, he⟩ o ho
      rw [orderPart, evaluateOrder_eq hs.orders_nodup ho, if_pos ha.1, ha.2] at hd
      exact ⟨d, hd⟩
    obtain ⟨r, hr, -⟩ := applyRules_ok.mp hd
    obtain ⟨f, hf, hready⟩ := (h.exists_ready_iff hs hr ha).mpr hreopens
    have hrule := h.rule_of_refundRules hr hf
    have hlisted : f.rule ∈ [RuleCode.pi006, .pi007, .pi008] := by
      rcases hrule with hr | hr <;> rw [hr] <;> decide
    obtain ⟨hmem, -, hn⟩ := (mem_refund_proposals hs he ho hlisted).mpr ⟨ha, r, hr, hf, rfl⟩
    exact ⟨f, hmem, hrule, hn, by simpa using hready⟩

namespace Fixture

/-- A second attempt at the order. -/
def extraPayment : Payment := { payment with id := "pi_two", id_prefix := second_prefix }

def extraRefund (changedAt : Instant) : Refund where
  id := "re_one"
  source := .stripe
  parentId := "pi_two"
  amount := eur 12995 price_le
  status := .succeeded
  changedAt := changedAt
  status_allowed := stripe_succeeded

def returnedSnapshot (changedAt : Instant) : Snapshot :=
  { snapshot with
    payments := [payment, extraPayment]
    refunds := [extraRefund changedAt] }

theorem returnedSnapshot_reverses (changedAt : Instant)
    (h : changedAt ≤ now - minutes 1) :
    ReversesDuplicates (returnedSnapshot changedAt) order payment where
  matched := rfl
  many := Nat.one_lt_two
  kept_mem := List.mem_cons_self
  kept_unrefunded r hr _ := by
    rw [List.mem_singleton.mp hr]
    exact (by decide : "pi_two" ≠ "pi_one")
  returned p hp hne := by
    have hp : p = extraPayment := by
      have hmem : p ∈ [payment, extraPayment] := hp
      simpa [hne] using hmem
    subst hp
    refine ⟨⟨List.cons_ne_nil _ _, ?_, rfl⟩, ?_⟩
    · intro r hr
      rw [List.mem_singleton.mp hr]
      exact ⟨rfl, rfl⟩
    · intro r hr
      rw [List.mem_singleton.mp hr]
      exact h
  unrecorded := ⟨rfl, by decide⟩

end Fixture

open Fixture Sha256

theorem no_refund_finding_iff_corrected : ∃ e, evaluate hexdigest (returnedSnapshot old) = .ok e ∧
    ∀ f ∈ e.proposals, f.rule = .pi006 ∨ f.rule = .pi008 →
      Identity.order order.id ∈ f.identities → f.ready = false := by
  obtain ⟨e, he⟩ : ∃ e, evaluate hexdigest (returnedSnapshot old) = .ok e := ⟨_, rfl⟩
  have hs : (returnedSnapshot old).Gated := ⟨rfl, by decide, rfl, rfl⟩
  refine ⟨e, he, (no_refund_finding_iff hs he List.mem_cons_self
    (returnedSnapshot_reverses old (by decide))).mpr fun hreopens => ?_⟩
  have hnone : ∀ r : Refund, ¬ r.InView (returnedSnapshot old) order payment := by
    rintro r ⟨hr, ⟨-, -, p, hp, he, hc⟩ | ⟨hsrc, -⟩⟩
    · have hmem : p ∈ [payment, extraPayment] := hp
      have hstatus : p.status = .succeeded := by
        rcases List.mem_cons.mp hmem with rfl | hmem
        · rfl
        · rw [List.mem_singleton.mp hmem]
          rfl
      refine hc hstatus fun q hq hne => ?_
      have hq : q = extraPayment := by
        have hmem : q ∈ [payment, extraPayment] := hq
        simpa [hne] using hmem
      subst hq
      refine ⟨by decide, fun r hr => ?_⟩
      rw [List.mem_singleton.mp hr]
      decide
    · rw [List.mem_singleton.mp hr] at hsrc
      cases hsrc
  rcases hreopens.differs with ⟨⟨r, hr, -⟩, -⟩ | ⟨-, -, ⟨r, hr, hc, -⟩, -⟩
  · exact hnone r hr
  · exact hnone r ⟨hr, Or.inl hc⟩

/-- The grace of the refund passed half a minute ago, after the boundary. -/
theorem refund_of_duplicate_reported : ∃ changedAt,
    ReversesDuplicates (returnedSnapshot changedAt) order payment ∧
      ∃ e, evaluate hexdigest (returnedSnapshot changedAt) = .ok e ∧
        ∃ f ∈ e.proposals, f.rule = .pi006 ∧ Identity.order order.id ∈ f.identities ∧
          f.ready = true :=
  ⟨now - minutes 60 - seconds 30, returnedSnapshot_reverses _ (by decide), _, rfl,
    by decide +kernel⟩

end LedgerGuard
