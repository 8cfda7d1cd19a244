import LedgerGuard.Core.InputDigest

/-! # Runs that can be reproduced

The digest of an evaluation tells its facts, and the facts tell what it says, in whatever
order they come. The order decides only whether it raises: the graces of the refunds of a
payment are added one after another, up to the first refund that is late, so a refund at
the end of time is passed over when another late one comes before it.
-/

namespace LedgerGuard

open Ordered Raising

variable {sha256 : String → String} {s t : Snapshot} {e e' : Evaluation} {o : Order}
  {p : Payment} {group : List Payment}

/-- The times at which the refunds of a payment count as settled. -/
def refundTimes (s : Snapshot) (p : Payment) : List Instant :=
  (returnsOf s p).map fun r => r.changedAt + s.policy.refundGrace

/-- The sums of an order that reaches the rules, other than the times of refunds. -/
def otherSums (s : Snapshot) (o : Order) (group : List Payment) : List Instant :=
  duplicateSums s group ++ missingSums s o group ++ (succeeded group).map (paymentEligible s) ++
    refundSums s o group

/-- The run adds the graces of the refunds of the payment. -/
structure Snapshot.ReadsGraces (sha256 : String → String) (s : Snapshot) (p : Payment) : Prop where
  admitted : ∃ o ∈ s.orders, Admitted sha256 s o ∧ p ∈ succeeded (s.group o)
  returned : Returned s p
  received : 0 < p.received.minor

/-- Nothing but the graces of refunds can make the run raise. -/
structure Snapshot.OthersInRange (sha256 : String → String) (s : Snapshot) : Prop where
  differences : s.DifferencesFit sha256
  orders : ∀ o ∈ s.orders, Admitted sha256 s o → ∀ t ∈ otherSums s o (s.group o), t ≤ datetimeMax
  payments : ∀ p ∈ s.payments,
    ∀ t ∈ paymentSums s (matching sha256 s) (matchedOutput sha256 s) p, t ≤ datetimeMax

/-- Whether the run raises hinges on the order of the refunds: some refund is at the end of time,
and every returned payment with such a refund has another one that is late, but can be added. -/
structure Snapshot.Hinges (sha256 : String → String) (s : Snapshot) : Prop where
  gated : s.Gated
  others : s.OthersInRange sha256
  escapes : ∀ p, s.ReadsGraces sha256 p → (∀ t ∈ refundTimes s p, t ≤ datetimeMax) ∨
    ∃ t ∈ refundTimes s p, min s.now s.through < t ∧ t ≤ datetimeMax
  raises : ∃ p, s.ReadsGraces sha256 p ∧ ∃ t ∈ refundTimes s p, datetimeMax < t

theorem compensationSums_le_iff (hb : min s.now s.through ≤ datetimeMax) :
    (∀ t ∈ compensationSums s p, t ≤ datetimeMax) ↔ (Returned s p → 0 < p.received.minor →
      StopsWithin (min s.now s.through) datetimeMax (refundTimes s p)) := by
  have hif : compensationSums s p = if returnsOf s p ≠ [] && 0 < p.received.minor
        && (returnsOf s p).all (fun r =>
          r.amount.currency = p.received.currency && r.amount.exponent = p.received.exponent)
        && ((returnsOf s p).map (·.amount.minor)).sum = p.received.minor then
      (refundTimes s p).takeWhile (· ≤ min s.now s.through) ++
        ((refundTimes s p).dropWhile (· ≤ min s.now s.through)).take 1
    else [] := rfl
  have hguard : (returnsOf s p ≠ [] && 0 < p.received.minor && (returnsOf s p).all (fun r =>
        r.amount.currency = p.received.currency && r.amount.exponent = p.received.exponent)
      && ((returnsOf s p).map (·.amount.minor)).sum = p.received.minor) = true ↔
      Returned s p ∧ 0 < p.received.minor := by
    simp only [Bool.and_eq_true, decide_eq_true_eq, List.all_eq_true]
    constructor
    · rintro ⟨⟨⟨hne, hpos⟩, hc⟩, hsum⟩
      exact ⟨⟨hne, hc, hsum⟩, hpos⟩
    · rintro ⟨⟨hne, hc, hsum⟩, hpos⟩
      exact ⟨⟨⟨hne, hpos⟩, hc⟩, hsum⟩
  rw [hif]
  by_cases hg : Returned s p ∧ 0 < p.received.minor
  · rw [if_pos (hguard.mpr hg), forall_read_iff hb]
    exact ⟨fun h _ _ => h, fun h => h hg.1 hg.2⟩
  · rw [if_neg fun h => hg (hguard.mp h)]
    exact iff_of_true nofun fun hr hpos => absurd ⟨hr, hpos⟩ hg

theorem ruleSums_le_iff_others (hb : min s.now s.through ≤ datetimeMax) :
    (∀ t ∈ ruleSums s o group, t ≤ datetimeMax) ↔
      (∀ p ∈ succeeded group, Returned s p → 0 < p.received.minor →
        StopsWithin (min s.now s.through) datetimeMax (refundTimes s p)) ∧
      ∀ t ∈ otherSums s o group, t ≤ datetimeMax := by
  simp only [ruleSums, otherSums, List.mem_append, List.mem_flatMap, or_imp, forall_and,
    and_assoc]
  refine and_congr ?_ Iff.rfl
  simp only [← compensationSums_le_iff hb]
  constructor
  · intro h p hp t ht
    exact h t ⟨p, hp, ht⟩
  · rintro h t ⟨p, hp, ht⟩
    exact h p hp t ht

/-- Behind the gates, a run completes if the others are in range and every scan of the graces of
refunds stops in time. -/
theorem evaluateInRange_ok_iff_scans (hs : s.Gated) (hb : min s.now s.through ≤ datetimeMax) :
    (∃ e, evaluateInRange sha256 s = .ok e) ↔ s.OthersInRange sha256 ∧
      ∀ p, s.ReadsGraces sha256 p →
        StopsWithin (min s.now s.through) datetimeMax (refundTimes s p) := by
  rw [evaluateInRange_ok_iff hs, evaluate_completes_iff hs.valid]
  constructor
  · rintro ⟨hdifferences, horders, hpayments⟩
    have hrules := fun o ho ha => (ruleSums_le_iff_others hb).mp (horders o ho ha)
    refine ⟨⟨hdifferences hs, fun o ho ha => (hrules o ho ha).2, hpayments⟩, ?_⟩
    rintro p ⟨⟨o, ho, ha, hp⟩, hreturned, hreceived⟩
    exact (hrules o ho ha).1 p hp hreturned hreceived
  · rintro ⟨hothers, hscans⟩
    refine ⟨fun _ => hothers.differences, fun o ho ha => ?_, hothers.payments⟩
    apply (ruleSums_le_iff_others hb).mpr
    exact ⟨fun p hp hreturned hreceived => hscans p ⟨⟨o, ho, ha, hp⟩, hreturned, hreceived⟩,
      hothers.orders o ho ha⟩

namespace Snapshot.Permuted

theorem returnsOf_perm (h : t.Permuted s) (p : Payment) :
    (returnsOf t p).Perm (returnsOf s p) := h.refunds.filter _

theorem returned_iff (h : t.Permuted s) : Returned t p ↔ Returned s p := by
  have hp := h.returnsOf_perm p
  have hsum := (hp.map (·.amount.minor)).sum_eq
  have hnil : returnsOf t p = [] ↔ returnsOf s p = [] := by
    rw [← List.length_eq_zero_iff, hp.length_eq, List.length_eq_zero_iff]
  constructor
  · rintro ⟨hne, hc, hs⟩
    exact ⟨mt hnil.mpr hne, fun r hr => hc r (hp.mem_iff.mpr hr), hsum.symm.trans hs⟩
  · rintro ⟨hne, hc, hs⟩
    exact ⟨mt hnil.mp hne, fun r hr => hc r (hp.mem_iff.mp hr), hsum.trans hs⟩

theorem mem_refundTimes (h : t.Permuted s) {u : Instant} :
    u ∈ refundTimes t p ↔ u ∈ refundTimes s p := by
  simp only [refundTimes, h.policy, List.mem_map, (h.returnsOf_perm p).mem_iff]

section Framed

variable (h : t.Permuted s) (hc : t.coverage = s.coverage) (hs : s.Gated)

include h hc hs

theorem readsGraces_iff : t.ReadsGraces sha256 p ↔ s.ReadsGraces sha256 p := by
  have hso := h.sameOrders hc
  have ht := h.gated hc hs
  have hadmitted : (∃ o ∈ t.orders, Admitted sha256 t o ∧ p ∈ succeeded (t.group o)) ↔
      ∃ o ∈ s.orders, Admitted sha256 s o ∧ p ∈ succeeded (s.group o) := by
    simp only [h.orders.mem_iff]
    apply exists_congr
    intro o
    apply and_congr_right
    intro ho
    rw [hso.admitted_iff ht hs ho, hso.group_eq ht hs ho]
  constructor
  · rintro ⟨ha, hr, hpos⟩
    exact ⟨hadmitted.mp ha, h.returned_iff.mp hr, hpos⟩
  · rintro ⟨ha, hr, hpos⟩
    exact ⟨hadmitted.mpr ha, h.returned_iff.mpr hr, hpos⟩

theorem otherSums_eq (ho : o ∈ s.orders) :
    otherSums t o (s.group o) = otherSums s o (s.group o) := by
  have hf := h.frame hc
  have hv := (h.sameOrders hc).view o ho
  have ht := h.gated hc hs
  have heligible : paymentEligible t = paymentEligible s := funext (paymentEligible_congr hf)
  simp only [otherSums, duplicateSums, missingSums, refundSums, heligible, through_congr hf,
    correctedDuplicate_congr hf hv ht hs, stripeRefunds_congr hf hv ht hs,
    wooRefunds_congr hv ht hs, hf.policy, hf.windowFrom]

theorem paymentSums_eq :
    paymentSums t (matching sha256 t) (matchedOutput sha256 t) p =
      paymentSums s (matching sha256 s) (matchedOutput sha256 s) p := by
  have hf := h.frame hc
  have hso := h.sameOrders hc
  have ht := h.gated hc hs
  simp only [paymentSums, hso.claimed_eq ht hs, hso.blocked_iff ht hs, through_congr hf,
    hf.windowFrom, hf.storeId, paymentEligible_congr hf]

theorem othersInRange (hothers : s.OthersInRange sha256) : t.OthersInRange sha256 where
  differences := by
    obtain ⟨e, he⟩ := (evaluate_completes_iff hs.valid).mpr fun _ => hothers.differences
    have ht := h.gated hc hs
    exact (evaluate_completes_iff ht.valid).mp ⟨e, h.evaluate_eq.trans he⟩ ht
  orders o ho ha := by
    have hso := h.sameOrders hc
    have ht := h.gated hc hs
    have ho := h.orders.mem_iff.mp ho
    rw [hso.group_eq ht hs ho, h.otherSums_eq hc hs ho]
    exact hothers.orders o ho ((hso.admitted_iff ht hs ho).mp ha)
  payments p hp := by
    rw [h.paymentSums_eq hc hs]
    exact hothers.payments p (h.payments.mem_iff.mp hp)

theorem completes_iff (hb : min s.now s.through ≤ datetimeMax) :
    (∃ e, evaluateInRange sha256 t = .ok e) ↔ s.OthersInRange sha256 ∧
      ∀ p, s.ReadsGraces sha256 p →
        StopsWithin (min s.now s.through) datetimeMax (refundTimes t p) := by
  have ht := h.gated hc hs
  have hmin : min t.now t.through = min s.now s.through := by
    rw [h.now, through_congr (h.frame hc)]
  have hothers : t.OthersInRange sha256 ↔ s.OthersInRange sha256 :=
    ⟨h.symm.othersInRange hc.symm ht, h.othersInRange hc hs⟩
  rw [evaluateInRange_ok_iff_scans ht (hmin ▸ hb), hothers, hmin]
  simp only [h.readsGraces_iff hc hs]

end Framed

theorem toOption_eq_iff (h : t.Permuted s) :
    (evaluateInRange sha256 t).toOption = (evaluateInRange sha256 s).toOption ↔
      ((∃ e, evaluateInRange sha256 t = .ok e) ↔ ∃ e, evaluateInRange sha256 s = .ok e) := by
  cases ht : evaluateInRange sha256 t with
  | error m =>
    cases hs : evaluateInRange sha256 s with
    | error m' => exact iff_of_true rfl (iff_of_false nofun nofun)
    | ok e' => exact iff_of_false nofun fun h => nomatch h.mpr ⟨e', rfl⟩
  | ok e =>
    cases hs : evaluateInRange sha256 s with
    | error m' => exact iff_of_false nofun fun h => nomatch h.mp ⟨e, rfl⟩
    | ok e' =>
      have heq : (Except.ok e : Except String Evaluation) = .ok e' :=
        (evaluateInRange_ok ht).symm.trans (h.evaluate_eq.trans (evaluateInRange_ok hs))
      exact iff_of_true (congrArg Except.toOption heq) (iff_of_true ⟨e, rfl⟩ ⟨e', rfl⟩)

end Snapshot.Permuted

def Snapshot.withRefunds (s : Snapshot) (refunds : List Refund) : Snapshot := { s with refunds }

theorem permuted_withRefunds {refunds : List Refund} (hp : refunds.Perm s.refunds) :
    (s.withRefunds refunds).Permuted s where
  organizationId := rfl
  storeId := rfl
  accountId := rfl
  mode := rfl
  now := rfl
  windowFrom := rfl
  payments := .refl _
  orders := .refl _
  refunds := hp
  coverage := .refl _
  linkVerified := rfl
  linkConflict := rfl
  ambiguousOrderHints := rfl
  policy := rfl

/-- The snapshot with its refunds from the oldest to the newest. -/
def Snapshot.oldestFirst (s : Snapshot) : Snapshot :=
  s.withRefunds (sortBy Refund.changedAt s.refunds)

def Snapshot.newestFirst (s : Snapshot) : Snapshot :=
  s.withRefunds (sortBy Refund.changedAt s.refunds).reverse

theorem oldestFirst_permuted (s : Snapshot) : s.oldestFirst.Permuted s :=
  permuted_withRefunds (sortBy_perm _ _)

theorem newestFirst_permuted (s : Snapshot) : s.newestFirst.Permuted s :=
  permuted_withRefunds ((List.reverse_perm _).trans (sortBy_perm _ _))

theorem refundTimes_oldestFirst (s : Snapshot) (p : Payment) :
    (refundTimes s.oldestFirst p).Pairwise (· ≤ ·) := by
  apply List.pairwise_map.mpr
  apply ((pairwise_sortBy Refund.changedAt s.refunds).filter _).imp
  intro a b hab
  exact Int.add_le_add_right hab _

theorem refundTimes_newestFirst (s : Snapshot) (p : Payment) :
    (refundTimes s.newestFirst p).Pairwise (· ≥ ·) := by
  apply List.pairwise_map.mpr
  apply ((List.pairwise_reverse.mpr (pairwise_sortBy Refund.changedAt s.refunds)).filter _).imp
  intro a b hab
  exact Int.add_le_add_right hab _

theorem oldestFirst_completes (h : s.Hinges sha256) (hb : min s.now s.through ≤ datetimeMax) :
    ∃ e, evaluateInRange sha256 s.oldestFirst = .ok e := by
  have hp := oldestFirst_permuted s
  apply (hp.completes_iff rfl h.gated hb).mpr
  refine ⟨h.others, fun p hreads => ?_⟩
  apply (stopsWithin_ascending hb (refundTimes_oldestFirst s p)).mpr
  simp only [hp.mem_refundTimes]
  exact h.escapes p hreads

theorem newestFirst_raises (h : s.Hinges sha256) (hb : min s.now s.through ≤ datetimeMax) :
    ¬ ∃ e, evaluateInRange sha256 s.newestFirst = .ok e := by
  have hp := newestFirst_permuted s
  intro hcompletes
  obtain ⟨-, hscans⟩ := (hp.completes_iff rfl h.gated hb).mp hcompletes
  obtain ⟨p, hreads, t, ht, hlate⟩ := h.raises
  have hall := (stopsWithin_descending hb (refundTimes_newestFirst s p)).mp (hscans p hreads)
  exact absurd (hall t (hp.mem_refundTimes.mpr ht)) (not_le.mpr hlate)

/-- Where completion does not hinge on the order of the refunds, a run completes in every order if
it does in one. -/
theorem completes_of_not_hinges {u : Snapshot} (hn : ¬ s.Hinges sha256)
    (hb : min s.now s.through ≤ datetimeMax) (hs : s.Gated) (hu : u.Permuted s)
    (hcu : u.coverage = s.coverage) (ht : t.Permuted s) (hct : t.coverage = s.coverage)
    (he : ∃ e, evaluateInRange sha256 u = .ok e) : ∃ e, evaluateInRange sha256 t = .ok e := by
  obtain ⟨hothers, hscans⟩ := (hu.completes_iff hcu hs hb).mp he
  apply (ht.completes_iff hct hs hb).mpr
  refine ⟨hothers, fun p hreads => .of_forall fun x hx => ?_⟩
  have hescapes : ∀ p, s.ReadsGraces sha256 p → (∀ t ∈ refundTimes s p, t ≤ datetimeMax) ∨
      ∃ t ∈ refundTimes s p, min s.now s.through < t ∧ t ≤ datetimeMax := by
    intro p hreads
    have hescape := (hscans p hreads).escapes hb
    simpa only [hu.mem_refundTimes] using hescape
  by_contra hlate
  exact hn ⟨hs, hothers, hescapes, p, hreads, x, ht.mem_refundTimes.mp hx, not_le.mp hlate⟩

theorem completes_of_not_gated (hs : ¬ s.Gated) :
    (∃ e, evaluateInRange sha256 s = .ok e) ↔ s.validate = .ok () := by
  constructor
  · rintro ⟨e, he⟩
    exact evaluate_valid (evaluateInRange_ok he)
  · intro hv
    exact evaluateInRange_of_early hv ((early_or_gated_of_valid hv).resolve_right hs)

theorem Snapshot.Permuted.gated_iff (h : t.Permuted s) : t.Gated ↔ s.Gated := by
  have hgated : ∀ {s t : Snapshot}, t.Permuted s → s.Gated → t.Gated := by
    intro s t h hs
    have hn : (t.coverage.map (·.source)).Nodup :=
      Snapshot.coverage_nodup_of_valid (h.validate_eq.trans hs.valid)
    have hw := h.withCoverage.gated rfl hs
    exact ⟨h.validate_eq.trans hs.valid,
      (withCoverage_stale hn h.coverage.symm).symm.trans hw.fresh, hw.verified, hw.unconflicted⟩
  exact ⟨hgated h.symm, hgated h⟩

/-- Runs over the same facts end the same way in every order exactly if completion does not hinge
on the order of the refunds. -/
theorem toOption_eq_iff_not_hinges (hb : s.now ≤ datetimeMax) :
    (∀ t, t.Permuted s →
      (evaluateInRange sha256 t).toOption = (evaluateInRange sha256 s).toOption) ↔
      ¬ s.Hinges sha256 := by
  have hmin : min s.now s.through ≤ datetimeMax := (min_le_left _ _).trans hb
  constructor
  · intro hall hh
    have hold := (oldestFirst_permuted s).toOption_eq_iff.mp (hall _ (oldestFirst_permuted s))
    have hnew := (newestFirst_permuted s).toOption_eq_iff.mp (hall _ (newestFirst_permuted s))
    exact newestFirst_raises hh hmin (hnew.mpr (hold.mp (oldestFirst_completes hh hmin)))
  · intro hn t h
    apply h.toOption_eq_iff.mpr
    by_cases hs : s.Gated
    · rw [← h.evaluateInRange_withCoverage hs.valid]
      exact ⟨completes_of_not_hinges hn hmin hs h.withCoverage rfl (.refl s) rfl,
        completes_of_not_hinges hn hmin hs (.refl s) rfl h.withCoverage rfl⟩
    · rw [completes_of_not_gated hs, completes_of_not_gated (mt h.gated_iff.mp hs), h.validate_eq]

theorem inputDigest_eq (he : evaluate sha256 s = .ok e) :
    e.inputDigest = sha256 (canonical s.orderedInput) := by
  have hv := evaluate_valid he
  simp only [evaluate, hv, bind, Except.bind] at he
  split_ifs at he
  · exact (Except.ok.inj he) ▸ rfl
  · exact (Except.ok.inj he) ▸ rfl
  · exact (Except.ok.inj he) ▸ rfl
  · split at he
    · cases he
    · exact (Except.ok.inj he) ▸ rfl

theorem evaluation_of_digest (hinj : Function.Injective sha256) (hs : s.Dated) (ht : t.Dated)
    (he : evaluate sha256 s = .ok e) (he' : evaluate sha256 t = .ok e')
    (hd : e'.inputDigest = e.inputDigest) : e' = e := by
  rw [inputDigest_eq he, inputDigest_eq he'] at hd
  have h := permuted_of_text hs ht (evaluate_valid he) (evaluate_valid he') (hinj hd)
  exact Except.ok.inj (he'.symm.trans (h.evaluate_eq.trans he))

/-- An evaluation does not depend on the order of its facts and is told by its digest exactly if
its completion does not hinge on the order of the refunds. -/
theorem evaluation_reproducible_iff (hs : s.Dated) :
    ((∀ t, t.Permuted s →
        (evaluateInRange sha256 t).toOption = (evaluateInRange sha256 s).toOption) ∧
      (Function.Injective sha256 → ∀ t, t.Dated → ∀ e e', evaluateInRange sha256 s = .ok e →
        evaluateInRange sha256 t = .ok e' → e'.inputDigest = e.inputDigest →
          e'.proposals = e.proposals ∧ e'.blockedIdentities = e.blockedIdentities ∧
            e'.warnings = e.warnings)) ↔ ¬ s.Hinges sha256 := by
  rw [toOption_eq_iff_not_hinges hs.now.2]
  apply and_iff_left
  intro hinj t ht e e' he he' hd
  obtain rfl := evaluation_of_digest hinj hs ht (evaluateInRange_ok he) (evaluateInRange_ok he') hd
  exact ⟨rfl, rfl, rfl⟩

namespace Fixture

theorem snapshot_dated : snapshot.Dated where
  now := by decide
  windowFrom := by decide
  payments := by
    intro p hp
    obtain rfl := List.mem_singleton.mp hp
    exact ⟨by decide, by decide, by decide⟩
  orders := by
    intro o ho
    obtain rfl := List.mem_singleton.mp ho
    exact ⟨by decide, by decide, by decide⟩
  refunds := nofun
  coverage := by
    intro c hc
    obtain ⟨source, -, rfl⟩ := List.mem_map.mp hc
    have hnow : IsDatetime (now - minutes 50400) ∧ IsDatetime (now - minutes 1) ∧
        IsDatetime now := by decide
    exact ⟨hnow.1, hnow.2.1, hnow.2.2⟩

/-- The payment was returned by two refunds, which are still in their grace. -/
def partsSnapshot : Snapshot :=
  snapshot.withRefunds [recentRefund "re_one" "pi_one" (eur 2995),
    recentRefund "re_two" "pi_one" (eur 10000)]

def lastRefund : Refund :=
  { recentRefund "re_two" "pi_one" (eur 10000) with changedAt := datetimeMax }

/-- One of the two refunds of the payment is at the end of time. -/
def endSnapshot : Snapshot :=
  snapshot.withRefunds [recentRefund "re_one" "pi_one" (eur 2995), lastRefund]

end Fixture

open Fixture Sha256

theorem evaluation_reproducible_iff_parts : partsSnapshot.Dated ∧
    ∀ t, t.Permuted partsSnapshot → (evaluateInRange hexdigest t).toOption =
      (evaluateInRange hexdigest partsSnapshot).toOption := by
  have hs : partsSnapshot.Dated := { snapshot_dated with refunds := by decide }
  refine ⟨hs, ((evaluation_reproducible_iff hs).mpr ?_).1⟩
  rintro ⟨-, -, -, p, -, t, ht, hlate⟩
  obtain ⟨r, hr, rfl⟩ := List.mem_map.mp ht
  have hsums : ∀ r ∈ partsSnapshot.refunds,
      r.changedAt + partsSnapshot.policy.refundGrace ≤ datetimeMax := by decide
  exact absurd (hsums r (mem_returnsOf.mp hr).1) (not_le.mpr hlate)

/-- Whether the refund at the end of time comes first decides whether the run raises. -/
theorem refund_order_decides : endSnapshot.Dated ∧ ∃ t, t.Permuted endSnapshot ∧
    evaluateInRange hexdigest t = .error "date value out of range" ∧
    ∃ e, evaluateInRange hexdigest endSnapshot = .ok e := by
  constructor
  · exact { snapshot_dated with refunds := by decide }
  · exact ⟨endSnapshot.withRefunds [lastRefund, recentRefund "re_one" "pi_one" (eur 2995)],
      permuted_withRefunds (.swap _ _ _), rfl, _, rfl⟩

end LedgerGuard
