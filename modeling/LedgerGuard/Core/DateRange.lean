import LedgerGuard.Core.Boundary
import LedgerGuard.Core.Attribution
import LedgerGuard.Lib.Raising

/-! # Datetimes that run out

Adding a grace to a datetime raises once the sum is past the last one that Python
can hold. An evaluation that minds this adds the same graces in the same places,
and returns the same result when none of its sums is too large.
-/

namespace LedgerGuard

open Ordered Grouping Sweep Raising

/-- `datetime.max` in UTC. -/
def datetimeMax : Instant := 253402300799999999

/-- `datetime.min` in UTC. -/
def datetimeMin : Instant := -62135596800000000

def inRange (sums : List Instant) : Except String Unit :=
  if ∀ t ∈ sums, t ≤ datetimeMax then .ok () else .error "date value out of range"

theorem inRange_ok {sums : List Instant} : inRange sums = .ok () ↔ ∀ t ∈ sums, t ≤ datetimeMax := by
  unfold inRange
  split
  case isTrue h => exact iff_of_true rfl h
  case isFalse h => exact iff_of_false nofun h

section Sums

variable (sha256 : String → String) (s : Snapshot) (m : Matching) (out : Output) (o : Order)
  (group : List Payment) (p : Payment)

/-- `all(r.changed_at + s.policy.refund_grace <= min(s.now, through) for r in refunds)`, which
ends with the first refund that is later. -/
def compensationSums : List Instant :=
  let refunds := s.refunds.filter fun r =>
    r.source = .stripe && r.parentId = p.id && r.status = .succeeded
  if refunds ≠ [] && 0 < p.received.minor
      && refunds.all (fun r =>
        r.amount.currency = p.received.currency && r.amount.exponent = p.received.exponent)
      && (refunds.map (·.amount.minor)).sum = p.received.minor then
    let sums := refunds.map fun r => r.changedAt + s.policy.refundGrace
    sums.takeWhile (· ≤ min s.now s.through) ++
      (sums.dropWhile (· ≤ min s.now s.through)).take 1
  else []

def duplicateSums : List Instant :=
  if 1 < (succeeded group).length ∧ correctedDuplicate s group = false then
    (succeeded group).map (paymentEligible s)
  else []

/-- The argument of PI-003, computed whether or not the rule is enabled. -/
def missingSums : List Instant :=
  if succeeded group = [] ∧ o.status ∈ paidStatuses then
    [o.paidAt.getD o.changedAt + s.policy.instantGrace]
  else []

def refundSums : List Instant :=
  let stripe := stripeRefunds s group
  let woo := wooRefunds s o
  let wr := o.refunded.minor
  if (stripe ++ woo).any (fun r => s.through < r.changedAt) then []
  else if (stripe ++ woo).any (fun r =>
      r.amount.currency ≠ o.amount.currency || r.amount.exponent ≠ o.amount.exponent) then
    [latest o.changedAt ((stripe ++ woo).map (·.changedAt)) + s.policy.refundGrace]
  else if o.amount.minor < wr ∨ (succeeded group).any (fun p =>
      p.received.minor < ((stripe.filter (·.parentId = p.id)).map (·.amount.minor)).sum) then []
  else if woo ≠ [] ∧ (woo.map (·.amount.minor)).sum ≠ wr then []
  else
    [latest (if wr ≠ 0 ∨ o.status = .refunded then o.changedAt else s.windowFrom)
      ((stripe ++ woo).map (·.changedAt)) + s.policy.refundGrace]

def ruleSums : List Instant :=
  (succeeded group).flatMap (compensationSums s) ++ duplicateSums s group ++
    missingSums s o group ++ (succeeded group).map (paymentEligible s) ++ refundSums s o group

def orderSums : List Instant :=
  match m.matched.lookup o.id with
  | none => []
  | some (group, _) =>
    match hold s out.blocked o group with
    | some _ => []
    | none => ruleSums s o group

def paymentSums : List Instant :=
  if p.id ∈ keys m.claimed ∨ Identity.payment p.id ∈ out.blocked ∨ p.status ≠ .succeeded then []
  else if s.through < p.changedAt ∨ p.createdAt < s.windowFrom then []
  else if p.storeHint = s.storeId then [paymentEligible s p]
  else []

/-- The passes of `reconcileFacts`, with the sums of each round. -/
def reconcileFactsInRange : Except String Output := do
  let m := matching sha256 s
  let out ← sweep (fun out o => do inRange (orderSums s m out o); evaluateOrder sha256 s m out o)
    (claims sha256 s m) s.sortedOrders
  sweep (fun out p => do inRange (paymentSums s m out p); .ok (settlePayment sha256 s m out p))
    out (sortBy Payment.id s.payments)

/-- `evaluate`, with the datetimes that it computes. -/
def evaluateInRange : Except String Evaluation := do
  s.validate
  if s.stale = [] ∧ s.linkVerified = true ∧ s.linkConflict = false then
    let _ ← reconcileFactsInRange sha256 s
    evaluate sha256 s
  else evaluate sha256 s

end Sums

/-- Two hours are left after what Stripe reports, and the refunds it paid add up to an amount. -/
structure Snapshot.StripeSound (s : Snapshot) : Prop where
  payments : ∀ p ∈ s.payments, p.changedAt + minutes 120 ≤ datetimeMax ∧
    ∀ t ∈ p.succeededAt, t + minutes 120 ≤ datetimeMax
  refunds : ∀ r ∈ s.refunds, r.source = .stripe → r.changedAt + minutes 120 ≤ datetimeMax
  returned : ((s.refunds.filter fun r => r.source = .stripe && r.status = .succeeded).map
    (·.amount.minor)).sum ≤ maxMinor

/-- No order that is paid without a succeeded payment was paid at the end of time. -/
def Snapshot.PaidInRange (sha256 : String → String) (s : Snapshot) : Prop :=
  ∀ o ∈ s.orders, Admitted sha256 s o → succeeded (s.group o) = [] → o.status ∈ paidStatuses →
    ∀ t ∈ o.paidAt, t + s.policy.instantGrace ≤ datetimeMax

section Bounds

variable {sha256 : String → String} {s : Snapshot} {o : Order} {p : Payment}
  {group : List Payment} {t : Instant}

theorem grace_le (p : Payment) (s : Snapshot) : grace p s ≤ minutes 120 := by
  have h₁ := s.policy.instantGrace_mem.2
  have h₂ := s.policy.asyncGrace_mem.2
  unfold grace
  split
  · exact h₁.trans (by decide)
  · exact h₂

theorem paymentEligible_le (hs : s.StripeSound) (hp : p ∈ s.payments) :
    paymentEligible s p ≤ datetimeMax := by
  obtain ⟨hc, hsucceeded⟩ := hs.payments p hp
  have hg := grace_le p s
  have ht : p.succeededAt.getD p.changedAt + minutes 120 ≤ datetimeMax := by
    cases hsu : p.succeededAt with
    | none => exact hc
    | some t => exact hsucceeded t hsu
  exact (Int.add_le_add_left hg _).trans ht

theorem compensationSums_le (hs : s.StripeSound) (ht : t ∈ compensationSums s p) :
    t ≤ datetimeMax := by
  unfold compensationSums at ht
  dsimp only at ht
  split at ht
  · obtain ⟨r, hr, rfl⟩ : ∃ r ∈ s.refunds.filter (fun r =>
        r.source = .stripe && r.parentId = p.id && r.status = .succeeded),
        r.changedAt + s.policy.refundGrace = t := by
      rcases List.mem_append.mp ht with ht | ht
      · exact List.mem_map.mp (List.takeWhile_prefix _ |>.subset ht)
      · exact List.mem_map.mp ((List.dropWhile_suffix _).subset (List.mem_of_mem_take ht))
    obtain ⟨hr, hp⟩ := List.mem_filter.mp hr
    simp only [Bool.and_eq_true, decide_eq_true_eq] at hp
    exact (Int.add_le_add_left s.policy.refundGrace_mem.2 _).trans (hs.refunds r hr hp.1.1)
  · cases ht

theorem latest_le {ts : List Instant} {bound : Instant} (h₀ : t ≤ bound)
    (h : ∀ u ∈ ts, u ≤ bound) : latest t ts ≤ bound := by
  induction ts generalizing t with
  | nil => exact h₀
  | cons u ts ih =>
    exact ih (max_le h₀ (h u List.mem_cons_self)) fun v hv => h v (List.mem_cons_of_mem _ hv)

theorem through_le_now (h : s.Gated) : s.through ≤ s.now := by
  obtain ⟨⟨k, hk, c, hc, ht⟩, -⟩ := isLeast_through h
  have hfresh : k ∉ s.stale := by simp [h.fresh]
  rw [ht]
  by_contra hlt
  refine hfresh (List.mem_filter.mpr ⟨hk, ?_⟩)
  simp only [hc, Coverage.fresh, hlt, decide_false, Bool.and_false, Bool.false_and, Bool.not_false]

theorem refundSums_le (h : s.Gated) (hnow : s.now + minutes 120 ≤ datetimeMax)
    (ho : o.changedAt ≤ s.through) (ht : t ∈ refundSums s o group) : t ≤ datetimeMax := by
  have hbound : ∀ u, u ≤ s.now → u + s.policy.refundGrace ≤ datetimeMax := fun u hu =>
    (Int.add_le_add hu s.policy.refundGrace_mem.2).trans hnow
  have hthrough := through_le_now h
  have hwindow : s.windowFrom ≤ s.now := by
    have hv := h.valid
    unfold Snapshot.validate at hv
    split_ifs at hv with hw
    exact not_lt.mp hw
  unfold refundSums at ht
  dsimp only at ht
  split at ht
  · cases ht
  case isFalse hlate =>
    have hchanged : ∀ u ∈ (stripeRefunds s group ++ wooRefunds s o).map (·.changedAt),
        u ≤ s.now := by
      intro u hu
      obtain ⟨r, hr, rfl⟩ := List.mem_map.mp hu
      refine le_trans (not_lt.mp fun hlt => hlate ?_) hthrough
      exact List.any_eq_true.mpr ⟨r, hr, decide_eq_true hlt⟩
    split at ht
    · obtain rfl := List.mem_singleton.mp ht
      exact hbound _ (latest_le (ho.trans hthrough) hchanged)
    · split at ht
      · cases ht
      · split at ht
        · cases ht
        · obtain rfl := List.mem_singleton.mp ht
          refine hbound _ (latest_le ?_ hchanged)
          split
          · exact ho.trans hthrough
          · exact hwindow

/-- Of the sums of an order that reaches the rules, only that of a missing payment can be too
large. -/
theorem ruleSums_le_iff (h : s.Gated) (hs : s.StripeSound) (hnow : s.now + minutes 120 ≤ datetimeMax)
    (ho : o.changedAt ≤ s.through) : (∀ t ∈ ruleSums s o (s.group o), t ≤ datetimeMax) ↔
      (succeeded (s.group o) = [] → o.status ∈ paidStatuses →
        ∀ t ∈ o.paidAt, t + s.policy.instantGrace ≤ datetimeMax) := by
  have hpayments : ∀ p ∈ succeeded (s.group o), p ∈ s.payments := fun p hp =>
    mem_payments_of_mem_group (List.mem_filter.mp hp).1
  constructor
  · intro hall hnone hpaid t ht
    refine hall _ ?_
    have hm : t + s.policy.instantGrace ∈ missingSums s o (s.group o) := by
      rw [missingSums, if_pos ⟨hnone, hpaid⟩, Option.mem_def.mp ht, Option.getD_some]
      exact List.mem_singleton_self _
    simp only [ruleSums, List.mem_append, hm, true_or, or_true]
  · intro hpaid t ht
    simp only [ruleSums, List.mem_append, or_assoc] at ht
    rcases ht with ht | ht | ht | ht | ht
    · obtain ⟨p, hp, ht⟩ := List.mem_flatMap.mp ht
      exact compensationSums_le hs ht
    · unfold duplicateSums at ht
      split at ht
      · obtain ⟨p, hp, rfl⟩ := List.mem_map.mp ht
        exact paymentEligible_le hs (hpayments p hp)
      · cases ht
    · unfold missingSums at ht
      split at ht
      case isTrue hm =>
        obtain rfl := List.mem_singleton.mp ht
        cases hp : o.paidAt with
        | some t => exact hpaid hm.1 hm.2 t hp
        | none =>
          have hg : s.policy.instantGrace ≤ minutes 120 :=
            s.policy.instantGrace_mem.2.trans (by decide)
          exact (Int.add_le_add (ho.trans (through_le_now h)) hg).trans hnow
      case isFalse => cases ht
    · obtain ⟨p, hp, rfl⟩ := List.mem_map.mp ht
      exact paymentEligible_le hs (hpayments p hp)
    · exact refundSums_le h hnow ho ht

theorem sum_filter_le {rs : List Refund} {P Q : Refund → Bool} (h : ∀ r, P r = true → Q r = true) :
    ((rs.filter P).map (·.amount.minor)).sum ≤ ((rs.filter Q).map (·.amount.minor)).sum := by
  induction rs with
  | nil => exact le_rfl
  | cons r rs ih =>
    cases hq : Q r with
    | false =>
      have hp : P r = false := Bool.eq_false_of_not_eq_true fun hp => by
        rw [h r hp] at hq
        cases hq
      rw [List.filter_cons_of_neg (by simp [hp]), List.filter_cons_of_neg (by simp [hq])]
      exact ih
    | true =>
      rw [List.filter_cons_of_pos hq, List.map_cons, List.sum_cons]
      cases hp : P r with
      | true =>
        rw [List.filter_cons_of_pos hp, List.map_cons, List.sum_cons]
        omega
      | false =>
        rw [List.filter_cons_of_neg (by simp [hp])]
        omega

theorem stripeRefunded_le (hs : s.StripeSound) (group : List Payment) :
    ((stripeRefunds s group).map (·.amount.minor)).sum ≤ maxMinor := by
  rw [stripeRefunds, ((sortBy_perm _ _).map _).sum_eq]
  refine (sum_filter_le fun r hr => ?_).trans hs.returned
  simp only [Bool.and_eq_true] at hr ⊢
  exact ⟨hr.1.1.1, hr.1.2⟩

theorem make_difference {n : ℕ} (hn : n ≤ maxMinor) (a b : Money) :
    ∃ risk, Money.make |(n : ℤ) - b.minor| a.currency a.exponent = .ok risk := by
  have hb := b.minor_le
  have hrange : 0 ≤ |(n : ℤ) - b.minor| ∧ |(n : ℤ) - b.minor| ≤ maxMinor := by
    rcases le_total 0 ((n : ℤ) - b.minor) with h | h
    · rw [abs_of_nonneg h]
      omega
    · rw [abs_of_nonpos h]
      omega
  rw [Money.make, dif_pos hrange, dif_pos a.exponent_eq]
  exact ⟨_, rfl⟩

theorem refundRules_completes (sha256 : String → String) (hs : s.StripeSound) (o : Order)
    (group : List Payment) (c : ℕ) :
    ∃ d, refundRules sha256 s o group c = .ok d := by
  unfold refundRules
  dsimp only
  split
  · exact ⟨_, rfl⟩
  · split
    · exact ⟨_, rfl⟩
    · split
      · exact ⟨_, rfl⟩
      · split
        · exact ⟨_, rfl⟩
        · obtain ⟨risk, hrisk⟩ :=
            make_difference (stripeRefunded_le hs group) o.amount o.refunded
          rw [refundTotals, hrisk]
          exact ⟨_, rfl⟩

theorem orderPart_completes (h : s.Gated) (hs : s.StripeSound) (ho : o ∈ s.orders) :
    ∃ d, orderPart sha256 s o = .ok d := by
  rw [orderPart, evaluateOrder_eq h.orders_nodup ho]
  split
  · cases hold s (matchedOutput sha256 s).blocked o (s.group o) with
    | some held => exact ⟨held, rfl⟩
    | none =>
      obtain ⟨r, hr⟩ := refundRules_completes sha256 hs o (s.group o)
        (s.matchConfidence o)
      exact ⟨_, applyRules_ok.mpr ⟨r, hr, rfl⟩⟩
  · exact ⟨0, rfl⟩

theorem evaluateInRange_ok {e : Evaluation} (he : evaluateInRange sha256 s = .ok e) :
    evaluate sha256 s = .ok e := by
  obtain ⟨-, -, he⟩ := bind_eq_ok.mp he
  split at he
  · obtain ⟨-, -, he⟩ := bind_eq_ok.mp he
    exact he
  · exact he

theorem evaluate_completes (sha256 : String → String) (h : s.Gated) (hs : s.StripeSound) :
    ∃ e, evaluate sha256 s = .ok e := by
  obtain ⟨out, hout⟩ := (reconcileFacts_ok_iff sha256 h).mpr
    fun o ho => orderPart_completes h hs ho
  exact ⟨_, (evaluate_ok h).mpr ⟨out, hout, rfl⟩⟩

theorem paymentSums_le {m : Matching} {out : Output} (hs : s.StripeSound) (hp : p ∈ s.payments)
    (ht : t ∈ paymentSums s m out p) : t ≤ datetimeMax := by
  unfold paymentSums at ht
  split at ht
  · cases ht
  · split at ht
    · cases ht
    · split at ht
      · obtain rfl := List.mem_singleton.mp ht
        exact paymentEligible_le hs hp
      · cases ht

theorem orderSums_inRange_iff (h : s.Gated) (he : ∃ e, evaluate sha256 s = .ok e) :
    (∀ before o after out, s.sortedOrders = before ++ o :: after →
      sweep (evaluateOrder sha256 s (matching sha256 s)) (claims sha256 s (matching sha256 s))
        before = .ok out →
      inRange (orderSums s (matching sha256 s) out o) = .ok ()) ↔
      ∀ o ∈ s.orders, Admitted sha256 s o → ∀ t ∈ ruleSums s o (s.group o), t ≤ datetimeMax := by
  obtain ⟨e, he⟩ := he
  constructor
  · intro hall o ho ha
    obtain ⟨before, after, out, group, confidence, hsplit, hout, hlookup, hhold⟩ :=
      (reachesPaymentRules_iff h he ho).mpr ha
    have hgroup : group = s.group o := by
      rw [lookup_matched h.orders_nodup ho, if_pos ha.1] at hlookup
      exact (Prod.mk.inj (Option.some.inj hlookup)).1.symm
    have hsums : orderSums s (matching sha256 s) out o = ruleSums s o (s.group o) := by
      rw [← hgroup]
      simp only [orderSums, hlookup, hhold]
    have hin := inRange_ok.mp (hall before o after out hsplit hout)
    rwa [hsums] at hin
  · intro hall before o after out hsplit hout
    have ho : o ∈ s.orders := mem_sortedOrders.mp (hsplit ▸ by simp)
    refine inRange_ok.mpr fun t ht => ?_
    unfold orderSums at ht
    split at ht
    · cases ht
    case h_2 group confidence hlookup =>
      split at ht
      · cases ht
      case h_2 hhold =>
        have ha : Admitted sha256 s o := (reachesPaymentRules_iff h he ho).mp
          ⟨before, after, out, group, confidence, hsplit, hout, hlookup, hhold⟩
        rw [lookup_matched h.orders_nodup ho, if_pos ha.1] at hlookup
        obtain ⟨rfl, -⟩ := Prod.mk.inj (Option.some.inj hlookup)
        exact hall o ho ha t ht

theorem paymentSums_of_sweep (h : s.Gated) {r out : Output} {before after : List Payment}
    (hr : gather (orderPart sha256 s) s.sortedOrders = .ok r)
    (hsplit : sortBy Payment.id s.payments = before ++ p :: after)
    (hout : sweep (ε := String) (fun out p => .ok (settlePayment sha256 s (matching sha256 s) out p))
      (matchedOutput sha256 s + r) before = .ok out) :
    paymentSums s (matching sha256 s) out p =
      paymentSums s (matching sha256 s) (matchedOutput sha256 s) p := by
  by_cases hk : p.id ∈ keys (matching sha256 s).claimed
  · rw [paymentSums, paymentSums, if_pos (Or.inl hk), if_pos (Or.inl hk)]
  · have hblocked := (blocked_of_payment_sweep _ _ h hsplit hout).trans
      (blocked_after_orders h hr hk)
    simp only [paymentSums, hblocked]

theorem reconcileFactsInRange_ok_iff (h : s.Gated) :
    (∃ out, reconcileFactsInRange sha256 s = .ok out) ↔
      (∃ e, evaluate sha256 s = .ok e) ∧
      (∀ o ∈ s.orders, Admitted sha256 s o → ∀ t ∈ ruleSums s o (s.group o), t ≤ datetimeMax) ∧
      ∀ p ∈ s.payments, ∀ t ∈ paymentSums s (matching sha256 s) (matchedOutput sha256 s) p,
        t ≤ datetimeMax := by
  have hevaluate : (∃ e, evaluate sha256 s = .ok e) ↔
      ∃ out, reconcileFacts sha256 s = .ok out := by
    rw [evaluate_ok_iff sha256 h, reconcileFacts_ok_iff sha256 h]
  have hrounds : ∀ {after : Output}, sweep (evaluateOrder sha256 s (matching sha256 s))
      (claims sha256 s (matching sha256 s)) s.sortedOrders = .ok after →
      ∃ r, gather (orderPart sha256 s) s.sortedOrders = .ok r ∧
        after = matchedOutput sha256 s + r := by
    intro after hafter
    have hsweep := (sweep_evaluateOrder h).symm.trans hafter
    obtain ⟨r, hr, hsum⟩ := bind_eq_ok.mp hsweep
    exact ⟨r, hr, (Except.ok.inj hsum).symm⟩
  constructor
  · rintro ⟨out, hout⟩
    obtain ⟨after, horders, hpayments⟩ := bind_eq_ok.mp hout
    obtain ⟨hafter, hchecks⟩ := sweep_guarded_ok.mp horders
    obtain ⟨hrest, hpchecks⟩ := sweep_guarded_ok.mp hpayments
    have he := hevaluate.mpr ⟨out, bind_eq_ok.mpr ⟨after, hafter, hrest⟩⟩
    refine ⟨he, (orderSums_inRange_iff h he).mp hchecks, fun p hp => ?_⟩
    obtain ⟨r, hr, rfl⟩ := hrounds hafter
    obtain ⟨before, rest, hsplit⟩ :=
      List.append_of_mem (show p ∈ sortBy Payment.id s.payments from mem_sortBy.mpr hp)
    rw [hsplit, sweep_append] at hrest
    obtain ⟨middle, hmiddle, -⟩ := bind_eq_ok.mp hrest
    have hin := inRange_ok.mp (hpchecks before p rest middle hsplit hmiddle)
    rwa [paymentSums_of_sweep h hr hsplit hmiddle] at hin
  · rintro ⟨he, horders, hpayments⟩
    obtain ⟨out, hout⟩ := hevaluate.mp he
    obtain ⟨after, hafter, hrest⟩ := bind_eq_ok.mp hout
    refine ⟨out, bind_eq_ok.mpr ⟨after, sweep_guarded_ok.mpr ⟨hafter,
      (orderSums_inRange_iff h he).mpr horders⟩, sweep_guarded_ok.mpr ⟨hrest, ?_⟩⟩⟩
    intro before p rest middle hsplit hmiddle
    obtain ⟨r, hr, rfl⟩ := hrounds hafter
    have hp : p ∈ s.payments := by
      have hq : p ∈ sortBy Payment.id s.payments := by simp [hsplit]
      exact mem_sortBy.mp hq
    rw [paymentSums_of_sweep h hr hsplit hmiddle]
    exact inRange_ok.mpr (hpayments p hp)

/-- Behind the gates an evaluation completes exactly if it does without the datetimes and every
sum is in range. -/
theorem evaluateInRange_ok_iff (h : s.Gated) :
    (∃ e, evaluateInRange sha256 s = .ok e) ↔
      (∃ e, evaluate sha256 s = .ok e) ∧
      (∀ o ∈ s.orders, Admitted sha256 s o → ∀ t ∈ ruleSums s o (s.group o), t ≤ datetimeMax) ∧
      ∀ p ∈ s.payments, ∀ t ∈ paymentSums s (matching sha256 s) (matchedOutput sha256 s) p,
        t ≤ datetimeMax := by
  rw [← reconcileFactsInRange_ok_iff h]
  have hgates : s.stale = [] ∧ s.linkVerified = true ∧ s.linkConflict = false :=
    ⟨h.fresh, h.verified, h.unconflicted⟩
  constructor
  · rintro ⟨e, he⟩
    obtain ⟨-, -, he⟩ := bind_eq_ok.mp he
    rw [if_pos hgates] at he
    obtain ⟨out, hout, -⟩ := bind_eq_ok.mp he
    exact ⟨out, hout⟩
  · rintro ⟨out, hout⟩
    obtain ⟨e, he⟩ := ((reconcileFactsInRange_ok_iff h).mp ⟨out, hout⟩).1
    refine ⟨e, bind_eq_ok.mpr ⟨(), h.valid, ?_⟩⟩
    rw [if_pos hgates]
    exact bind_eq_ok.mpr ⟨out, hout, he⟩

/-- Behind the gates an evaluation completes exactly if no order that is paid without a succeeded
payment was paid at the end of time. -/
theorem evaluateInRange_completes_iff (h : s.Gated) (hs : s.StripeSound)
    (hnow : s.now + minutes 120 ≤ datetimeMax) :
    (∃ e, evaluateInRange sha256 s = .ok e) ↔ s.PaidInRange sha256 := by
  rw [evaluateInRange_ok_iff h]
  have hrules : ∀ {o}, Admitted sha256 s o → ((∀ t ∈ ruleSums s o (s.group o), t ≤ datetimeMax) ↔
      (succeeded (s.group o) = [] → o.status ∈ paidStatuses →
        ∀ t ∈ o.paidAt, t + s.policy.instantGrace ≤ datetimeMax)) := fun ha =>
    ruleSums_le_iff h hs hnow (hold_eq_none.mp ha.2).2.2.1
  constructor
  · rintro ⟨-, horders, -⟩ o ho ha
    exact (hrules ha).mp (horders o ho ha)
  · intro hpaid
    exact ⟨evaluate_completes sha256 h hs, fun o ho ha => (hrules ha).mpr (hpaid o ho ha),
      fun p hp t ht => paymentSums_le hs hp ht⟩

theorem evaluateInRange_of_early (hv : s.validate = .ok ()) (h : s.Early) :
    ∃ e, evaluateInRange sha256 s = .ok e := by
  have hgates : ¬ (s.stale = [] ∧ s.linkVerified = true ∧ s.linkConflict = false) := by
    rintro ⟨hs, hl, hc⟩
    rcases h with h | h | h
    · exact h hs
    · rw [hl] at h
      cases h
    · rw [hc] at h
      cases h
  have he : evaluateInRange sha256 s = evaluate sha256 s := by
    rw [evaluateInRange, hv, if_neg hgates]
    rfl
  rw [he]
  simp only [evaluate, hv, bind, Except.bind]
  split
  · exact ⟨_, rfl⟩
  · split
    · exact ⟨_, rfl⟩
    case isFalse hs hl =>
      rcases h with h | h
      · exact absurd h hs
      · exact absurd h hl

theorem evaluateInRange_iff (hv : s.validate = .ok ()) (hs : s.StripeSound)
    (hnow : s.now + minutes 120 ≤ datetimeMax) :
    (∃ e, evaluateInRange sha256 s = .ok e) ↔ (s.Gated → s.PaidInRange sha256) := by
  by_cases h : s.Gated
  · rw [evaluateInRange_completes_iff h hs hnow]
    exact ⟨fun hp _ => hp, fun hp => hp h⟩
  · refine iff_of_true (evaluateInRange_of_early hv ?_) fun hg => absurd hg h
    by_contra he
    simp only [Snapshot.Early, not_or, not_not, Bool.not_eq_false, Bool.not_eq_true] at he
    exact h ⟨hv, he.1, he.2.1, he.2.2⟩

end Bounds

end LedgerGuard
