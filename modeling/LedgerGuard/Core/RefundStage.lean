import LedgerGuard.Core.Compensation

/-! # The stage that compares refunds

The refunds of an order are compared at the end of four checks, and a failed check
leaves the stage early. Three of them block the order. The check of the currencies
does not, so it passes refunds that were never compared for clean evidence. The
difference of the two totals is an amount only while the Stripe side is not too large.
-/

namespace LedgerGuard

open Ordered Raising

variable {sha256 : String → String} {s : Snapshot} {e : Evaluation} {o : Order}
  {group : List Payment} {c : ℕ} {d : Output}

/-- The refunds that the stage looks at. -/
def shownRefunds (s : Snapshot) (o : Order) (group : List Payment) : List Refund :=
  stripeRefunds s group ++ wooRefunds s o

def stripeRefunded (s : Snapshot) (group : List Payment) : ℕ :=
  ((stripeRefunds s group).map (·.amount.minor)).sum

/-- More is refunded than the order or one of its payments amounts to. -/
def Exceeds (s : Snapshot) (o : Order) (group : List Payment) : Prop :=
  o.amount.minor < o.refunded.minor ∨ ∃ p ∈ succeeded group, p.received.minor <
    (((stripeRefunds s group).filter (·.parentId = p.id)).map (·.amount.minor)).sum

def Consistent (s : Snapshot) (o : Order) : Prop :=
  wooRefunds s o = [] ∨ ((wooRefunds s o).map (·.amount.minor)).sum = o.refunded.minor

/-- No check keeps the totals from being compared. -/
structure ReachesTotals (s : Snapshot) (o : Order) (group : List Payment) : Prop where
  bounded : ∀ r ∈ shownRefunds s o group, r.changedAt ≤ s.through
  comparable : ∀ r ∈ shownRefunds s o group, r.Comparable o
  within : ¬ Exceeds s o group
  consistent : Consistent s o

/-- Why the stage ends, and with what. -/
inductive RefundOutcome (sha256 : String → String) (s : Snapshot) (o : Order)
    (group : List Payment) (c : ℕ) : Except String Output → Prop
  | late (h : ∃ r ∈ shownRefunds s o group, s.through < r.changedAt) :
      RefundOutcome sha256 s o group c (.ok { blocked := [.order o.id] })
  | foreign (h : ∃ r ∈ shownRefunds s o group, ¬ r.Comparable o) (eligible : Instant)
      (facts : Facts) :
      RefundOutcome sha256 s o group c
        (.ok { proposals := emit sha256 s .pi008 [.order o.id] (some o.refunded) c eligible facts
               warnings := [.refundCurrencyConflict o.id] })
  | exceeds (hc : ∀ r ∈ shownRefunds s o group, r.Comparable o) (h : Exceeds s o group) :
      RefundOutcome sha256 s o group c
        (.ok { blocked := [.order o.id], warnings := [.refundExceedsPayment o.id] })
  | inconsistent (hc : ∀ r ∈ shownRefunds s o group, r.Comparable o) (h : ¬ Consistent s o) :
      RefundOutcome sha256 s o group c
        (.ok { blocked := [.order o.id], warnings := [.wooRefundProjectionInconsistent o.id] })
  | totals (h : ReachesTotals s o group) :
      RefundOutcome sha256 s o group c (refundTotals sha256 s o group c)

theorem any_foreign_iff : ((stripeRefunds s group ++ wooRefunds s o).any fun r =>
      r.amount.currency ≠ o.amount.currency || r.amount.exponent ≠ o.amount.exponent) = true ↔
    ∃ r ∈ shownRefunds s o group, ¬ r.Comparable o := by
  simp only [List.any_eq_true, Bool.or_eq_true, decide_eq_true_eq, Refund.Comparable, shownRefunds,
    not_and_or, ne_eq]

theorem refundRules_outcome (sha256 : String → String) (s : Snapshot) (o : Order)
    (group : List Payment) (c : ℕ) :
    RefundOutcome sha256 s o group c (refundRules sha256 s o group c) := by
  unfold refundRules
  dsimp only
  split
  case isTrue hlate =>
    obtain ⟨r, hr, ht⟩ := List.any_eq_true.mp hlate
    exact .late ⟨r, hr, of_decide_eq_true ht⟩
  case isFalse hlate =>
    split
    case isTrue hforeign =>
      exact .foreign (any_foreign_iff.mp hforeign) _ _
    case isFalse hforeign =>
      have hc : ∀ r ∈ shownRefunds s o group, r.Comparable o := by
        rw [any_foreign_iff] at hforeign
        push Not at hforeign
        exact hforeign
      have hx : (o.amount.minor < o.refunded.minor ∨ (succeeded group).any (fun p =>
          p.received.minor < (((stripeRefunds s group).filter (·.parentId = p.id)).map
            (·.amount.minor)).sum) = true) ↔ Exceeds s o group := by
        simp only [Exceeds, List.any_eq_true, decide_eq_true_eq]
      split
      case isTrue hexceeds => exact .exceeds hc (hx.mp hexceeds)
      case isFalse hexceeds =>
        split
        case isTrue hinc =>
          exact .inconsistent hc (not_or.mpr hinc)
        case isFalse hinc =>
          have hbounded : ∀ r ∈ shownRefunds s o group, r.changedAt ≤ s.through := by
            intro r hr
            by_contra hlt
            exact hlate (List.any_eq_true.mpr ⟨r, hr, decide_eq_true (not_le.mp hlt)⟩)
          exact .totals ⟨hbounded, hc, fun h => hexceeds (hx.mpr h),
            or_iff_not_imp_left.mpr fun h => not_not.mp fun hs => hinc ⟨h, hs⟩⟩

theorem refundRules_emits (h : refundRules sha256 s o group c = .ok d) : d.proposals = [] ∨
    ∃ rule ∈ [RuleCode.pi006, .pi007, .pi008], ∃ risk eligible facts,
      d.proposals = emit sha256 s rule [.order o.id] risk c eligible facts := by
  have hout := refundRules_outcome sha256 s o group c
  rw [h] at hout
  generalize hres : (Except.ok d : Except String Output) = result at hout
  cases hout with
  | foreign hx eligible facts =>
    obtain rfl := Except.ok.inj hres
    exact Or.inr ⟨.pi008, by decide, _, eligible, facts, rfl⟩
  | totals ht =>
    obtain ⟨risk, -, hd⟩ := bind_eq_ok.mp hres.symm
    obtain rfl := Except.ok.inj hd
    dsimp only
    split
    · exact Or.inr ⟨.pi006, by decide, _, _, _, rfl⟩
    split
    · exact Or.inr ⟨.pi007, by decide, _, _, _, rfl⟩
    split
    · exact Or.inr ⟨.pi008, by decide, _, _, _, rfl⟩
    · exact Or.inl rfl
  | _ =>
    obtain rfl := Except.ok.inj hres
    exact Or.inl rfl

theorem refundTotals_completes_iff : (∃ d, refundTotals sha256 s o group c = .ok d) ↔
    stripeRefunded s group ≤ maxMinor + o.refunded.minor := by
  have hrefunded := o.refunded.minor_le
  have hrange : (0 ≤ |(stripeRefunded s group : ℤ) - o.refunded.minor| ∧
      |(stripeRefunded s group : ℤ) - o.refunded.minor| ≤ maxMinor) ↔
        stripeRefunded s group ≤ maxMinor + o.refunded.minor := by
    rcases le_total 0 ((stripeRefunded s group : ℤ) - o.refunded.minor) with h | h
    · rw [abs_of_nonneg h]
      omega
    · rw [abs_of_nonpos h]
      omega
  unfold refundTotals
  rw [← hrange]
  change (∃ d, (Money.make |(stripeRefunded s group : ℤ) - o.refunded.minor| _ _ >>= _) = _) ↔ _
  by_cases h : 0 ≤ |(stripeRefunded s group : ℤ) - o.refunded.minor| ∧
      |(stripeRefunded s group : ℤ) - o.refunded.minor| ≤ maxMinor
  · rw [Money.make, dif_pos h, dif_pos o.amount.exponent_eq]
    exact iff_of_true ⟨_, rfl⟩ h
  · rw [Money.make, dif_neg h]
    refine iff_of_false ?_ h
    rintro ⟨d, hd⟩
    cases hd

theorem refundRules_completes_iff : (∃ d, refundRules sha256 s o group c = .ok d) ↔
    (ReachesTotals s o group → stripeRefunded s group ≤ maxMinor + o.refunded.minor) := by
  have hout := refundRules_outcome sha256 s o group c
  generalize refundRules sha256 s o group c = result at hout
  cases hout with
  | late h =>
    obtain ⟨r, hr, hlt⟩ := h
    exact iff_of_true ⟨_, rfl⟩ fun ht => absurd (ht.bounded r hr) (not_le.mpr hlt)
  | foreign h eligible facts =>
    obtain ⟨r, hr, hn⟩ := h
    exact iff_of_true ⟨_, rfl⟩ fun ht => absurd (ht.comparable r hr) hn
  | exceeds hc h => exact iff_of_true ⟨_, rfl⟩ fun ht => absurd h ht.within
  | inconsistent hc h => exact iff_of_true ⟨_, rfl⟩ fun ht => absurd ht.consistent h
  | totals h => exact refundTotals_completes_iff.trans ⟨fun hle _ => hle, fun hle => hle h⟩

/-- In every order that comes to the comparison, Stripe returned at most an amount more than the
shop did. -/
def Snapshot.DifferencesFit (sha256 : String → String) (s : Snapshot) : Prop :=
  ∀ o ∈ s.orders, Admitted sha256 s o → ReachesTotals s o (s.group o) →
    stripeRefunded s (s.group o) ≤ maxMinor + o.refunded.minor

theorem orderPart_completes_iff (h : s.Gated) (ho : o ∈ s.orders) :
    (∃ d, orderPart sha256 s o = .ok d) ↔ (Admitted sha256 s o →
      ReachesTotals s o (s.group o) →
        stripeRefunded s (s.group o) ≤ maxMinor + o.refunded.minor) := by
  rw [orderPart, evaluateOrder_eq h.orders_nodup ho, Admitted]
  by_cases hm : s.isMatched o = true
  · rw [if_pos hm]
    cases hh : hold s (matchedOutput sha256 s).blocked o (s.group o) with
    | some held => exact iff_of_true ⟨held, rfl⟩ fun ha => absurd ha.2 (Option.some_ne_none held)
    | none =>
      have hrules : (∃ d, applyRules sha256 s o (s.group o) (s.matchConfidence o) = .ok d) ↔
          ∃ r, refundRules sha256 s o (s.group o) (s.matchConfidence o) = .ok r := by
        constructor
        · rintro ⟨d, hd⟩
          obtain ⟨r, hr, -⟩ := applyRules_ok.mp hd
          exact ⟨r, hr⟩
        · rintro ⟨r, hr⟩
          exact ⟨_, applyRules_ok.mpr ⟨r, hr, rfl⟩⟩
      rw [Option.elim, hrules, refundRules_completes_iff]
      exact ⟨fun hle _ => hle, fun hle => hle ⟨hm, rfl⟩⟩
  · rw [if_neg hm]
    exact iff_of_true ⟨0, rfl⟩ fun ha => absurd ha.1 hm

/-- A valid snapshot is evaluated without a raise exactly if, once it is past the gates, no
difference of refunds is too large for an amount. -/
theorem evaluate_completes_iff (hv : s.validate = .ok ()) :
    (∃ e, evaluate sha256 s = .ok e) ↔ (s.Gated → s.DifferencesFit sha256) := by
  rcases early_or_gated_of_valid hv with he | hg
  · refine iff_of_true (completes_of_early hv he) fun hg => ?_
    rcases he with h | h | h
    · exact absurd hg.fresh h
    · rw [hg.verified] at h
      cases h
    · rw [hg.unconflicted] at h
      cases h
  · rw [evaluate_ok_iff sha256 hg]
    constructor
    · intro h _ o ho
      exact (orderPart_completes_iff hg ho).mp (h o ho)
    · intro h o ho
      exact (orderPart_completes_iff hg ho).mpr (h hg o ho)

namespace Fixture

def recentRefund (id parentId : String) (amount : Money) : Refund where
  id := id
  source := .stripe
  parentId := parentId
  amount := amount
  status := .succeeded
  changedAt := now - minutes 2
  status_allowed := stripe_succeeded

def largest : Money := eur maxMinor le_rfl

def largePayment : Payment :=
  { payment with amount := largest, received := largest, compatible := ⟨rfl, rfl⟩ }

/-- An order that was paid twice, and both payments are refunded. -/
def largeSnapshot : Snapshot :=
  { snapshot with
    payments := [largePayment, { largePayment with id := "pi_two", id_prefix := second_prefix }]
    orders := [{ order with amount := largest, compatible := ⟨rfl, rfl⟩ }]
    refunds := [recentRefund "re_one" "pi_one" largest, recentRefund "re_two" "pi_two" largest] }

end Fixture

open Fixture Sha256

theorem evaluate_completes_iff_paid : ∃ e, evaluate hexdigest snapshot = .ok e := by
  refine (evaluate_completes_iff rfl).mpr fun _ o ho _ _ => ?_
  obtain rfl := List.mem_singleton.mp ho
  decide

/-- The refunds of both payments add up to more than an amount holds. -/
theorem large_refunds_raise : largeSnapshot.validate = .ok () ∧
    evaluate hexdigest largeSnapshot = .error "Amount must be a nonnegative int64" :=
  ⟨rfl, rfl⟩

/-- Stripe returned money for the order, other than to correct a duplicate. -/
def StripeReturns (s : Snapshot) (o : Order) : Prop :=
  ∃ r ∈ stripeRefunds s (s.group o), 0 < r.amount.minor

/-- The shop returned money, by what the order or one of its refunds says. -/
def WooReturns (s : Snapshot) (o : Order) : Prop :=
  0 < o.refunded.minor ∨ ∃ r ∈ wooRefunds s o, 0 < r.amount.minor

/-- The rule was evaluated and has nothing to say about the order. -/
def Evaluation.CleanFor (e : Evaluation) (rule : RuleCode) (o : Order) : Prop :=
  rule ∈ e.evaluatedRules ∧ ¬ ∃ f ∈ e.proposals, f.rule = rule ∧ Identity.order o.id ∈ f.identities

/-- Clean evidence of PI-006 and PI-007 tells that no side alone returned money. -/
def Evaluation.ComparedRefunds (e : Evaluation) (s : Snapshot) (o : Order) : Prop :=
  (e.CleanFor .pi006 o → ¬ (StripeReturns s o ∧ ¬ WooReturns s o)) ∧
    (e.CleanFor .pi007 o → ¬ (WooReturns s o ∧ ¬ StripeReturns s o))

/-- One side alone returned money, and the rule that says so is on. -/
def OneSided (s : Snapshot) (o : Order) : Prop :=
  (RuleCode.pi006 ∈ s.rules ∧ StripeReturns s o ∧ ¬ WooReturns s o) ∨
    RuleCode.pi007 ∈ s.rules ∧ WooReturns s o ∧ ¬ StripeReturns s o

theorem sum_minor_ne_zero {rs : List Refund} :
    (rs.map (·.amount.minor)).sum ≠ 0 ↔ ∃ r ∈ rs, 0 < r.amount.minor := by
  rw [Ne, sum_minor_eq_zero]
  push Not
  simp only [Nat.pos_iff_ne_zero]

theorem stripeRefunded_ne_zero : stripeRefunded s (s.group o) ≠ 0 ↔ StripeReturns s o :=
  sum_minor_ne_zero

theorem refunded_ne_zero (h : Consistent s o) : o.refunded.minor ≠ 0 ↔ WooReturns s o := by
  constructor
  · intro hne
    exact Or.inl (Nat.pos_of_ne_zero hne)
  · rintro (hpos | hrecord)
    · exact Nat.ne_of_gt hpos
    · rcases h with hnil | hsum
      · obtain ⟨r, hr, -⟩ := hrecord
        rw [hnil] at hr
        cases hr
      · rw [← hsum]
        exact sum_minor_ne_zero.mpr hrecord

theorem refundTotals_proposes (hs : Consistent s o)
    (h : refundTotals sha256 s o (s.group o) c = .ok d) :
    (RuleCode.pi006 ∈ s.rules → StripeReturns s o → ¬ WooReturns s o →
      ∃ f ∈ d.proposals, f.rule = .pi006) ∧
    (RuleCode.pi007 ∈ s.rules → WooReturns s o → ¬ StripeReturns s o →
      ∃ f ∈ d.proposals, f.rule = .pi007) := by
  rw [← stripeRefunded_ne_zero, ← refunded_ne_zero hs]
  unfold refundTotals at h
  obtain ⟨risk, -, h⟩ := bind_eq_ok.mp h
  obtain rfl := Except.ok.inj h
  dsimp only
  constructor
  · intro hon hstripe hwoo
    rw [if_pos ⟨hstripe, not_not.mp hwoo⟩]
    obtain ⟨f, hf, hr, -⟩ := exists_mem_emit sha256 hon [.order o.id] (some risk) c _ _
    exact ⟨f, hf, hr⟩
  · intro hon hwoo hstripe
    rw [if_neg fun hb => hstripe hb.1, if_pos ⟨Or.inl hwoo, not_not.mp hstripe⟩]
    obtain ⟨f, hf, hr, -⟩ := exists_mem_emit sha256 hon [.order o.id]
      (some (if o.refunded.minor ≠ 0 then risk else o.amount)) c _ _
    exact ⟨f, hf, hr⟩

theorem refundRules_of_unblocked (hs : s.Gated) (he : evaluate sha256 s = .ok e) (ho : o ∈ s.orders)
    (hm : s.isMatched o = true) (hb : Identity.order o.id ∉ e.blockedIdentities) :
    Admitted sha256 s o ∧ ∃ r, refundRules sha256 s o (s.group o) (s.matchConfidence o) = .ok r ∧
      Identity.order o.id ∉ r.blocked := by
  rw [mem_blockedIdentities hs he, not_or, not_or] at hb
  obtain ⟨hmatched, hround, -⟩ := hb
  obtain ⟨d, hd⟩ := (evaluate_ok_iff sha256 hs).mp ⟨e, he⟩ o ho
  have hfree : Identity.order o.id ∉ d.blocked := fun hx => hround ⟨o, ho, d, hd, hx⟩
  rw [orderPart, evaluateOrder_eq hs.orders_nodup ho, if_pos hm] at hd
  cases hh : hold s (matchedOutput sha256 s).blocked o (s.group o) with
  | some held =>
    rw [hh] at hd
    obtain rfl := Except.ok.inj hd
    rw [blocked_of_held hh hmatched] at hfree
    exact absurd List.mem_cons_self hfree
  | none =>
    rw [hh] at hd
    obtain ⟨r, hr, rfl⟩ := applyRules_ok.mp hd
    refine ⟨⟨hm, hh⟩, r, hr, ?_⟩
    simpa using hfree

/-- Clean evidence about the refunds of an order that is not blocked was compared unless one of
them is in another currency and one side alone returned money. -/
theorem compared_refunds_iff (hs : s.Gated) (he : evaluate sha256 s = .ok e) (ho : o ∈ s.orders)
    (hm : s.isMatched o = true) (hb : Identity.order o.id ∉ e.blockedIdentities) :
    e.ComparedRefunds s o ↔
      ((∃ r ∈ shownRefunds s o (s.group o), ¬ r.Comparable o) → ¬ OneSided s o) := by
  obtain ⟨ha, d, hd, hfree⟩ := refundRules_of_unblocked hs he ho hm hb
  have hrules : e.evaluatedRules = s.rules := by
    obtain ⟨out, -, rfl⟩ := (evaluate_ok hs).mp he
    rfl
  have hprop : ∀ rule ∈ [RuleCode.pi006, .pi007, .pi008],
      (∃ f ∈ e.proposals, f.rule = rule ∧ Identity.order o.id ∈ f.identities) ↔
        ∃ f ∈ d.proposals, f.rule = rule := by
    intro rule hrule
    constructor
    · rintro ⟨f, hf⟩
      obtain ⟨-, d', hd', hmem⟩ := (mem_refund_proposals hs he ho hrule).mp hf
      obtain rfl := Except.ok.inj (hd.symm.trans hd')
      exact ⟨f, hmem⟩
    · rintro ⟨f, hf⟩
      exact ⟨f, (mem_refund_proposals hs he ho hrule).mpr ⟨ha, d, hd, hf⟩⟩
  have hclean : ∀ rule ∈ [RuleCode.pi006, .pi007, .pi008],
      e.CleanFor rule o ↔ rule ∈ s.rules ∧ ¬ ∃ f ∈ d.proposals, f.rule = rule := by
    intro rule hrule
    rw [Evaluation.CleanFor, hrules, hprop rule hrule]
  rw [Evaluation.ComparedRefunds, hclean .pi006 (by decide), hclean .pi007 (by decide)]
  have hout := refundRules_outcome sha256 s o (s.group o) (s.matchConfidence o)
  rw [hd] at hout
  generalize hres : (Except.ok d : Except String Output) = result at hout
  cases hout with
  | late h =>
    obtain rfl := Except.ok.inj hres
    exact absurd List.mem_cons_self hfree
  | exceeds hc h =>
    obtain rfl := Except.ok.inj hres
    exact absurd List.mem_cons_self hfree
  | inconsistent hc h =>
    obtain rfl := Except.ok.inj hres
    exact absurd List.mem_cons_self hfree
  | foreign h eligible facts =>
    obtain rfl := Except.ok.inj hres
    have hnone : ∀ rule ≠ RuleCode.pi008, ¬ ∃ f ∈ emit sha256 s .pi008 [.order o.id]
        (some o.refunded) (s.matchConfidence o) eligible facts, f.rule = rule := by
      rintro rule hne ⟨f, hf, hr⟩
      exact hne (hr.symm.trans (mem_emit hf).2.1)
    have h6 := hnone .pi006 (by decide)
    have h7 := hnone .pi007 (by decide)
    simp only [h6, h7, not_false_eq_true, and_true, OneSided, h, true_imp_iff]
    tauto
  | totals h =>
    have htotals := refundTotals_proposes h.consistent hres.symm
    refine iff_of_true ⟨?_, ?_⟩ fun hx => ?_
    · rintro ⟨hon, hquiet⟩ ⟨hstripe, hwoo⟩
      exact hquiet (htotals.1 hon hstripe hwoo)
    · rintro ⟨hon, hquiet⟩ ⟨hwoo, hstripe⟩
      exact hquiet (htotals.2 hon hwoo hstripe)
    · obtain ⟨r, hr, hn⟩ := hx
      exact absurd (h.comparable r hr) hn

namespace Fixture

def usd (minor : ℕ) (h : minor ≤ maxMinor := by decide) : Money := ⟨minor, "USD", 2, h, by decide⟩

/-- The payment of the order came in another amount and was refunded. -/
def refundedSnapshot (amount : Money) : Snapshot :=
  { snapshot with
    payments := [{ payment with amount, received := amount, compatible := ⟨rfl, rfl⟩ }]
    refunds := [recentRefund "re_one" "pi_one" amount] }

end Fixture

theorem compared_refunds_iff_returned : ∃ e, evaluate hexdigest (refundedSnapshot (eur 12995)) = .ok e ∧
    e.ComparedRefunds (refundedSnapshot (eur 12995)) order := by
  obtain ⟨e, he, hb⟩ : ∃ e, evaluate hexdigest (refundedSnapshot (eur 12995)) = .ok e ∧
      Identity.order order.id ∉ e.blockedIdentities := ⟨_, rfl, by decide⟩
  have hs : (refundedSnapshot (eur 12995)).Gated := ⟨rfl, by decide, rfl, rfl⟩
  refine ⟨e, he, (compared_refunds_iff hs he List.mem_cons_self rfl hb).mpr ?_⟩
  rintro ⟨r, hr, hn⟩
  exact absurd ⟨rfl, rfl⟩ (List.mem_singleton.mp hr ▸ hn)

/-- A payment in dollars is refunded, and the order in euros passes for one without refunds. -/
theorem foreign_refund_not_compared : ∃ e, (refundedSnapshot (usd 12995)).Gated ∧
    evaluate hexdigest (refundedSnapshot (usd 12995)) = .ok e ∧
      order ∈ (refundedSnapshot (usd 12995)).orders ∧
      (refundedSnapshot (usd 12995)).isMatched order = true ∧
      Identity.order order.id ∉ e.blockedIdentities ∧
      ¬ e.ComparedRefunds (refundedSnapshot (usd 12995)) order := by
  refine ⟨_, ⟨rfl, by decide, rfl, rfl⟩, rfl, List.mem_cons_self, rfl, by decide, fun h => ?_⟩
  refine h.1 ⟨by decide, by decide +kernel⟩ ⟨⟨_, List.mem_cons_self, by decide⟩, ?_⟩
  rintro (hpos | ⟨r, hr, -⟩)
  · exact absurd hpos (by decide)
  · cases hr

end LedgerGuard
