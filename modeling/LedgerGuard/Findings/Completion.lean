import LedgerGuard.Core.DateRange
import LedgerGuard.Findings.BuildSnapshot
import LedgerGuard.Ingestion.WooFacts

/-! # Which stored facts a run can process

Every row of a shop carries a record that the wire schema accepted. The
constructors of the core accept all of them but an order whose number ends in a
newline, and the evaluator raises only for an order that was paid at the end of
time and has no payment.
-/

namespace LedgerGuard

open Ordered Ingestion Raising Transition

theorem Money.make_self (m : Money) : Money.make m.minor m.currency m.exponent = .ok m := by
  have hrange : 0 ≤ (m.minor : ℤ) ∧ (m.minor : ℤ) ≤ maxMinor :=
    ⟨Int.natCast_nonneg _, Int.ofNat_le.mpr m.minor_le⟩
  rw [Money.make, dif_pos hrange, dif_pos m.exponent_eq]
  rfl

theorem parseWoo_currency {value currency : String} {m : Money}
    (h : parseWoo value currency = .ok m) : m.currency = currency := by
  unfold parseWoo at h
  split at h
  · cases h
  · split at h
    · cases h
    · dsimp only at h
      split at h
      · cases h
      · exact (Money.make_ok h).2.1

theorem parse_wooStatus : ∀ status ∈ wooStatuses, ∃ s, OrderStatus.parse status = some s := by
  have h : ∀ status ∈ wooStatuses, (OrderStatus.parse status).isSome = true := by decide
  exact fun status hs => Option.isSome_iff_exists.mp (h status hs)

theorem numericIdentity_iff {id : String} (h : text 20 numericPattern id = true) :
    numericIdentity id = true ↔ id.toList.getLast? ≠ some '\n' := by
  have heq : numericIdentity id = numericPattern id.toList := by
    unfold numericIdentity numericPattern
    rfl
  rw [heq]
  constructor
  · intro hp hl
    have hdigit : isDigit '\n' = true := by
      cases hc : id.toList with
      | nil =>
        rw [hc] at hl
        cases hl
      | cons c rest =>
        rw [hc] at hp hl
        simp only [numericPattern, Bool.and_eq_true, List.all_eq_true] at hp
        rcases List.mem_cons.mp (List.mem_of_getLast? hl) with rfl | hm
        · exact hp.1.1
        · exact hp.2 _ hm
    revert hdigit
    decide
  · exact pattern_of_text h

section Woo

variable {observationId : Observation → String} {mode : Mode} {storeId : String}
  {connector : Installation} {p : Projection}

theorem buildOrder_completes_iff {r : OrderRecord} (hv : r.Valid) (h : p.HasOrder r) :
    (∃ o, buildOrder observationId mode storeId p = .ok o) ↔
      p.sourceId.toList.getLast? ≠ some '\n' := by
  obtain ⟨money, hm, hminor, hcurrency, hexponent⟩ := h.amount
  obtain ⟨refunded, hr, hrefunded⟩ := h.refunded
  have hc : refunded.currency = money.currency :=
    (parseWoo_currency hr).trans (parseWoo_currency hm).symm
  have he : refunded.exponent = money.exponent := by
    have := refunded.exponent_eq
    rw [hc, money.exponent_eq] at this
    exact (Option.some.inj this).symm
  have hamount : Money.make p.amountMinor p.currency p.exponent = .ok money := by
    rw [hminor, hcurrency, hexponent, Money.make_self]
  have hrefund : Money.make p.refundedMinor p.currency p.exponent = .ok refunded := by
    rw [hrefunded, hcurrency, hexponent, ← hc, ← he, Money.make_self]
  obtain ⟨status, hstatus⟩ := parse_wooStatus p.status (h.status ▸ hv.status)
  rw [← numericIdentity_iff (h.sourceId ▸ hv.sourceId)]
  unfold buildOrder
  simp only [hamount, hrefund, hstatus, bind, Except.bind, dif_pos (And.intro hc.symm he.symm)]
  split
  case isTrue hid =>
    refine iff_of_true ?_ hid
    exact ⟨_, rfl⟩
  case isFalse hid =>
    refine iff_of_false ?_ hid
    rintro ⟨o, ho⟩
    cases ho

theorem buildRefund_of_woo {r : RefundRecord} (hv : r.Valid) (h : p.Records connector (.refund r)) :
    ∃ refund, buildRefund observationId p = .ok refund := by
  obtain ⟨data, times, hd, -, hc⟩ := h.columns
  obtain ⟨money, -, hd⟩ := bind_eq_ok.mp hd
  obtain rfl := Except.ok.inj hd
  have hcol : ∀ {α : Type} {x : α} (f : Projection → α), f (p.assign _ times) = x → f p = x :=
    fun f hx => (congrArg f hc).symm.trans hx
  have hminor : p.amountMinor = money.minor := hcol Projection.amountMinor rfl
  have hcurrency : p.currency = money.currency := hcol Projection.currency rfl
  have hexponent : p.exponent = money.exponent := hcol Projection.exponent rfl
  have hamount : Money.make p.amountMinor p.currency p.exponent = .ok money := by
    rw [hminor, hcurrency, hexponent, Money.make_self]
  have hstatus : p.status = "recorded" := (hcol Projection.status rfl).trans hv.status
  have hparse : RefundStatus.parse "recorded" = some .recorded := by decide
  have hkind : p.kind ≠ .stripeRefund := by
    rw [h.kind, WooRecord.kind]
    decide
  unfold buildRefund
  rw [hamount, hstatus, hparse, if_neg hkind]
  exact ⟨_, rfl⟩

theorem record_cases {r : WooRecord} (h : p.Records connector r) :
    (p.kind = .order ∧ ∃ o, r = .order o) ∨ (p.kind = .wooRefund ∧ ∃ f, r = .refund f) := by
  cases r with
  | order o => exact Or.inl ⟨h.kind, o, rfl⟩
  | refund f => exact Or.inr ⟨h.kind, f, rfl⟩

end Woo

/-- A row of the account that the constructors accept, more than two hours before the end of
time. -/
structure Ingestion.Projection.StripeValid (p : Projection) : Prop where
  kind : p.kind ∈ [Kind.payment, .charge, .session, .stripeRefund]
  payment : p.kind = .payment → startsWith "pi_" p.sourceId = true ∧
    (∃ status, PaymentStatus.parse p.status = some status) ∧ p.receivedMinor ≤ maxMinor
  refund : p.kind = .stripeRefund → ∃ status, RefundStatus.parse p.status = some status ∧
    status ≠ .recorded
  amount : p.amountMinor ≤ maxMinor ∧ exponents p.currency = some p.exponent
  revision : p.revision + minutes 120 ≤ datetimeMax
  succeededAt : ∀ t ∈ p.succeededAt, t + minutes 120 ≤ datetimeMax

/-- What the rows of a Stripe account are: one by one, and the paid refunds in total. -/
structure Connector.StripeValid (c : Connector) : Prop where
  account : startsWith "acct_" c.accountId = true
  cursors : ∀ cursor ∈ c.cursors, cursor.objectClass ∈ stripeClasses
  rows : ∀ p ∈ c.projections, p.StripeValid
  returned : ((c.projections.rows.filter fun p =>
    p.kind = .stripeRefund && p.status = "succeeded").map (·.amountMinor)).sum ≤ maxMinor

section Stripe

variable {observationId : Observation → String} {mode : Mode} {accountId : String}
  {rows : List Projection} {p : Projection}

theorem make_of_range {n : ℕ} {currency : String} {exponent : ℕ} (hn : n ≤ maxMinor)
    (he : exponents currency = some exponent) :
    Money.make n currency exponent = .ok ⟨n, currency, exponent, hn, he⟩ :=
  Money.make_self ⟨n, currency, exponent, hn, he⟩

theorem buildPayment_completes (ha : startsWith "acct_" accountId = true) (h : p.StripeValid)
    (hk : p.kind = .payment) : ∃ q, buildPayment observationId mode accountId rows p = .ok q := by
  obtain ⟨hid, ⟨status, hstatus⟩, hreceived⟩ := h.payment hk
  unfold buildPayment
  simp only [make_of_range h.amount.1 h.amount.2, make_of_range hreceived h.amount.2, hstatus,
    bind, Except.bind, and_self, dif_pos (And.intro hid ha)]
  exact ⟨_, rfl⟩

theorem buildRefund_of_stripe (h : p.StripeValid) (hk : p.kind = .stripeRefund) :
    ∃ refund, buildRefund observationId p = .ok refund := by
  obtain ⟨status, hstatus, hne⟩ := h.refund hk
  have hallowed : RefundSource.stripe.allows status = true := decide_eq_true hne
  unfold buildRefund
  simp only [make_of_range h.amount.1 h.amount.2, hstatus, hk, bind, Except.bind, if_true,
    dif_pos hallowed]
  exact ⟨_, rfl⟩

end Stripe

section Built

variable {observationId : Observation → String} {mode : Mode} {accountId storeId : String}
  {rows : List Projection} {p : Projection}

/-- A payment keeps the identity and the times of its row. -/
structure Payment.BuiltFrom (q : Payment) (accountId : String) (mode : Mode) (p : Projection) :
    Prop where
  id : q.id = p.sourceId
  accountId : q.accountId = accountId
  mode : q.mode = mode
  changedAt : q.changedAt = p.revision
  succeededAt : q.succeededAt = p.succeededAt

theorem buildPayment_ok {q : Payment}
    (h : buildPayment observationId mode accountId rows p = .ok q) :
    q.BuiltFrom accountId mode p := by
  obtain ⟨amount, -, h⟩ := bind_eq_ok.mp h
  obtain ⟨received, -, h⟩ := bind_eq_ok.mp h
  split at h
  · split at h
    · cases h
    · split at h
      · obtain rfl := Except.ok.inj h
        exact ⟨rfl, rfl, rfl, rfl, rfl⟩
      · cases h
  · cases h

structure Order.BuiltFrom (o : Order) (storeId : String) (mode : Mode) (p : Projection) : Prop where
  id : o.id = p.sourceId
  storeId : o.storeId = storeId
  mode : o.mode = mode

theorem buildOrder_ok {o : Order} (h : buildOrder observationId mode storeId p = .ok o) :
    o.BuiltFrom storeId mode p := by
  obtain ⟨amount, -, h⟩ := bind_eq_ok.mp h
  obtain ⟨refunded, -, h⟩ := bind_eq_ok.mp h
  split at h
  · split at h
    · cases h
    · split at h
      · obtain rfl := Except.ok.inj h
        exact ⟨rfl, rfl, rfl⟩
      · cases h
  · cases h

structure Refund.BuiltFrom (r : Refund) (p : Projection) : Prop where
  id : r.id = p.sourceId
  source : r.source = if p.kind = .stripeRefund then .stripe else .woo
  minor : r.amount.minor = p.amountMinor
  status : RefundStatus.parse p.status = some r.status
  changedAt : r.changedAt = p.revision

theorem buildRefund_ok {r : Refund} (h : buildRefund observationId p = .ok r) :
    r.BuiltFrom p := by
  obtain ⟨amount, hamount, h⟩ := bind_eq_ok.mp h
  split at h
  · cases h
  case h_2 status hstatus =>
    by_cases hs : (if p.kind = .stripeRefund then RefundSource.stripe else .woo).allows status = true
    · rw [dif_pos hs] at h
      obtain rfl := Except.ok.inj h
      exact ⟨rfl, rfl, Int.ofNat.inj (Money.make_ok hamount).1, hstatus, rfl⟩
    · rw [dif_neg hs] at h
      cases h

end Built

def wooClasses : List ObjectClass := [.wooOrders, .wooRefunds]

/-- The shop's rows carry records of the wire language, and the account's rows are valid. -/
structure Sources.Sound (c : Sources) (connector : Installation) : Prop where
  link : ∀ l ∈ c.link, l.stripe.StripeValid
  rows : ∀ w ∈ c.woo, ∀ p ∈ w.projections, ∃ r : WooRecord, r.Valid ∧ p.Records connector r
  cursors : ∀ w ∈ c.woo, ∀ cursor ∈ w.cursors, cursor.objectClass ∈ wooClasses

section Snapshot

variable {observationId : Observation → String} {store : StoreRow} {c : Sources}
  {connector : Installation} {now : Instant} {s : Snapshot} {p : Projection}

theorem Sources.Sound.stripeRows (h : c.Sound connector) (hp : p ∈ c.stripeRows) :
    p.StripeValid ∧ startsWith "acct_" c.accountId = true := by
  unfold Sources.stripeRows Sources.stripe at hp
  cases hl : c.link with
  | none =>
    rw [hl] at hp
    cases hp
  | some l =>
    rw [hl] at hp
    refine ⟨(h.link l hl).rows p hp, ?_⟩
    rw [Sources.accountId, Sources.stripe, hl]
    exact (h.link l hl).account

theorem Sources.Sound.wooRows (h : c.Sound connector) (hp : p ∈ c.wooRows) :
    ∃ r : WooRecord, r.Valid ∧ p.Records connector r := by
  unfold Sources.wooRows at hp
  cases hw : c.woo with
  | none =>
    rw [hw] at hp
    cases hp
  | some w =>
    rw [hw] at hp
    exact h.rows w hw p hp

theorem Sources.stripeRows_nodup (c : Sources) : (c.stripeRows.map Projection.key).Nodup := by
  unfold Sources.stripeRows
  cases c.stripe with
  | none => exact List.nodup_nil
  | some w => exact w.projections.nodup

theorem Sources.wooRows_nodup (c : Sources) : (c.wooRows.map Projection.key).Nodup := by
  unfold Sources.wooRows
  cases c.woo with
  | none => exact List.nodup_nil
  | some w => exact w.projections.nodup

theorem nodup_sourceIds {rows : List Projection} {k : Kind} {P : Projection → Bool}
    (h : (rows.map Projection.key).Nodup) (hP : ∀ p ∈ rows, P p = true → p.kind = k) :
    ((rows.filter P).map (·.sourceId)).Nodup := by
  have hkeys : ((rows.filter P).map Projection.key).Nodup := h.sublist (List.filter_sublist.map _)
  refine List.Nodup.of_map (fun id => (k, id)) ?_
  rw [List.map_map]
  refine (List.map_congr_left fun p hp => ?_) ▸ hkeys
  obtain ⟨hp, hPp⟩ := List.mem_filter.mp hp
  exact Prod.ext (hP p hp hPp) rfl

theorem buildSnapshot_ok (h : buildSnapshot observationId store c now = .ok s) :
    (c.stripeRows.filter (·.kind = .payment)).mapM
        (buildPayment observationId store.mode c.accountId c.stripeRows) = .ok s.payments ∧
      (c.wooRows.filter (·.kind = .order)).mapM (buildOrder observationId store.mode store.id) =
        .ok s.orders ∧
      ((c.stripeRows ++ c.wooRows).filter (isRefundRow c.wooRows)).mapM
        (buildRefund observationId) = .ok s.refunds ∧
      s.storeId = store.id ∧ s.accountId = c.accountId ∧ s.mode = store.mode ∧ s.now = now ∧
      s.windowFrom = now - minutes (30 * 24 * 60) ∧
      s.coverage = c.woo.elim [] Connector.coverage ++ c.stripe.elim [] Connector.coverage := by
  obtain ⟨payments, hp, h⟩ := bind_eq_ok.mp h
  obtain ⟨orders, ho, h⟩ := bind_eq_ok.mp h
  obtain ⟨refunds, hr, h⟩ := bind_eq_ok.mp h
  obtain rfl := Except.ok.inj h
  exact ⟨hp, ho, hr, rfl, rfl, rfl, rfl, rfl, rfl⟩

theorem buildSnapshot_store (h : buildSnapshot observationId store c now = .ok s) :
    s.organizationId = store.organizationId ∧ s.storeId = store.id ∧ s.mode = store.mode ∧
      s.policy = store.settings.policy := by
  obtain ⟨payments, -, h⟩ := bind_eq_ok.mp h
  obtain ⟨orders, -, h⟩ := bind_eq_ok.mp h
  obtain ⟨refunds, -, h⟩ := bind_eq_ok.mp h
  obtain rfl := Except.ok.inj h
  exact ⟨rfl, rfl, rfl, rfl⟩

theorem isRefundRow_kind {wooRows : List Projection} (h : isRefundRow wooRows p = true) :
    p.kind = .stripeRefund ∨ p.kind = .wooRefund := by
  rcases Bool.or_eq_true_iff.mp h with h | h
  · exact Or.inl (of_decide_eq_true h)
  · exact Or.inr (of_decide_eq_true (Bool.and_eq_true_iff.mp h).1)

theorem stripe_refund_row {wooRows : List Projection} (hv : p.StripeValid)
    (h : isRefundRow wooRows p = true) : p.kind = .stripeRefund := by
  rcases isRefundRow_kind h with hk | hk
  · exact hk
  · have hkind := hv.kind
    rw [hk] at hkind
    exact absurd hkind (by decide)

theorem woo_refund_row {wooRows : List Projection} {r : WooRecord} (hr : p.Records connector r)
    (h : isRefundRow wooRows p = true) : ∃ f, r = .refund f := by
  rcases record_cases hr with ⟨hk, -⟩ | ⟨-, hf⟩
  · rcases isRefundRow_kind h with hk' | hk'
    · exact absurd (hk.symm.trans hk') (by decide)
    · exact absurd (hk.symm.trans hk') (by decide)
  · exact hf

theorem buildSnapshot_completes_iff (h : c.Sound connector) :
    (∃ s, buildSnapshot observationId store c now = .ok s) ↔
      ∀ p ∈ c.wooRows, p.kind = .order → p.sourceId.toList.getLast? ≠ some '\n' := by
  have horder : ∀ p ∈ c.wooRows, p.kind = .order →
      ((∃ o, buildOrder observationId store.mode store.id p = .ok o) ↔
        p.sourceId.toList.getLast? ≠ some '\n') := by
    intro p hp hk
    obtain ⟨r, hv, hr⟩ := h.wooRows hp
    rcases record_cases hr with ⟨-, o, rfl⟩ | ⟨hk', -⟩
    · exact buildOrder_completes_iff hv hr.hasOrder
    · rw [hk] at hk'
      cases hk'
  constructor
  · rintro ⟨s, hs⟩ p hp hk
    have ho := mapM_completes.mp ⟨_, (buildSnapshot_ok hs).2.1⟩ p
      (List.mem_filter.mpr ⟨hp, decide_eq_true hk⟩)
    exact (horder p hp hk).mp ho
  · intro hall
    have hpayments : ∀ p ∈ c.stripeRows.filter (·.kind = .payment), ∃ q,
        buildPayment observationId store.mode c.accountId c.stripeRows p = .ok q := by
      intro p hp
      obtain ⟨hp, hk⟩ := List.mem_filter.mp hp
      obtain ⟨hv, ha⟩ := h.stripeRows hp
      exact buildPayment_completes ha hv (of_decide_eq_true hk)
    have horders : ∀ p ∈ c.wooRows.filter (·.kind = .order), ∃ o,
        buildOrder observationId store.mode store.id p = .ok o := by
      intro p hp
      obtain ⟨hp, hk⟩ := List.mem_filter.mp hp
      have hk := of_decide_eq_true hk
      exact (horder p hp hk).mpr (hall p hp hk)
    have hrefunds : ∀ p ∈ (c.stripeRows ++ c.wooRows).filter (isRefundRow c.wooRows), ∃ r,
        buildRefund observationId p = .ok r := by
      intro p hp
      obtain ⟨hp, hr⟩ := List.mem_filter.mp hp
      rcases List.mem_append.mp hp with hp | hp
      · obtain ⟨hv, -⟩ := h.stripeRows hp
        exact buildRefund_of_stripe hv (stripe_refund_row hv hr)
      · obtain ⟨r, hv, hrec⟩ := h.wooRows hp
        obtain ⟨f, rfl⟩ := woo_refund_row hrec hr
        exact buildRefund_of_woo hv hrec
    obtain ⟨payments, hp⟩ := mapM_completes.mpr hpayments
    obtain ⟨orders, ho⟩ := mapM_completes.mpr horders
    obtain ⟨refunds, hr⟩ := mapM_completes.mpr hrefunds
    exact ⟨_, bind_eq_ok.mpr ⟨payments, hp, bind_eq_ok.mpr ⟨orders, ho,
      bind_eq_ok.mpr ⟨refunds, hr, rfl⟩⟩⟩⟩

theorem ObjectClass.render_injective : Function.Injective ObjectClass.render := by
  intro a b h
  cases a <;> cases b <;> revert h <;> decide

theorem coverage_sources (w : Connector) : (w.coverage.map (·.source)).Nodup ∧
    ∀ k ∈ w.coverage.map (·.source), ∃ cursor ∈ w.cursors, cursor.objectClass.render = k := by
  have hsub : (w.coverage.map (·.source)).Sublist
      (w.cursors.rows.map fun cursor => cursor.objectClass.render) := by
    refine map_filterMap_sublist (fun cursor coverage hc => ?_) _
    obtain ⟨start, -, hc⟩ := Option.bind_eq_some_iff.mp hc
    obtain ⟨till, -, hc⟩ := Option.bind_eq_some_iff.mp hc
    obtain ⟨observed, -, hc⟩ := Option.bind_eq_some_iff.mp hc
    obtain rfl := Option.some.inj hc
    rfl
  constructor
  · refine List.Nodup.sublist hsub ?_
    have hn := w.cursors.nodup.map ObjectClass.render_injective
    rwa [List.map_map] at hn
  · intro k hk
    exact List.mem_map.mp (hsub.subset hk)

theorem coverage_nodup (h : c.Sound connector) :
    ((c.woo.elim [] Connector.coverage ++ c.stripe.elim [] Connector.coverage).map
      (·.source)).Nodup := by
  rw [List.map_append]
  have hwoo : ((c.woo.elim [] Connector.coverage).map (·.source)).Nodup ∧
      ∀ k ∈ (c.woo.elim [] Connector.coverage).map (·.source), ∃ x ∈ wooClasses, x.render = k := by
    cases hw : c.woo with
    | none => exact ⟨List.nodup_nil, nofun⟩
    | some w =>
      refine ⟨(coverage_sources w).1, fun k hk => ?_⟩
      obtain ⟨cursor, hm, he⟩ := (coverage_sources w).2 k hk
      exact ⟨_, h.cursors w hw cursor hm, he⟩
  have hstripe : ((c.stripe.elim [] Connector.coverage).map (·.source)).Nodup ∧
      ∀ k ∈ (c.stripe.elim [] Connector.coverage).map (·.source), ∃ x ∈ stripeClasses,
        x.render = k := by
    unfold Sources.stripe
    cases hl : c.link with
    | none => exact ⟨List.nodup_nil, nofun⟩
    | some l =>
      refine ⟨(coverage_sources l.stripe).1, fun k hk => ?_⟩
      obtain ⟨cursor, hm, he⟩ := (coverage_sources l.stripe).2 k hk
      exact ⟨_, (h.link l hl).cursors cursor hm, he⟩
  refine List.nodup_append.mpr ⟨hwoo.1, hstripe.1, ?_⟩
  rintro k hk _ hk' rfl
  obtain ⟨x, hx, rfl⟩ := hwoo.2 k hk
  obtain ⟨y, hy, he⟩ := hstripe.2 _ hk'
  have hdisjoint : ∀ x ∈ wooClasses, x ∉ stripeClasses := by decide
  exact hdisjoint x hx (ObjectClass.render_injective he ▸ hy)

theorem refunds_nodup (h : c.Sound connector)
    (hs : buildSnapshot observationId store c now = .ok s) :
    (s.refunds.map fun r => (r.source, r.id)).Nodup := by
  obtain ⟨-, -, hr, -⟩ := buildSnapshot_ok hs
  have hids : s.refunds.map (fun r => (r.source, r.id)) =
      ((c.stripeRows ++ c.wooRows).filter (isRefundRow c.wooRows)).map fun p =>
        (if p.kind = .stripeRefund then RefundSource.stripe else .woo, p.sourceId) :=
    map_of_mapM hr fun p r hpr => Prod.ext (buildRefund_ok hpr).source (buildRefund_ok hpr).id
  have hstripe : ∀ p ∈ c.stripeRows, isRefundRow c.wooRows p = true → p.kind = .stripeRefund :=
    fun p hp hk => stripe_refund_row (h.stripeRows hp).1 hk
  have hwoo : ∀ p ∈ c.wooRows, isRefundRow c.wooRows p = true → p.kind = .wooRefund := by
    intro p hp hk
    obtain ⟨r, -, hr⟩ := h.wooRows hp
    obtain ⟨f, rfl⟩ := woo_refund_row hr hk
    exact hr.kind
  rw [hids, List.filter_append, List.map_append]
  refine List.nodup_append.mpr ⟨?_, ?_, ?_⟩
  · refine List.Nodup.of_map Prod.snd ?_
    rw [List.map_map]
    exact nodup_sourceIds c.stripeRows_nodup hstripe
  · refine List.Nodup.of_map Prod.snd ?_
    rw [List.map_map]
    exact nodup_sourceIds c.wooRows_nodup hwoo
  · intro a ha b hb hab
    obtain ⟨p, hp, rfl⟩ := List.mem_map.mp ha
    obtain ⟨q, hq, rfl⟩ := List.mem_map.mp hb
    obtain ⟨hp, hpk⟩ := List.mem_filter.mp hp
    obtain ⟨hq, hqk⟩ := List.mem_filter.mp hq
    rw [hstripe p hp hpk, hwoo q hq hqk] at hab
    cases (Prod.mk.inj hab).1

theorem buildSnapshot_valid (h : c.Sound connector)
    (hs : buildSnapshot observationId store c now = .ok s) : s.validate = .ok () := by
  obtain ⟨hp, ho, hr, hstore, haccount, hmode, hnow, hwindow, hcoverage⟩ := buildSnapshot_ok hs
  have hpids : s.payments.map (·.id) =
      (c.stripeRows.filter (·.kind = .payment)).map (·.sourceId) :=
    map_of_mapM hp fun p q hq => (buildPayment_ok hq).id
  have hoids : s.orders.map (·.id) = (c.wooRows.filter (·.kind = .order)).map (·.sourceId) :=
    map_of_mapM ho fun p o hpo => (buildOrder_ok hpo).id
  have hpn : (s.payments.map (·.id)).Nodup :=
    hpids ▸ nodup_sourceIds c.stripeRows_nodup fun p _ hk => of_decide_eq_true hk
  have hon : (s.orders.map (·.id)).Nodup :=
    hoids ▸ nodup_sourceIds c.wooRows_nodup fun p _ hk => of_decide_eq_true hk
  have hpayments : ∀ q ∈ s.payments, q.accountId = s.accountId ∧ q.mode = s.mode := by
    intro q hq
    obtain ⟨p, -, hpq⟩ := exists_of_mem_mapM hp hq
    exact ⟨(buildPayment_ok hpq).accountId.trans haccount.symm,
      (buildPayment_ok hpq).mode.trans hmode.symm⟩
  have horders : ∀ o ∈ s.orders, o.storeId = s.storeId ∧ o.mode = s.mode := by
    intro o hm
    obtain ⟨p, -, hpo⟩ := exists_of_mem_mapM ho hm
    exact ⟨(buildOrder_ok hpo).storeId.trans hstore.symm, (buildOrder_ok hpo).mode.trans hmode.symm⟩
  have hn : (s.coverage.map (·.source)).Nodup := hcoverage ▸ coverage_nodup h
  unfold Snapshot.validate
  rw [if_neg, if_neg, if_neg, if_neg, if_neg (not_not.mpr hn), if_neg (not_not.mpr (refunds_nodup h hs))]
  · simpa using horders
  · simpa using hpayments
  · exact not_or.mpr ⟨not_not.mpr hpn, not_not.mpr hon⟩
  · rw [hnow, hwindow]
    exact not_lt.mpr (sub_le_self now (by decide))

theorem succeeded_iff {text : String} {status : RefundStatus}
    (h : RefundStatus.parse text = some status) : status = .succeeded ↔ text = "succeeded" := by
  constructor
  · rintro rfl
    unfold RefundStatus.parse at h
    have hrender := List.find?_some h
    exact (of_decide_eq_true hrender).symm
  · rintro rfl
    have hs : RefundStatus.parse "succeeded" = some .succeeded := by decide
    exact Option.some.inj (h.symm.trans hs)

theorem sum_returned {rows : List Projection} {refunds : List Refund}
    (h : rows.mapM (buildRefund observationId) = .ok refunds) :
    ((refunds.filter fun r => r.source = .stripe && r.status = .succeeded).map
        (·.amount.minor)).sum =
      ((rows.filter fun p => p.kind = .stripeRefund && p.status = "succeeded").map
        (·.amountMinor)).sum := by
  rw [mapM_ok] at h
  induction h with
  | nil => rfl
  | @cons p r rows refunds hpr _ ih =>
    have hb := buildRefund_ok hpr
    have hiff : (r.source = .stripe && r.status = .succeeded) =
        (p.kind = .stripeRefund && p.status = "succeeded") := by
      have hsource : r.source = .stripe ↔ p.kind = .stripeRefund := by
        rw [hb.source]
        split
        case isTrue hk => exact iff_of_true rfl hk
        case isFalse hk => exact iff_of_false nofun hk
      simp only [hsource, succeeded_iff hb.status]
    rw [List.filter_cons, List.filter_cons, hiff]
    split
    · rw [List.map_cons, List.map_cons, List.sum_cons, List.sum_cons, ih, hb.minor]
    · exact ih

theorem buildSnapshot_stripeSound (h : c.Sound connector)
    (hs : buildSnapshot observationId store c now = .ok s) : s.StripeSound := by
  obtain ⟨hp, -, hr, -⟩ := buildSnapshot_ok hs
  constructor
  · intro q hq
    obtain ⟨p, hm, hpq⟩ := exists_of_mem_mapM hp hq
    obtain ⟨hv, -⟩ := h.stripeRows (List.mem_filter.mp hm).1
    rw [(buildPayment_ok hpq).changedAt, (buildPayment_ok hpq).succeededAt]
    exact ⟨hv.revision, hv.succeededAt⟩
  · intro r hm hsource
    obtain ⟨p, hp, hpr⟩ := exists_of_mem_mapM hr hm
    have hk : p.kind = .stripeRefund := by
      by_contra hk
      rw [(buildRefund_ok hpr).source, if_neg hk] at hsource
      cases hsource
    rcases List.mem_append.mp (List.mem_filter.mp hp).1 with hp | hp
    · rw [(buildRefund_ok hpr).changedAt]
      exact (h.stripeRows hp).1.revision
    · obtain ⟨x, -, hx⟩ := h.wooRows hp
      rcases record_cases hx with ⟨hk', -⟩ | ⟨hk', -⟩
      · exact absurd (hk.symm.trans hk') (by decide)
      · exact absurd (hk.symm.trans hk') (by decide)
  · rw [sum_returned hr, List.filter_append, List.filter_append, List.filter_filter,
      List.filter_filter]
    have hstripe : c.stripeRows.filter (fun p => (p.kind = .stripeRefund && p.status = "succeeded")
        && isRefundRow c.wooRows p) =
        c.stripeRows.filter fun p => p.kind = .stripeRefund && p.status = "succeeded" := by
      refine List.filter_congr fun p _ => ?_
      rw [isRefundRow]
      cases hk : decide (p.kind = .stripeRefund) <;> simp
    have hwoo : c.wooRows.filter (fun p => (p.kind = .stripeRefund && p.status = "succeeded")
        && isRefundRow c.wooRows p) = [] := by
      refine List.filter_eq_nil_iff.mpr fun p hp => ?_
      obtain ⟨x, -, hx⟩ := h.wooRows hp
      rcases record_cases hx with ⟨hk, -⟩ | ⟨hk, -⟩
      · simp [hk]
      · simp [hk]
    rw [hstripe, hwoo, List.append_nil]
    unfold Sources.stripeRows Sources.stripe
    cases hl : c.link with
    | none => exact Nat.zero_le _
    | some l => exact (h.link l hl).returned

end Snapshot

section Reachable

variable {sha256 : String → String} {connector : Installation} {db : Ingestion.Db}
  {x cursor : Cursor} {k : ObjectClass} {clock start till : Instant} {e : Envelope}

def OfShop (db : Ingestion.Db) : Prop := ∀ x ∈ db.cursors, x.objectClass ∈ wooClasses

theorem ofShop_put (h : OfShop db) (hx : x.objectClass ∈ wooClasses) :
    OfShop { db with cursors := db.cursors.put x } := by
  intro y hy
  rcases Table.mem_put.mp hy with rfl | ⟨hy, -⟩
  · exact hx
  · exact h y hy

theorem ofShop_invalidate (h : OfShop db) : OfShop (db.invalidate k) := by
  unfold Ingestion.Db.invalidate
  split
  case h_1 c hc => exact ofShop_put h (h c (Table.get_eq_some.mp hc).1)
  case h_2 => exact h

theorem ofShop_endScan (h : OfShop db) : OfShop (db.endScan clock cursor start till) := by
  unfold Ingestion.Db.endScan
  split
  · refine ofShop_put h ?_
    have hclass : (db.cursor clock .wooRefunds).objectClass = .wooRefunds := cursor_objectClass
    rw [hclass]
    decide
  · split
    · exact ofShop_invalidate h
    · exact h

theorem ofShop_acceptPage (h : OfShop db) (ha : db.Admits clock e start till cursor) :
    OfShop (acceptPage sha256 connector clock e start till cursor db).1 := by
  have hbase : OfShop (if (db.cursor clock .wooOrders).scanId = some e.scanId then db
      else db.invalidate .wooRefunds) := by
    split
    · exact h
    · exact ofShop_invalidate h
  intro x hx
  unfold acceptPage at hx
  dsimp only at hx
  rcases Table.mem_put.mp hx with rfl | ⟨hx, -⟩
  · have hclass : (cursor.afterPage clock e start till
        (storeRecords sha256 connector clock e.records db.facts).rejected).objectClass =
        .wooOrders := afterPage_objectClass.trans ha.objectClass
    change (cursor.afterPage clock e start till _).objectClass ∈ wooClasses
    rw [hclass]
    decide
  · split at hx
    · exact ofShop_endScan hbase x hx
    · exact hbase x hx

theorem ofShop_of_run {calls : List (Instant × Envelope)} {s : Server}
    (hrun : Run (Guarded (batchStep sha256 connector) ValidCall) {} calls s) : OfShop s.db := by
  induction hrun with
  | nil => exact fun x hx => absurd hx Table.not_mem_empty
  | @snoc calls s call s' _ hstep ih =>
    rcases batchStep_cases hstep.2 with ⟨rfl, -⟩ | ⟨start, till, cursor, ha, rfl⟩
    · exact ih
    · exact ofShop_acceptPage ih ha

/-- The shop of a server that answered any calls with valid pages. -/
def shopConnector (s : Server) (clockOffsetSeconds : ℤ) : Connector :=
  { clockOffsetSeconds, cursors := s.db.cursors, projections := s.db.facts.projections }

theorem sound_of_run {calls : List (Instant × Envelope)} {s : Server} {link : Option StoreLink}
    {offset : ℤ} {linkedOrders : List (String × String)}
    (hrun : Run (Guarded (batchStep sha256 connector) ValidCall) {} calls s)
    (hlink : ∀ l ∈ link, l.stripe.StripeValid) :
    (⟨link, some (shopConnector s offset), linkedOrders⟩ : Sources).Sound connector := by
  obtain ⟨now, hrecorded⟩ := recorded_of_run_at hrun
  constructor
  · exact hlink
  · intro w hw p hp
    obtain rfl := Option.some.inj hw
    obtain ⟨r, hv, hr, -⟩ := hrecorded p hp
    exact ⟨r, hv, hr⟩
  · intro w hw cursor hc
    obtain rfl := Option.some.inj hw
    exact ofShop_of_run hrun cursor hc

/-- For every shop that its pages can reach, a run completes exactly if no stored order has a
number that ends in a newline, and no order that reaches the rules without a payment was paid at
the end of time. -/
theorem run_completes_iff {calls : List (Instant × Envelope)} {s : Server} {now : Instant}
    (hrun : Run (Guarded (batchStep sha256 connector) ValidCall) {} calls s)
    (link : Option StoreLink) (hlink : ∀ l ∈ link, l.stripe.StripeValid)
    (hnow : now + minutes 120 ≤ datetimeMax) (observationId : Observation → String)
    (store : StoreRow) (offset : ℤ) (linkedOrders : List (String × String)) :
    let sources : Sources := ⟨link, some (shopConnector s offset), linkedOrders⟩
    (∃ snapshot evaluation, buildSnapshot observationId store sources now = .ok snapshot ∧
      evaluateInRange sha256 snapshot = .ok evaluation) ↔
    (∀ p ∈ s.db.facts.projections, p.kind = .order → p.sourceId.toList.getLast? ≠ some '\n') ∧
      ∀ snapshot, buildSnapshot observationId store sources now = .ok snapshot →
        snapshot.Gated → snapshot.PaidInRange sha256 := by
  intro sources
  have hsound : sources.Sound connector := sound_of_run hrun hlink
  have hevaluate : ∀ snapshot, buildSnapshot observationId store sources now = .ok snapshot →
      ((∃ e, evaluateInRange sha256 snapshot = .ok e) ↔
        (snapshot.Gated → snapshot.PaidInRange sha256)) := by
    intro snapshot hs
    refine evaluateInRange_iff (buildSnapshot_valid hsound hs) (buildSnapshot_stripeSound hsound hs) ?_
    rw [(buildSnapshot_ok hs).2.2.2.2.2.2.1]
    exact hnow
  constructor
  · rintro ⟨snapshot, e, hs, he⟩
    refine ⟨(buildSnapshot_completes_iff hsound).mp ⟨snapshot, hs⟩, ?_⟩
    intro snapshot' hs'
    obtain rfl := Except.ok.inj (hs.symm.trans hs')
    exact (hevaluate snapshot hs).mp ⟨e, he⟩
  · rintro ⟨hids, hpaid⟩
    have hbuilt : ∃ snapshot, buildSnapshot observationId store sources now = .ok snapshot :=
      (buildSnapshot_completes_iff hsound).mpr hids
    obtain ⟨snapshot, hs⟩ := hbuilt
    obtain ⟨e, he⟩ := (hevaluate snapshot hs).mpr (hpaid snapshot hs)
    exact ⟨snapshot, e, hs, he⟩

end Reachable

namespace Fixture

def storedOrder (number : String) : OrderRecord where
  sourceId := number
  revision := "2026-09-05T10:30:00Z"
  createdAt := "2026-09-05T10:00:00Z"
  status := "completed"
  amount := "10"
  totalRefunded := "0"
  currency := "USD"
  paymentMethod := "stripe"
  transactionId := ""

def storedPage (number : String) : Envelope :=
  { scanPage "orders" "2026-09-05T10:00:00Z" "2026-09-05T12:00:00Z" with
    records := [.order (storedOrder number)] }

theorem run_storedPage {number : String} (h : (storedOrder number).Valid) :
    Run (Guarded (batchStep Sha256.hexdigest shop) ValidCall) {} [(noon, storedPage number)]
      (({} : Server).atNoon (storedPage number)) := by
  refine Run.nil.snoc ⟨fun r hr => ?_, rfl⟩
  obtain rfl := List.mem_singleton.mp hr
  exact h

def liveStore : StoreRow := ⟨"organization", "store", .live, {}⟩

/-- An account without any rows. -/
def freshLink : StoreLink := ⟨{ accountId := "acct_1" }, .verified⟩

theorem valid_freshLink : freshLink.stripe.StripeValid where
  account := by decide
  cursors := fun _ h => absurd h Table.not_mem_empty
  rows := fun _ h => absurd h Table.not_mem_empty
  returned := Nat.zero_le _

end Fixture

open Fixture

theorem run_completes_plain : ∃ s : Server,
    (∃ p ∈ s.db.facts.projections.rows, p.kind = .order ∧ p.sourceId = "101") ∧
    ((∃ snapshot evaluation, buildSnapshot (fun _ => "") liveStore
        ⟨some freshLink, some (shopConnector s 0), []⟩ noon = .ok snapshot ∧
      evaluateInRange Sha256.hexdigest snapshot = .ok evaluation) ↔
    (∀ p ∈ s.db.facts.projections, p.kind = .order → p.sourceId.toList.getLast? ≠ some '\n') ∧
      ∀ snapshot, buildSnapshot (fun _ => "") liveStore
        ⟨some freshLink, some (shopConnector s 0), []⟩ noon = .ok snapshot →
        snapshot.Gated → snapshot.PaidInRange Sha256.hexdigest) :=
  ⟨({} : Server).atNoon (storedPage "101"), by decide +kernel,
    run_completes_iff (run_storedPage (by decide +kernel)) (some freshLink)
      (fun l hl => Option.some.inj hl ▸ valid_freshLink) (by decide) (fun _ => "") liveStore 0 []⟩

/-- The schema accepts the record, the page stores it, and no run of the store completes. -/
theorem newline_number_poisons : ∃ (s : Server) (link : StoreLink) (r : OrderRecord), r.Valid ∧
    Run (Guarded (batchStep Sha256.hexdigest shop) ValidCall) {} [(noon, storedPage r.sourceId)] s ∧
    (∃ a ∈ s.accepted, ∃ result ∈ a.result.results, result.sourceId = r.sourceId ∧
      result.status = .stored .accepted) ∧
    link.stripe.StripeValid ∧
    ¬ ∃ snapshot evaluation, buildSnapshot (fun _ => "") liveStore
        ⟨some link, some (shopConnector s 0), []⟩ noon = .ok snapshot ∧
      evaluateInRange Sha256.hexdigest snapshot = .ok evaluation := by
  have hv : (storedOrder "101\n").Valid := by decide +kernel
  have hrun := run_storedPage hv
  have hlink : ∀ l ∈ some freshLink, l.stripe.StripeValid :=
    fun l hl => Option.some.inj hl ▸ valid_freshLink
  refine ⟨_, freshLink, storedOrder "101\n", hv, hrun, by decide +kernel, valid_freshLink, ?_⟩
  rintro ⟨snapshot, e, hs, -⟩
  obtain ⟨p, hp, hk, hid⟩ : ∃ p ∈ (({} : Server).atNoon
      (storedPage "101\n")).db.facts.projections.rows, p.kind = .order ∧ p.sourceId = "101\n" := by
    decide +kernel
  have hnewline := (buildSnapshot_completes_iff (sound_of_run hrun hlink)).mp ⟨snapshot, hs⟩ p hp hk
  rw [hid] at hnewline
  exact absurd hnewline (by decide)

end LedgerGuard
