import LedgerGuard.Core.FindingKeys
import LedgerGuard.Core.Permutation
import LedgerGuard.Core.TimeText

/-! # What the digest of an evaluation tells

The digest is the hash of the whole snapshot, with its collections sorted. Every member
of it can be read back from the text, so valid snapshots with one text hold the same
facts, up to the order of the collections.
-/

namespace LedgerGuard

open Ordered

section Members

variable {a b : Instant}

theorem canonical_time_inj (ha : IsDatetime a) (hb : IsDatetime b)
    (h : canonical (.time a) = canonical (.time b)) : a = b :=
  isoformat_inj ha hb (canonical_str_inj.mp h)

theorem canonical_null_ne_time : canonical .null ≠ canonical (.time a) := by
  intro h
  have hl := congrArg String.toList h
  rw [Json.time, canonical, canonical, toList_quote] at hl
  cases (List.cons.inj hl).1

theorem canonical_time?_inj {a b : Option Instant} (ha : ∀ t ∈ a, IsDatetime t)
    (hb : ∀ t ∈ b, IsDatetime t) (h : canonical (.time? a) = canonical (.time? b)) : a = b := by
  cases a with
  | none =>
    cases b with
    | none => rfl
    | some b => exact absurd h canonical_null_ne_time
  | some a =>
    cases b with
    | none => exact absurd h.symm canonical_null_ne_time
    | some b => rw [canonical_time_inj (ha a rfl) (hb b rfl) h]

theorem PaymentStatus.render_injective : Function.Injective PaymentStatus.render := by
  intro a b h
  cases a <;> cases b <;> first | rfl | exact absurd h (by decide)

theorem OrderStatus.render_injective : Function.Injective OrderStatus.render := by
  intro a b h
  cases a <;> cases b <;> first | rfl | exact absurd h (by decide)

theorem RefundSource.render_injective : Function.Injective RefundSource.render := by
  intro a b h
  cases a <;> cases b <;> first | rfl | exact absurd h (by decide)

theorem RefundStatus.render_injective : Function.Injective RefundStatus.render := by
  intro a b h
  cases a <;> cases b <;> first | rfl | exact absurd h (by decide)

theorem Money.toJson_inj {a b : Money} (h : canonical a.toJson = canonical b.toJson) : a = b := by
  unfold Money.toJson at h
  have hv := canonical_obj_values (by simp only [List.map]) (by simp only [List.map]; decide) h
  cases a
  cases b
  simpa [canonical_str_inj, canonical_int_inj] using hv

end Members

structure Payment.Dated (p : Payment) : Prop where
  createdAt : IsDatetime p.createdAt
  changedAt : IsDatetime p.changedAt
  succeededAt : ∀ t ∈ p.succeededAt, IsDatetime t

structure Order.Dated (o : Order) : Prop where
  createdAt : IsDatetime o.createdAt
  changedAt : IsDatetime o.changedAt
  paidAt : ∀ t ∈ o.paidAt, IsDatetime t

structure Coverage.Dated (c : Coverage) : Prop where
  coveredFrom : IsDatetime c.coveredFrom
  coveredThrough : IsDatetime c.coveredThrough
  observedAt : IsDatetime c.observedAt

/-- Every datetime of the snapshot is one that Python can hold. -/
structure Snapshot.Dated (s : Snapshot) : Prop where
  now : IsDatetime s.now
  windowFrom : IsDatetime s.windowFrom
  payments : ∀ p ∈ s.payments, p.Dated
  orders : ∀ o ∈ s.orders, o.Dated
  refunds : ∀ r ∈ s.refunds, IsDatetime r.changedAt
  coverage : ∀ c ∈ s.coverage, c.Dated

theorem Payment.toJson_inj {p q : Payment} (hp : p.Dated) (hq : q.Dated)
    (h : canonical p.toJson = canonical q.toJson) : p = q := by
  unfold Payment.toJson at h
  have hv := canonical_obj_values (by simp only [List.map]) (by simp only [List.map]; decide) h
  simp only [List.map_cons, List.map_nil, Function.comp_apply, List.cons.injEq, and_true,
    canonical_str_inj] at hv
  obtain ⟨hid, haccount, hmode, hstatus, hamount, hreceived, hcreated, hchanged, hsucceeded,
    hmethod, hcapture, hcharges, hsessions, hstore, horder, hobservation⟩ := hv
  have hmode := Mode.render_injective hmode
  have hstatus := PaymentStatus.render_injective hstatus
  have hamount := Money.toJson_inj hamount
  have hreceived := Money.toJson_inj hreceived
  have hcreated := canonical_time_inj hp.createdAt hq.createdAt hcreated
  have hchanged := canonical_time_inj hp.changedAt hq.changedAt hchanged
  have hsucceeded := canonical_time?_inj hp.succeededAt hq.succeededAt hsucceeded
  have hcharges := strings_inj hcharges
  have hsessions := strings_inj hsessions
  cases p
  cases q
  congr

theorem Order.toJson_inj {o o' : Order} (ho : o.Dated) (ho' : o'.Dated)
    (h : canonical o.toJson = canonical o'.toJson) : o = o' := by
  unfold Order.toJson at h
  have hv := canonical_obj_values (by simp only [List.map]) (by simp only [List.map]; decide) h
  simp only [List.map_cons, List.map_nil, Function.comp_apply, List.cons.injEq, and_true,
    canonical_str_inj] at hv
  obtain ⟨hid, hstore, hmode, hstatus, hamount, hrefunded, hcreated, hchanged, hpaid, hmethod,
    htransaction, hintent, hcharge, hsession, hobservation⟩ := hv
  have hmode := Mode.render_injective hmode
  have hstatus := OrderStatus.render_injective hstatus
  have hamount := Money.toJson_inj hamount
  have hrefunded := Money.toJson_inj hrefunded
  have hcreated := canonical_time_inj ho.createdAt ho'.createdAt hcreated
  have hchanged := canonical_time_inj ho.changedAt ho'.changedAt hchanged
  have hpaid := canonical_time?_inj ho.paidAt ho'.paidAt hpaid
  cases o
  cases o'
  congr

theorem Refund.toJson_inj {r r' : Refund} (hr : IsDatetime r.changedAt)
    (hr' : IsDatetime r'.changedAt) (h : canonical r.toJson = canonical r'.toJson) : r = r' := by
  unfold Refund.toJson at h
  have hv := canonical_obj_values (by simp only [List.map]) (by simp only [List.map]; decide) h
  simp only [List.map_cons, List.map_nil, Function.comp_apply, List.cons.injEq, and_true,
    canonical_str_inj] at hv
  obtain ⟨hid, hsource, hparent, hamount, hstatus, hchanged, hobservation⟩ := hv
  have hsource := RefundSource.render_injective hsource
  have hamount := Money.toJson_inj hamount
  have hstatus := RefundStatus.render_injective hstatus
  have hchanged := canonical_time_inj hr hr' hchanged
  cases r
  cases r'
  congr

theorem Coverage.toJson_inj {c c' : Coverage} (hc : c.Dated) (hc' : c'.Dated)
    (h : canonical c.toJson = canonical c'.toJson) : c = c' := by
  unfold Coverage.toJson at h
  have hv := canonical_obj_values (by simp only [List.map]) (by simp only [List.map]; decide) h
  simp only [List.map_cons, List.map_nil, Function.comp_apply, List.cons.injEq, and_true,
    canonical_str_inj, canonical_bool_inj, canonical_int_inj] at hv
  obtain ⟨hsource, hfrom, hthrough, hobserved, hcomplete, hoffset⟩ := hv
  have hfrom := canonical_time_inj hc.coveredFrom hc'.coveredFrom hfrom
  have hthrough := canonical_time_inj hc.coveredThrough hc'.coveredThrough hthrough
  have hobserved := canonical_time_inj hc.observedAt hc'.observedAt hobserved
  cases c
  cases c'
  congr

theorem Policy.toJson_inj {p q : Policy} (h : canonical p.toJson = canonical q.toJson) :
    p = q := by
  have hday : ∀ {low high d : Duration}, 0 ≤ low → high < 86400000000 → low ≤ d ∧ d ≤ high →
      0 ≤ d ∧ d < 86400000000 := fun hl hh hd => ⟨hl.trans hd.1, hd.2.trans_lt hh⟩
  unfold Policy.toJson at h
  have hv := canonical_obj_values (by simp only [List.map]) (by simp only [List.map]; decide) h
  simp only [List.map_cons, List.map_nil, Function.comp_apply, List.cons.injEq, and_true,
    canonical_str_inj, canonical_bool_inj, canonical_int_inj, Nat.cast_inj] at hv
  obtain ⟨hversion, hinstant, hasync, hrefund, hfreshness, hdisabled, hshadow⟩ := hv
  have hinstant := durationString_inj (hday (by decide) (by decide) p.instantGrace_mem)
    (hday (by decide) (by decide) q.instantGrace_mem) hinstant
  have hasync := durationString_inj (hday (by decide) (by decide) p.asyncGrace_mem)
    (hday (by decide) (by decide) q.asyncGrace_mem) hasync
  have hrefund := durationString_inj (hday (by decide) (by decide) p.refundGrace_mem)
    (hday (by decide) (by decide) q.refundGrace_mem) hrefund
  have hfreshness := durationString_inj (hday (by decide) (by decide) p.freshness_mem)
    (hday (by decide) (by decide) q.freshness_mem) hfreshness
  have hdisabled := List.map_injective_iff.mpr RuleCode.render_injective (strings_inj hdisabled)
  cases p
  cases q
  congr

theorem perm_of_texts {α : Type*} {encode : α → Json} {xs ys : List α} (hx : xs.Nodup)
    (hy : ys.Nodup)
    (hinj : ∀ a ∈ xs, ∀ b ∈ ys, canonical (encode a) = canonical (encode b) → a = b)
    (h : canonical (.arr (sortBy canonical (xs.map encode))) =
      canonical (.arr (sortBy canonical (ys.map encode)))) : xs.Perm ys := by
  have hp : ((xs.map encode).map canonical).Perm ((ys.map encode).map canonical) :=
    ((sortBy_perm canonical _).map canonical).symm.trans
      ((List.Perm.of_eq (canonical_arr_inj h)).trans ((sortBy_perm canonical _).map canonical))
  rw [List.map_map, List.map_map] at hp
  rw [List.perm_ext_iff_of_nodup hx hy]
  intro a
  constructor
  · intro ha
    obtain ⟨b, hb, he⟩ := List.mem_map.mp (hp.mem_iff.mp (List.mem_map_of_mem ha))
    rwa [hinj a ha b hb he.symm]
  · intro ha
    obtain ⟨b, hb, he⟩ := List.mem_map.mp (hp.mem_iff.mpr (List.mem_map_of_mem ha))
    rwa [← hinj b hb a ha he]

theorem permuted_of_text {s t : Snapshot} (hs : s.Dated) (ht : t.Dated)
    (hvs : s.validate = .ok ()) (hvt : t.validate = .ok ())
    (h : canonical t.orderedInput = canonical s.orderedInput) : t.Permuted s := by
  unfold Snapshot.orderedInput at h
  have hv := canonical_obj_values (by simp only [List.map]) (by simp only [List.map]; decide) h
  simp only [List.map_cons, List.map_nil, Function.comp_apply, List.cons.injEq, and_true,
    canonical_str_inj, canonical_bool_inj] at hv
  obtain ⟨horganization, hstore, haccount, hmode, hnow, hwindow, hpayments, horders, hrefunds,
    hcoverage, hverified, hconflict, hhints, hpolicy⟩ := hv
  exact
    { organizationId := horganization
      storeId := hstore
      accountId := haccount
      mode := Mode.render_injective hmode
      now := canonical_time_inj ht.now hs.now hnow
      windowFrom := canonical_time_inj ht.windowFrom hs.windowFrom hwindow
      payments := perm_of_texts (Snapshot.nodup_of_valid hvt).1.of_map
        (Snapshot.nodup_of_valid hvs).1.of_map
        (fun p hp q hq => Payment.toJson_inj (ht.payments p hp) (hs.payments q hq)) hpayments
      orders := perm_of_texts (Snapshot.nodup_of_valid hvt).2.of_map
        (Snapshot.nodup_of_valid hvs).2.of_map
        (fun o ho o' ho' => Order.toJson_inj (ht.orders o ho) (hs.orders o' ho')) horders
      refunds := perm_of_texts (Snapshot.refunds_nodup_of_valid hvt).of_map
        (Snapshot.refunds_nodup_of_valid hvs).of_map
        (fun r hr r' hr' => Refund.toJson_inj (ht.refunds r hr) (hs.refunds r' hr')) hrefunds
      coverage := perm_of_texts (Snapshot.coverage_nodup_of_valid hvt).of_map
        (Snapshot.coverage_nodup_of_valid hvs).of_map
        (fun c hc c' hc' => Coverage.toJson_inj (ht.coverage c hc) (hs.coverage c' hc')) hcoverage
      linkVerified := hverified
      linkConflict := hconflict
      ambiguousOrderHints := strings_inj hhints
      policy := Policy.toJson_inj hpolicy }

end LedgerGuard
