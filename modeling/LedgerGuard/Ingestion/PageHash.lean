import LedgerGuard.Core.Decoding
import LedgerGuard.Ingestion.Batch

/-! # What a page hash tells

The canonical content of a page determines everything of the page that a retry
may not renew, so two pages with one hash are the same page unless the hash
function collides on them.
-/

namespace LedgerGuard.Ingestion

open Function

theorem lookup_member {α : Type} {key : String} {encode : α → Json} {value : Option α}
    {k : String} : (member key encode value).lookup k =
      if k = key then value.map encode else none := by
  unfold member
  by_cases hk : k = key
  · cases value <;> simp [hk]
  · cases value <;> simp [hk]

theorem map_canonical_inj {α : Type} {encode : α → Json} (he : Injective (canonical ∘ encode))
    {a b : Option α} (h : (a.map encode).map canonical = (b.map encode).map canonical) : a = b := by
  rw [Option.map_map, Option.map_map] at h
  exact Option.map_injective he h

def StripeIds.fields (ids : StripeIds) : List (String × Json) :=
  member "payment_intent" .str ids.paymentIntent ++ member "charge" .str ids.charge ++
    member "checkout_session" .str ids.checkoutSession

theorem StripeIds.nodup_fields (ids : StripeIds) : (ids.fields.map Prod.fst).Nodup := by
  obtain ⟨intent, charge, session⟩ := ids
  unfold fields member
  cases intent <;> cases charge <;> cases session <;> simp

theorem StripeIds.canonical_inj {a b : StripeIds} :
    canonical (.obj a.fields) = canonical (.obj b.fields) ↔ a = b := by
  refine ⟨fun h => ?_, fun h => by rw [h]⟩
  have hl := canonical_obj_lookup a.nodup_fields b.nodup_fields h
  simp only [fields, List.lookup_append, lookup_member] at hl
  have hi := map_canonical_inj canonical_str_injective
    (by simpa using hl "payment_intent")
  have hc := map_canonical_inj canonical_str_injective (by simpa using hl "charge")
  have hs := map_canonical_inj canonical_str_injective (by simpa using hl "checkout_session")
  obtain ⟨intent, charge, session⟩ := a
  dsimp only at hi hc hs
  rw [hi, hc, hs]

theorem canonical_nullable_injective :
    Injective (canonical ∘ fun t : Option String => t.elim Json.null Json.str) := by
  have hne : ∀ s : String, canonical (.str s) ≠ canonical .null := by
    rintro s h
    have hl := congrArg String.toList h
    simp only [canonical, toList_quote] at hl
    cases (List.cons.inj hl).1
  rintro (_ | a) (_ | b) h
  · rfl
  · exact absurd h.symm (hne b)
  · exact absurd h (hne a)
  · exact congrArg some (canonical_str_inj.mp h)

theorem canonical_nullable_inj {a b : Option String} :
    canonical (a.elim .null .str) = canonical (b.elim .null .str) ↔ a = b :=
  canonical_nullable_injective.eq_iff

theorem canonical_strings_inj {xs ys : List String} :
    canonical (Json.strings xs) = canonical (Json.strings ys) ↔ xs = ys := by
  constructor
  · intro h
    have hm := canonical_arr_inj h
    rw [List.map_map, List.map_map] at hm
    exact List.map_injective_iff.mpr canonical_str_injective hm
  · rintro rfl
    rfl

namespace WooRecord

def orderFields (r : OrderRecord) : List (String × Json) :=
  [("kind", .str "order"), ("source_id", .str r.sourceId),
      ("revision", .str r.revision), ("created_at", .str r.createdAt), ("status", .str r.status),
      ("amount", .str r.amount), ("total_refunded", .str r.totalRefunded),
      ("currency", .str r.currency), ("payment_method", .str r.paymentMethod),
      ("transaction_id", .str r.transactionId), ("stripe_ids", .obj r.stripeIds.fields),
      ("paid_at", r.paidAt.elim .null .str)] ++
    member "completed_at" (fun t : Option String => t.elim .null .str) r.completedAt ++
    member "order_number" .str r.orderNumber ++
    [("refund_ids", .strings r.refundIds)]

theorem nodup_orderFields (r : OrderRecord) : ((orderFields r).map Prod.fst).Nodup := by
  unfold orderFields member
  cases r.completedAt <;> cases r.orderNumber <;> simp

theorem order_canonical_inj {a b : OrderRecord}
    (h : canonical (WooRecord.order a).toJson = canonical (WooRecord.order b).toJson) : a = b := by
  have hl := canonical_obj_lookup (nodup_orderFields a) (nodup_orderFields b) h
  simp only [orderFields, List.lookup_append, lookup_member] at hl
  have hc := map_canonical_inj canonical_nullable_injective
    (by simpa [List.lookup_cons] using hl "completed_at")
  have hn := map_canonical_inj canonical_str_injective
    (by simpa [List.lookup_cons] using hl "order_number")
  -- With the same optional members the keys of both records are the same.
  have hk : (orderFields a).map Prod.fst = (orderFields b).map Prod.fst := by
    unfold orderFields
    rw [hc, hn]
    simp only [List.map_append]
    rfl
  have hv := canonical_obj_values hk (nodup_orderFields a) h
  unfold orderFields at hv
  rw [hc, hn] at hv
  cases a
  cases b
  dsimp only at hc hn hv
  subst hc hn
  simp [canonical_str_inj, StripeIds.canonical_inj, canonical_nullable_inj,
    canonical_strings_inj] at hv
  simp [hv]

def refundFields (r : RefundRecord) : List (String × Json) :=
  [("kind", .str "refund"), ("source_id", .str r.sourceId),
      ("parent_id", .str r.parentId), ("revision", .str r.revision),
      ("created_at", .str r.createdAt), ("amount", .str r.amount), ("currency", .str r.currency),
      ("status", .str r.status)]

theorem nodup_refundFields (r : RefundRecord) : ((refundFields r).map Prod.fst).Nodup := by
  simp [refundFields]

theorem refund_canonical_inj {a b : RefundRecord}
    (h : canonical (WooRecord.refund a).toJson = canonical (WooRecord.refund b).toJson) : a = b := by
  have hk : (refundFields a).map Prod.fst = (refundFields b).map Prod.fst := rfl
  have hv := canonical_obj_values hk (nodup_refundFields a) h
  cases a
  cases b
  simpa [refundFields, canonical_str_inj] using hv

theorem kind_ne {a : OrderRecord} {b : RefundRecord} :
    canonical (WooRecord.order a).toJson ≠ canonical (WooRecord.refund b).toJson := by
  rintro h
  have hl := canonical_obj_lookup (nodup_orderFields a) (nodup_refundFields b) h "kind"
  simp [orderFields, refundFields, canonical_str_inj] at hl

theorem toJson_injective : Injective (canonical ∘ toJson) := by
  rintro (a | a) (b | b) h
  · rw [order_canonical_inj h]
  · exact absurd h kind_ne
  · exact absurd h.symm kind_ne
  · rw [refund_canonical_inj h]

end WooRecord

def Envelope.fields (e : Envelope) : List (String × Json) :=
  [("schema_version", .str "1.0"), ("installation_id", .str e.installationId),
    ("covered_from", .str e.coveredFrom), ("covered_through", .str e.coveredThrough),
    ("scan_id", .str e.scanId), ("page", .int e.page), ("final_page", .bool e.finalPage),
    ("records", .arr (e.records.map WooRecord.toJson))]

theorem Envelope.content_inj {a b : Envelope} (h : canonical a.content = canonical b.content) :
    b = { a with requestId := b.requestId, sentAt := b.sentAt } := by
  have hk : a.fields.map Prod.fst = b.fields.map Prod.fst := rfl
  have hn : (a.fields.map Prod.fst).Nodup := by simp [fields]
  have hv := canonical_obj_values hk hn h
  simp [fields, canonical_str_inj, canonical_int_inj, canonical_bool_inj] at hv
  obtain ⟨hi, hf, ht, hs, hp, hl, hr⟩ := hv
  have hr := canonical_arr_inj hr
  rw [List.map_map, List.map_map] at hr
  have hr := List.map_injective_iff.mpr WooRecord.toJson_injective hr
  cases a
  cases b
  simp_all

end LedgerGuard.Ingestion
