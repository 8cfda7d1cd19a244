import LedgerGuard.Core.Decoding
import LedgerGuard.Core.Fixtures
import LedgerGuard.Core.Locality
import LedgerGuard.Core.SameOrders
import LedgerGuard.Lib.Raising
import LedgerGuard.Lib.Sha256

/-! # Payments that are tagged for another store

Stores share one Stripe account, so a snapshot holds payments of other stores. Those
that no order cites are linked to no order. The one rule that still looks at them is
the missing payment, which lists every similar payment of the account.
-/

namespace LedgerGuard

open Ordered Grouping Sweep Raising

variable {sha256 : String → String} {b s t : Snapshot} {o : Order} {p : Payment}
  {fs ft : List Payment} {rs rt : List Refund} {e e' : Evaluation} {pid : String}

/-- Tagged for another store, with no alias that an order of this one cites. -/
structure Payment.Foreign (s : Snapshot) (p : Payment) : Prop where
  tagged : p.storeHint ≠ ""
  other : p.storeHint ≠ s.storeId
  uncited : ∀ o ∈ s.orders, ∀ ref ∈ o.references, ref ∉ p.aliases

/-- The snapshot has some foreign payments and refunds of them more than the common one. -/
structure AddsForeign (b s : Snapshot) (fs : List Payment) (rs : List Refund) : Prop where
  frame : SameFrame b s
  orders : b.orders.Perm s.orders
  payments : s.payments.Perm (b.payments ++ fs)
  refunds : s.refunds.Perm (b.refunds ++ rs)
  foreign : ∀ p ∈ fs, p.Foreign s
  returned : ∀ r ∈ rs, r.source = .stripe ∧ ∃ p ∈ fs, r.parentId = p.id

/-- The payment has the amount of the order and was created within ten minutes of it. -/
def Payment.Similar (p : Payment) (o : Order) : Prop :=
  p.amount = o.amount ∧ |p.createdAt - o.createdAt| ≤ seconds 600

instance (p : Payment) (o : Order) : Decidable (p.Similar o) :=
  inferInstanceAs (Decidable (_ ∧ _))

/-- The order reaches the rule that a paid order misses its payment. -/
structure Snapshot.MissesPayment (sha256 : String → String) (s : Snapshot) (o : Order) : Prop where
  fresh : s.stale = []
  verified : s.linkVerified = true
  unconflicted : s.linkConflict = false
  admitted : Admitted sha256 s o
  unpaid : succeeded (s.group o) = []
  paid : o.status ∈ paidStatuses
  on : RuleCode.pi003 ∈ s.rules

/-- What a stored proposal shows, its evidence as text. -/
def Proposal.shown (p : Proposal) : Summary × Severity × String × String :=
  (p.summary, p.severity, p.ruleVersion, p.evidenceJson)

theorem Payment.Foreign.not_linked (h : p.Foreign s) (ho : o ∈ s.orders) : ¬ Linked s o p := by
  rintro (⟨ref, href, ha⟩ | hh)
  · exact h.uncited o ho ref href ha
  · rcases (mem_hintsByOrder.mp hh).2.2.1 with hempty | hstore
    · exact h.tagged hempty
    · exact h.other hstore

section Adds

variable (h : AddsForeign b s fs rs)

include h

theorem AddsForeign.mem_payments : p ∈ s.payments ↔ p ∈ b.payments ∨ p ∈ fs := by
  rw [h.payments.mem_iff, List.mem_append]

theorem AddsForeign.ids_nodup (hs : (s.payments.map (·.id)).Nodup) :
    (b.payments.map (·.id) ++ fs.map (·.id)).Nodup := by
  rw [← List.map_append]
  exact (h.payments.map _).nodup_iff.mp hs

theorem AddsForeign.part (hs : (s.payments.map (·.id)).Nodup) : Part b s where
  frame := h.frame
  payments := (List.sublist_append_left _ _).subperm.trans h.payments.symm.subperm
  orders := h.orders.subperm
  refunds := (List.sublist_append_left _ _).subperm.trans h.refunds.symm.subperm
  linked o ho p hp hl := by
    have hown : p ∈ b.payments := (h.mem_payments.mp hp).resolve_right fun hf =>
      (h.foreign p hf).not_linked ho hl
    exact iff_of_true (h.orders.mem_iff.mpr ho) hown
  stripe r hr hsrc p hp he := by
    refine (List.mem_append.mp (h.refunds.mem_iff.mp hr)).resolve_right fun hr' => ?_
    obtain ⟨-, q, hq, hparent⟩ := h.returned r hr'
    have hdisjoint := List.disjoint_of_nodup_append (h.ids_nodup hs)
    exact hdisjoint (List.mem_map.mpr ⟨p, hp, rfl⟩)
      (List.mem_map.mpr ⟨q, hq, hparent.symm.trans he⟩)
  woo r hr hsrc o ho he := by
    refine (List.mem_append.mp (h.refunds.mem_iff.mp hr)).resolve_right fun hr' => ?_
    rw [(h.returned r hr').1] at hsrc
    cases hsrc

theorem AddsForeign.sameOrders (hs : (s.payments.map (·.id)).Nodup) : SameOrders b s :=
  ⟨h.frame, h.orders, fun _ ho => (h.part hs).view (h.orders.mem_iff.mpr ho)⟩

theorem AddsForeign.paymentPart_proposals (hp : p ∈ fs) :
    (paymentPart sha256 s p).proposals = [] := by
  rw [List.eq_nil_iff_forall_not_mem]
  intro f hf
  unfold paymentPart settlePayment at hf
  split_ifs at hf with _ _ hstore
  · exact List.not_mem_nil hf
  · exact List.not_mem_nil hf
  · exact (h.foreign p hp).other hstore
  · exact List.not_mem_nil hf

end Adds

theorem mem_similarPayments :
    pid ∈ similarPayments s o ↔ ∃ p ∈ s.payments, p.Similar o ∧ p.id = pid := by
  simp [similarPayments, Payment.Similar, and_assoc]

theorem similarPayments_ids_nodup (hs : (s.payments.map (·.id)).Nodup) :
    ((s.payments.filter fun p =>
      p.amount = o.amount && |p.createdAt - o.createdAt| ≤ seconds 600).map (·.id)).Nodup :=
  hs.sublist (List.filter_sublist.map _)

theorem similarPayments_eq_iff (hs : (s.payments.map (·.id)).Nodup)
    (ht : (t.payments.map (·.id)).Nodup) :
    similarPayments s o = similarPayments t o ↔
      ∀ pid, (∃ p ∈ s.payments, p.Similar o ∧ p.id = pid) ↔
        ∃ p ∈ t.payments, p.Similar o ∧ p.id = pid := by
  constructor
  · intro h pid
    rw [← mem_similarPayments, ← mem_similarPayments, h]
  · intro h
    refine sortBy_congr ?_ ?_
    · rw [List.map_id]
      exact similarPayments_ids_nodup hs
    · rw [List.perm_ext_iff_of_nodup (similarPayments_ids_nodup hs) (similarPayments_ids_nodup ht)]
      intro pid
      have hmem := h pid
      rw [← mem_similarPayments, ← mem_similarPayments] at hmem
      simpa only [similarPayments, mem_sortBy] using hmem

theorem AddsForeign.similarPayments_iff (h : AddsForeign b s fs rs) (h' : AddsForeign b t ft rt)
    (hs : (s.payments.map (·.id)).Nodup) (ht : (t.payments.map (·.id)).Nodup) :
    similarPayments s o = similarPayments t o ↔
      ∀ pid, (∃ p ∈ fs, p.Similar o ∧ p.id = pid) ↔ ∃ p ∈ ft, p.Similar o ∧ p.id = pid := by
  have hown : ∀ {u : Snapshot} {gs : List Payment} {us : List Refund},
      AddsForeign b u gs us → (u.payments.map (·.id)).Nodup → ∀ pid,
      (∃ p ∈ gs, p.Similar o ∧ p.id = pid) → ¬ ∃ p ∈ b.payments, p.Similar o ∧ p.id = pid := by
    rintro u gs us hu hn pid ⟨p, hp, -, rfl⟩ ⟨q, hq, -, he⟩
    exact List.disjoint_of_nodup_append (hu.ids_nodup hn) (List.mem_map.mpr ⟨q, hq, rfl⟩)
      (List.mem_map.mpr ⟨p, hp, he.symm⟩)
  rw [similarPayments_eq_iff hs ht]
  simp only [h.mem_payments, h'.mem_payments, or_and_right, exists_or]
  refine forall_congr' fun pid => ⟨fun hiff => ?_, fun hiff => or_congr Iff.rfl hiff⟩
  constructor
  · intro hf
    exact (hiff.mp (Or.inr hf)).resolve_left (hown h hs pid hf)
  · intro hf
    exact (hiff.mpr (Or.inr hf)).resolve_left (hown h' ht pid hf)

def Evidence.fields (e : Evidence) : List (String × Json) :=
  [("schema_version", .str "1.0"), ("rule_version", .str "1.0.0"),
    ("match_version", .str "1.0.0"), ("policy_version", .int e.policyVersion),
    ("coverage", .arr (e.coverage.map Coverage.toJson))] ++ e.facts.toFields

theorem Evidence.fields_nodup (e : Evidence) : (e.fields.map Prod.fst).Nodup := by
  have hfacts : (e.facts.toFields.map Prod.fst).Sublist
      ["stale_sources", "reason", "order", "references", "unresolved", "payment_id", "order_ids",
        "payments", "compensated_duplicate_payment_ids", "candidate_payment_ids",
        "candidate_confidence", "stripe_refunds", "woo_refunds", "stripe_refunded_minor",
        "woo_refunded_minor", "manual_status_possible", "payment", "confirmed_store_id"] := by
    have hkeep : ∀ (kv : String × Option Json) (j : String × Json),
        (kv.2.map fun j => (kv.1, j)) = some j → j.1 = kv.1 := by
      intro kv j hj
      obtain ⟨j', -, rfl⟩ := Option.map_eq_some_iff.mp hj
      rfl
    exact map_filterMap_sublist hkeep _
  unfold Evidence.fields
  rw [List.map_append]
  refine List.Nodup.sublist (List.Sublist.append_left hfacts _) ?_
  simp only [List.map_cons, List.map_nil]
  decide

theorem strings_inj {xs ys : List String}
    (h : canonical (.strings xs) = canonical (.strings ys)) : xs = ys := by
  have hinj : Function.Injective fun x : String => canonical (.str x) :=
    fun x y hxy => canonical_str_inj.mp hxy
  have hmap := canonical_arr_inj h
  rw [List.map_map, List.map_map] at hmap
  exact List.map_injective_iff.mpr hinj hmap

theorem candidates_of_evidenceJson {f f' : Proposal} {xs ys : List String}
    (hx : f.evidence.facts.candidatePaymentIds = some xs)
    (hy : f'.evidence.facts.candidatePaymentIds = some ys)
    (h : f.evidenceJson = f'.evidenceJson) : xs = ys := by
  have hlookup : ∀ {g : Proposal} {zs : List String},
      g.evidence.facts.candidatePaymentIds = some zs →
      g.evidence.fields.lookup "candidate_payment_ids" = some (.strings zs) := by
    intro g zs hz
    rw [lookup_eq_some g.evidence.fields_nodup]
    refine List.mem_append_right _ (List.mem_filterMap.mpr
      ⟨("candidate_payment_ids", g.evidence.facts.candidatePaymentIds.map .strings), ?_, ?_⟩)
    · simp
    · rw [hz]
      rfl
  have htext := canonical_obj_lookup f.evidence.fields_nodup f'.evidence.fields_nodup h
    "candidate_payment_ids"
  rw [hlookup hx, hlookup hy] at htext
  exact strings_inj (Option.some.inj htext)

theorem missingRule_congr {c : ℕ} {group : List Payment} (hf : SameFrame t s)
    (hfacts : orderFacts t o group = orderFacts s o group)
    (hsimilar : succeeded group = [] → o.status ∈ paidStatuses → RuleCode.pi003 ∈ s.rules →
      similarPayments t o = similarPayments s o) :
    missingRule sha256 t o group c = missingRule sha256 s o group c := by
  unfold missingRule
  by_cases hm : succeeded group = [] ∧ o.status ∈ paidStatuses
  · rw [if_pos hm, if_pos hm, emit_congr hf, hf.policy, hfacts]
    by_cases hon : RuleCode.pi003 ∈ s.rules
    · rw [hsimilar hm.1 hm.2 hon]
    · rw [emit, emit, if_pos hon, if_pos hon]
  · rw [if_neg hm, if_neg hm]

theorem mem_pi003 (hs : s.Gated) (he : evaluate sha256 s = .ok e) {f : Proposal}
    (hf : f ∈ e.proposals) (hr : f.rule = .pi003) :
    ∃ o ∈ s.orders, f.identities = [.order o.id] ∧
      f.evidence.facts.candidatePaymentIds = some (similarPayments s o) := by
  have hone : ∀ o : Order, sortedSet Identity.render [.order o.id] = [.order o.id] := fun _ => rfl
  have hne : ∀ {rules : List RuleCode}, f.rule ∈ rules → RuleCode.pi003 ∈ rules := by
    intro rules hm
    rwa [hr] at hm
  rcases (mem_proposals hs he).mp hf with ⟨o, -, -, hp⟩ | ⟨pid, -, hp⟩ |
    ⟨o, ho, -, hp | ⟨r, hok, hp⟩⟩ | ⟨q, -, hp⟩
  · rw [(mem_conflictOutput hp).1] at hr
    cases hr
  · rw [(mem_claimOutput hp).1] at hr
    cases hr
  · simp only [paymentRules, duplicateRule, missingRule, pairRules, List.mem_append,
      List.mem_flatMap, List.mem_ite_nil_right] at hp
    rcases hp with (⟨-, hp⟩ | ⟨-, hp⟩) | ⟨q, -, ⟨-, hp⟩ | ⟨-, hp⟩⟩
    · rw [(mem_emit hp).2.1] at hr
      cases hr
    · obtain ⟨-, -, hids, hfacts⟩ := mem_emit hp
      exact ⟨o, ho, hids.trans (hone o), by rw [hfacts]⟩
    · rw [(mem_emit hp).2.1] at hr
      cases hr
    · rw [(mem_emit hp).2.1] at hr
      cases hr
  · exact absurd (hne (mem_refundRules hok hp).1) (by decide)
  · rw [(mem_paymentPart hp).1] at hr
    cases hr

theorem Snapshot.MissesPayment.proposed (h : s.MissesPayment sha256 o) (hv : s.Gated)
    (ho : o ∈ s.orders) (he : evaluate sha256 s = .ok e) :
    ∃ f ∈ e.proposals, f.rule = .pi003 ∧ f.identities = [.order o.id] ∧
      f.evidence.facts.candidatePaymentIds = some (similarPayments s o) := by
  obtain ⟨f, hf, hr, hids⟩ := exists_mem_emit sha256 h.on [.order o.id] (some o.amount)
    (s.matchConfidence o) (o.paidAt.getD o.changedAt + s.policy.instantGrace)
    { orderFacts s o (s.group o) with
      candidatePaymentIds := some (similarPayments s o)
      candidateConfidence := some (if similarPayments s o ≠ [] then 40 else 0) }
  have hmissing : f ∈ missingRule sha256 s o (s.group o) (s.matchConfidence o) := by
    rw [missingRule, if_pos ⟨h.unpaid, h.paid⟩]
    exact hf
  have hrules : f ∈ paymentRules sha256 s o (s.group o) (s.matchConfidence o) :=
    List.mem_append_left _ (List.mem_append_right _ hmissing)
  refine ⟨f, (mem_proposals hv he).mpr (Or.inr (Or.inr (Or.inl ⟨o, ho, h.admitted,
    Or.inl hrules⟩))), hr, hids, ?_⟩
  rw [(mem_emit hf).2.2.2]

theorem similarPayments_of_shown (hs : s.Gated) (ht : t.Gated) (he : evaluate sha256 s = .ok e)
    (he' : evaluate sha256 t = .ok e')
    (hshown : e.proposals.map Proposal.shown = e'.proposals.map Proposal.shown)
    (hm : s.MissesPayment sha256 o) (ho : o ∈ s.orders) (ho' : o ∈ t.orders) :
    similarPayments s o = similarPayments t o := by
  obtain ⟨f, hf, hr, hids, hc⟩ := hm.proposed hs ho he
  have hmem : f.shown ∈ e'.proposals.map Proposal.shown :=
    hshown ▸ List.mem_map.mpr ⟨f, hf, rfl⟩
  obtain ⟨f', hf', hff⟩ := List.mem_map.mp hmem
  have hrule : f'.rule = f.rule := congrArg (fun x => x.1.rule) hff
  have hidentities : f'.identities = f.identities := congrArg (fun x => x.1.identities) hff
  have hjson : f'.evidenceJson = f.evidenceJson := congrArg (fun x => x.2.2.2) hff
  obtain ⟨u, hu, hids', hc'⟩ := mem_pi003 ht he' hf' (hrule.trans hr)
  have hid : u.id = o.id := by
    rw [hidentities, hids] at hids'
    simpa [eq_comm] using hids'
  obtain rfl : u = o := eq_of_id_eq ht.orders_nodup hu ho' hid
  exact (candidates_of_evidenceJson hc' hc hjson).symm

section Two

variable (h : AddsForeign b s fs rs) (h' : AddsForeign b t ft rt)

include h h'

theorem AddsForeign.sameOrders_of_two (hs : s.Gated) (ht : t.Gated) : SameOrders s t :=
  (h.sameOrders hs.payments_nodup).of_common (h'.sameOrders ht.payments_nodup)
    ((h.part hs.payments_nodup).gated hs) hs ht

theorem AddsForeign.payments_proposals (hs : s.Gated) (ht : t.Gated) :
    (sortBy Payment.id s.payments).flatMap (fun p => (paymentPart sha256 t p).proposals) =
      (sortBy Payment.id t.payments).flatMap fun p => (paymentPart sha256 t p).proposals := by
  have hpart : paymentPart sha256 s = paymentPart sha256 t :=
    (h.sameOrders_of_two h' hs ht).paymentPart_eq hs ht
  rw [flatMap_sortBy_congr hs.payments_nodup h.payments, flatMap_sortBy_congr ht.payments_nodup
    h'.payments]
  · exact fun p hp => h'.paymentPart_proposals hp
  · intro p hp
    rw [← hpart]
    exact h.paymentPart_proposals hp

theorem AddsForeign.gated_of_two (hs : s.Gated) (ht : t.validate = .ok ()) : t.Gated :=
  hs.of_frame (h.frame.symm.trans h'.frame).symm ht

theorem AddsForeign.completes_iff (hs : s.validate = .ok ()) (ht : t.validate = .ok ()) :
    (∃ e, evaluate sha256 s = .ok e) ↔ ∃ e, evaluate sha256 t = .ok e := by
  have hframe : SameFrame s t := h.frame.symm.trans h'.frame
  rcases early_or_gated_of_valid hs with hearly | hgated
  · have hearly' : t.Early := by
      rw [Snapshot.Early, ← stale_congr hframe, ← hframe.linkVerified, ← hframe.linkConflict]
      exact hearly
    exact iff_of_true (completes_of_early hs hearly) (completes_of_early ht hearly')
  · have hgated' := h.gated_of_two h' hgated ht
    have hsame := h.sameOrders_of_two h' hgated hgated'
    rw [evaluate_ok_iff sha256 hgated, evaluate_ok_iff sha256 hgated']
    have hround : ∀ o ∈ t.orders, ((∃ d, orderPart sha256 s o = .ok d) ↔
        ∃ d, orderPart sha256 t o = .ok d) := by
      intro o ho
      exact completes_congr (orderPart_sketch hsame.frame (hsame.view o ho) hgated hgated'
        (hsame.orders.mem_iff.mpr ho) ho fun x _ => hsame.blocked_iff hgated hgated')
    simp only [hsame.orders.mem_iff]
    exact forall₂_congr hround

end Two

/-- Payments that are tagged for another store and cited by no order of this one change what a run
proposes exactly if those that are similar to an order that misses its payment differ. -/
theorem foreign_payments_silent_iff (h : AddsForeign b s fs rs) (h' : AddsForeign b t ft rt)
    (sha256 : String → String) :
    (s.validate = .ok () → t.validate = .ok () →
      ((∃ e, evaluate sha256 s = .ok e) ↔ ∃ e, evaluate sha256 t = .ok e)) ∧
    ∀ e e', evaluate sha256 s = .ok e → evaluate sha256 t = .ok e' →
      (e.proposals.map Proposal.shown = e'.proposals.map Proposal.shown ↔
        ∀ o ∈ s.orders, s.MissesPayment sha256 o → ∀ pid,
          (∃ p ∈ fs, p.Similar o ∧ p.id = pid) ↔ ∃ p ∈ ft, p.Similar o ∧ p.id = pid) := by
  refine ⟨h.completes_iff h', fun e e' he he' => ?_⟩
  have hframe : SameFrame s t := h.frame.symm.trans h'.frame
  rcases early_or_gated he with hearly | hs
  · -- a run that stops early has no order that reaches the rules
    have hsame : e'.proposals = e.proposals := proposals_of_early hframe.symm hearly he' he
    refine iff_of_true (by rw [hsame]) fun o _ hm => ?_
    rcases hearly with hstale | hl | hl
    · exact absurd hm.fresh hstale
    · rw [hm.verified] at hl
      cases hl
    · rw [hm.unconflicted] at hl
      cases hl
  · have ht : t.Gated := h.gated_of_two h' hs (evaluate_valid he')
    have hsame := h.sameOrders_of_two h' hs ht
    constructor
    · intro hshown o ho hm
      rw [← h.similarPayments_iff h' hs.payments_nodup ht.payments_nodup]
      exact similarPayments_of_shown hs ht he he' hshown hm ho (hsame.orders.mem_iff.mp ho)
    · intro hsimilar
      refine congrArg _ (hsame.proposals_eq hs ht he he' (fun o ho ha => ?_)
        (h.payments_proposals h' hs ht))
      have hso : o ∈ s.orders := hsame.orders.mem_iff.mpr ho
      refine missingRule_congr hframe (orderFacts_congr hframe (hsame.view o ho) hs ht) ?_
      intro hunpaid hpaid hon
      rw [h.similarPayments_iff h' hs.payments_nodup ht.payments_nodup]
      refine hsimilar o hso ⟨hs.fresh, hs.verified, hs.unconflicted,
        (hsame.admitted_iff hs ht ho).mpr ha, ?_, hpaid, ?_⟩
      · rw [hsame.group_eq hs ht ho]
        exact hunpaid
      · rw [rules_congr hframe]
        exact hon

namespace Fixture

/-- The order without a reference, and no payment that could be its own. -/
def unlinkedOrder : Order := { order with transactionId := "" }

def missedSnapshot : Snapshot := { snapshot with payments := [], orders := [unlinkedOrder] }

/-- A payment of the shared account that is tagged for another store. -/
def otherStorePayment : Payment :=
  { payment with id := "pi_two", storeHint := "store_two", orderHint := "", id_prefix := second_prefix }

def otherStoreSnapshot : Snapshot := { missedSnapshot with payments := [otherStorePayment] }

def smallPayment : Payment :=
  { otherStorePayment with
    amount := eur 500 small_le
    received := eur 500 small_le
    compatible := ⟨rfl, rfl⟩ }

def smallSnapshot : Snapshot := { missedSnapshot with payments := [smallPayment] }

theorem missedSnapshot_adds : AddsForeign missedSnapshot missedSnapshot [] [] :=
  ⟨⟨rfl, rfl, rfl, rfl, rfl, rfl, rfl, rfl, rfl, rfl, rfl⟩, .refl _, .refl _, .refl _,
    List.forall_mem_nil _, List.forall_mem_nil _⟩

theorem missedSnapshot_gated : missedSnapshot.Gated := ⟨rfl, by decide, rfl, rfl⟩

theorem missedSnapshot_misses : missedSnapshot.MissesPayment Sha256.hexdigest unlinkedOrder :=
  ⟨rfl, rfl, rfl, ⟨by decide +kernel, by decide +kernel⟩, by decide, by decide, by decide⟩

end Fixture

open Fixture Sha256

theorem foreign_payments_silent_iff_small : ∃ e e',
    evaluate hexdigest missedSnapshot = .ok e ∧ evaluate hexdigest smallSnapshot = .ok e' ∧
      e.proposals ≠ [] ∧ e.proposals.map Proposal.shown = e'.proposals.map Proposal.shown := by
  have hadds : AddsForeign missedSnapshot smallSnapshot [smallPayment] [] := by
    refine ⟨⟨rfl, rfl, rfl, rfl, rfl, rfl, rfl, rfl, rfl, rfl, rfl⟩, .refl _, .refl _, .refl _,
      ?_, List.forall_mem_nil _⟩
    intro p hp
    rw [List.mem_singleton.mp hp]
    exact ⟨by decide, by decide, by decide⟩
  obtain ⟨e, he⟩ : ∃ e, evaluate hexdigest missedSnapshot = .ok e :=
    exists_of_isOk (by decide +kernel)
  obtain ⟨f, hf, -⟩ := missedSnapshot_misses.proposed missedSnapshot_gated List.mem_cons_self he
  obtain ⟨e', he'⟩ : ∃ e, evaluate hexdigest smallSnapshot = .ok e :=
    exists_of_isOk (by decide +kernel)
  refine ⟨e, e', he, he', List.ne_nil_of_mem hf,
    ((foreign_payments_silent_iff missedSnapshot_adds hadds hexdigest).2 e e' he he').mpr ?_⟩
  intro o ho _ pid
  have hsmall : ∀ o ∈ missedSnapshot.orders, ¬ smallPayment.Similar o := by decide
  refine iff_of_false (fun ⟨_, hp, _⟩ => List.not_mem_nil hp) ?_
  rintro ⟨p, hp, hsimilar, -⟩
  rw [List.mem_singleton.mp hp] at hsimilar
  exact hsmall o ho hsimilar

/-- The evidence of a missing payment lists a payment of the other store. -/
theorem foreign_payment_listed : ∃ fs, AddsForeign missedSnapshot missedSnapshot [] [] ∧
    AddsForeign missedSnapshot otherStoreSnapshot fs [] ∧
      ∃ e e', evaluate hexdigest missedSnapshot = .ok e ∧
        evaluate hexdigest otherStoreSnapshot = .ok e' ∧
          e.proposals.map Proposal.shown ≠ e'.proposals.map Proposal.shown := by
  refine ⟨[otherStorePayment], missedSnapshot_adds, ⟨⟨rfl, rfl, rfl, rfl, rfl, rfl, rfl, rfl, rfl,
    rfl, rfl⟩, .refl _, .refl _, .refl _, ?_, List.forall_mem_nil _⟩, ?_⟩
  · intro p hp
    rw [List.mem_singleton.mp hp]
    exact ⟨by decide, by decide, by decide⟩
  obtain ⟨e, he⟩ : ∃ e, evaluate hexdigest missedSnapshot = .ok e :=
    exists_of_isOk (by decide +kernel)
  obtain ⟨e', he'⟩ : ∃ e, evaluate hexdigest otherStoreSnapshot = .ok e :=
    exists_of_isOk (by decide +kernel)
  refine ⟨e, e', he, he', fun hshown => ?_⟩
  have ht : otherStoreSnapshot.Gated := ⟨rfl, by decide, rfl, rfl⟩
  have hsimilar := similarPayments_of_shown missedSnapshot_gated ht he he' hshown
    missedSnapshot_misses List.mem_cons_self List.mem_cons_self
  exact absurd hsimilar (by decide)

end LedgerGuard
