import LedgerGuard.Core.Foreign
import LedgerGuard.Core.RefundStage

/-! # Finding keys

A finding is stored under the hash of its tenant, its rule and its identities. No two
places of one evaluation propose the same rule about the same identities, and the hashed
text can be read back, so a key stands for one finding.
-/

namespace LedgerGuard

open Ordered Grouping Sweep Raising

variable {sha256 : String → String} {s s' : Snapshot} {e e' : Evaluation} {o : Order}
  {q : Payment} {group : List Payment} {c : ℕ} {d : Output} {rule : RuleCode}
  {ids : List Identity} {t : RuleCode × List Identity}

def Proposal.topic (p : Proposal) : RuleCode × List Identity := (p.rule, p.identities)

def topicsField : Field Output (RuleCode × List Identity) where
  get out := out.proposals.map Proposal.topic
  get_zero := rfl
  get_add _ _ := List.map_append

def keyText (s : Snapshot) (t : RuleCode × List Identity) : String :=
  canonical (.arr [.str s.organizationId, .str s.storeId, .str s.mode.render, .str t.1.render,
    .strings (t.2.map Identity.render)])

/-- The texts behind the keys of an evaluation. -/
def Evaluation.keyTexts (e : Evaluation) (s : Snapshot) : Set String :=
  {text | ∃ p ∈ e.proposals, text = keyText s p.topic}

theorem RuleCode.render_injective : Function.Injective RuleCode.render := by
  intro a b h
  have hnodup : (ruleCodes.map RuleCode.render).Nodup := by decide
  exact List.inj_on_of_nodup_map hnodup (mem_ruleCodes a) (mem_ruleCodes b) h

theorem Mode.render_injective : Function.Injective Mode.render := by
  intro a b h
  cases a <;> cases b <;> first | rfl | exact absurd h (by decide)

theorem keyText_inj {t t' : RuleCode × List Identity} (h : keyText s t = keyText s' t') :
    s.organizationId = s'.organizationId ∧ s.storeId = s'.storeId ∧ s.mode = s'.mode ∧ t = t' := by
  have hparts := canonical_arr_inj h
  simp only [List.map_cons, List.map_nil, List.cons.injEq, and_true] at hparts
  obtain ⟨horg, hstore, hmode, hrule, hids⟩ := hparts
  have hids' := List.map_injective_iff.mpr Identity.render_injective (strings_inj hids)
  have hrule' := RuleCode.render_injective (canonical_str_inj.mp hrule)
  exact ⟨canonical_str_inj.mp horg, canonical_str_inj.mp hstore,
    Mode.render_injective (canonical_str_inj.mp hmode), Prod.ext hrule' hids'⟩

theorem topics_emit {risk : Option Money} {eligible : Instant} {facts : Facts} :
    ((emit sha256 s rule ids risk c eligible facts).map Proposal.topic).Sublist
      [(rule, sortedSet Identity.render ids)] := by
  unfold emit
  split
  · exact List.nil_sublist _
  · exact List.Sublist.refl _

theorem key_emit {risk : Option Money} {eligible : Instant} {facts : Facts} {p : Proposal}
    (h : p ∈ emit sha256 s rule ids risk c eligible facts) : p.key = sha256 (keyText s p.topic) := by
  unfold emit at h
  split at h
  · exact absurd h List.not_mem_nil
  · obtain rfl := List.mem_singleton.mp h
    rfl

theorem topics_conflictPart (ht : t ∈ topicsField.get (conflictPart sha256 s o)) :
    t.1 = .pi010 ∧ ∀ id, Identity.order id ∈ t.2 ↔ id = o.id := by
  unfold conflictPart at ht
  split at ht
  · obtain ⟨p, hp, rfl⟩ := List.mem_map.mp ht
    obtain ⟨hrule, -, hids, -⟩ := mem_conflictOutput hp
    refine ⟨hrule, fun id => (hids _).trans ?_⟩
    simp [groupIdentities]
  · exact absurd ht List.not_mem_nil

theorem topics_conflictPart_nodup : (topicsField.get (conflictPart sha256 s o)).Nodup := by
  unfold conflictPart
  split
  · exact topics_emit.nodup (List.nodup_singleton _)
  · exact List.nodup_nil

theorem topics_claimOutput {pid : String} {orderIds : List String}
    (ht : t ∈ topicsField.get (claimOutput sha256 s pid orderIds)) :
    t.1 = .pi010 ∧ 1 < orderIds.length ∧ (∀ id, Identity.order id ∈ t.2 ↔ id ∈ orderIds) ∧
      ∀ id, Identity.payment id ∈ t.2 ↔ id = pid := by
  unfold claimOutput at ht
  split at ht
  case isTrue hlen =>
    obtain rfl := List.mem_singleton.mp (topics_emit.subset ht)
    exact ⟨rfl, hlen, fun id => by simp, fun id => by simp⟩
  case isFalse => exact absurd ht List.not_mem_nil

theorem topics_claimOutput_nodup {pid : String} {orderIds : List String} :
    (topicsField.get (claimOutput sha256 s pid orderIds)).Nodup := by
  unfold claimOutput
  split
  · exact topics_emit.nodup (List.nodup_singleton _)
  · exact List.nodup_nil

theorem topics_pairRules : ((pairRules sha256 s o group c q).map Proposal.topic).Sublist
    [(.pi001, sortedSet Identity.render [.order o.id, .payment q.id]),
      (.pi005, sortedSet Identity.render [.order o.id, .payment q.id])] := by
  have hemit : ∀ {P : Prop} [Decidable P] {rule : RuleCode} {facts : Facts} {risk : Option Money}
      {eligible : Instant}, ((if P then emit sha256 s rule [.order o.id, .payment q.id] risk c
        eligible facts else []).map Proposal.topic).Sublist
          [(rule, sortedSet Identity.render [.order o.id, .payment q.id])] := by
    intro P _ rule facts risk eligible
    split
    · exact topics_emit
    · exact List.nil_sublist _
  rw [pairRules, List.map_append]
  exact hemit.append hemit

theorem topics_pairs_nodup {ps : List Payment} (h : (ps.map (·.id)).Nodup) :
    ((ps.flatMap (pairRules sha256 s o group c)).map Proposal.topic).Nodup := by
  have hids : ∀ q : Payment, ∀ t ∈ (pairRules sha256 s o group c q).map Proposal.topic,
      ∀ id, Identity.payment id ∈ t.2 ↔ id = q.id := by
    intro q t ht id
    have hmem := topics_pairRules.subset ht
    simp only [List.mem_cons, List.not_mem_nil, or_false] at hmem
    rcases hmem with rfl | rfl <;> simp
  rw [List.map_flatMap, List.nodup_flatMap]
  constructor
  · intro q _
    exact topics_pairRules.nodup (by simp)
  · refine (List.pairwise_map.mp h).imp fun {q q'} hne t ht ht' => hne ?_
    exact (hids q' t ht' q.id).mp ((hids q t ht q.id).mpr rfl)

theorem topics_applyRules_nodup (h : (group.map (·.id)).Nodup)
    (hd : applyRules sha256 s o group c = .ok d) : (topicsField.get d).Nodup := by
  obtain ⟨r, hr, rfl⟩ := applyRules_ok.mp hd
  have hduplicate : ((duplicateRule sha256 s o group c).map Proposal.topic).Sublist
      [(.pi004, sortedSet Identity.render (groupIdentities o group))] := by
    unfold duplicateRule
    split
    · exact topics_emit
    · exact List.nil_sublist _
  have hmissing : ((missingRule sha256 s o group c).map Proposal.topic).Sublist
      [(.pi003, [.order o.id])] := by
    unfold missingRule
    split
    · exact topics_emit
    · exact List.nil_sublist _
  have hpairs : ∀ t ∈ ((succeeded group).flatMap (pairRules sha256 s o group c)).map
      Proposal.topic, t.1 ∈ [RuleCode.pi001, .pi005] := by
    intro t ht
    rw [List.map_flatMap] at ht
    obtain ⟨q, -, hq⟩ := List.mem_flatMap.mp ht
    have hmem := topics_pairRules.subset hq
    simp only [List.mem_cons, List.not_mem_nil, or_false] at hmem
    rcases hmem with rfl | rfl <;> simp
  have hrefund : ∃ rule ∈ [RuleCode.pi006, .pi007, .pi008],
      (topicsField.get r).Sublist [(rule, [.order o.id])] := by
    rcases refundRules_emits hr with hnil | ⟨rule, hrule, risk, eligible, facts, hp⟩
    · refine ⟨.pi006, by decide, ?_⟩
      simp only [topicsField, hnil, List.map_nil, List.nil_sublist]
    · refine ⟨rule, hrule, ?_⟩
      simp only [topicsField, hp]
      exact topics_emit
  obtain ⟨rule, hrule, hrefund⟩ := hrefund
  have hsucceeded : ((succeeded group).map (·.id)).Nodup := h.sublist (List.filter_sublist.map _)
  -- the four parts propose different rules
  rw [topicsField.get_add]
  change (List.map Proposal.topic (_ ++ _ ++ _) ++ _).Nodup
  rw [List.map_append, List.map_append]
  refine List.nodup_append'.mpr ⟨List.nodup_append'.mpr ⟨List.nodup_append'.mpr
    ⟨hduplicate.nodup (List.nodup_singleton _), hmissing.nodup (List.nodup_singleton _), ?_⟩,
    topics_pairs_nodup hsucceeded, ?_⟩, hrefund.nodup (List.nodup_singleton _), ?_⟩
  · intro t ht ht'
    obtain rfl := List.mem_singleton.mp (hduplicate.subset ht)
    exact absurd (List.mem_singleton.mp (hmissing.subset ht')) (by simp)
  · intro t ht ht'
    have hr := hpairs t ht'
    rcases List.mem_append.mp ht with ht | ht
    · obtain rfl := List.mem_singleton.mp (hduplicate.subset ht)
      exact absurd hr (by simp)
    · obtain rfl := List.mem_singleton.mp (hmissing.subset ht)
      exact absurd hr (by simp)
  · intro t ht ht'
    have htr : t.1 = rule := congrArg Prod.fst (List.mem_singleton.mp (hrefund.subset ht'))
    rw [← htr] at hrule
    rcases List.mem_append.mp ht with ht | ht
    · rcases List.mem_append.mp ht with ht | ht
      · obtain rfl := List.mem_singleton.mp (hduplicate.subset ht)
        exact absurd hrule (by simp)
      · obtain rfl := List.mem_singleton.mp (hmissing.subset ht)
        exact absurd hrule (by simp)
    · have hp := hpairs t ht
      simp only [List.mem_cons, List.not_mem_nil, or_false] at hp hrule
      rcases hp with hp | hp <;> rw [hp] at hrule <;> simp at hrule

theorem topics_orderPart (hs : s.Gated) (ho : o ∈ s.orders) (hd : orderPart sha256 s o = .ok d)
    (ht : t ∈ topicsField.get d) :
    t.1 ∈ [RuleCode.pi001, .pi003, .pi004, .pi005, .pi006, .pi007, .pi008] ∧
      ∀ id, Identity.order id ∈ t.2 ↔ id = o.id := by
  obtain ⟨p, hp, rfl⟩ := List.mem_map.mp ht
  obtain ⟨-, d', hd', hp⟩ := (orderPart_proposals hs.orders_nodup ho).mp ⟨d, hd, hp⟩
  obtain ⟨r, hr, rfl⟩ := applyRules_ok.mp hd'
  rcases List.mem_append.mp hp with hp | hp
  · obtain ⟨hrule, hown, hgroup, -⟩ := mem_paymentRules hp
    refine ⟨?_, fun id => ⟨fun hid => ?_, fun hid => hid ▸ hown⟩⟩
    · simp only [List.mem_cons, List.not_mem_nil, or_false] at hrule ⊢
      tauto
    · simpa [groupIdentities] using hgroup _ hid
  · obtain ⟨hrule, hids, -⟩ := mem_refundRules hr hp
    refine ⟨?_, fun id => ?_⟩
    · simp only [List.mem_cons, List.not_mem_nil, or_false] at hrule ⊢
      tauto
    · simp [Proposal.topic, hids]

theorem topics_orderPart_nodup (hs : s.Gated) (ho : o ∈ s.orders)
    (hd : orderPart sha256 s o = .ok d) : (topicsField.get d).Nodup := by
  rw [orderPart, evaluateOrder_eq hs.orders_nodup ho] at hd
  by_cases hm : s.isMatched o = true
  · rw [if_pos hm] at hd
    cases hh : hold s (matchedOutput sha256 s).blocked o (s.group o) with
    | some held =>
      rw [hh] at hd
      obtain rfl := Except.ok.inj hd
      have hnil : held.proposals = [] := by
        unfold hold at hh
        split_ifs at hh <;> obtain rfl := Option.some.inj hh <;> rfl
      simp only [topicsField, hnil, List.map_nil, List.nodup_nil]
    | none =>
      rw [hh] at hd
      exact topics_applyRules_nodup (group_ids_nodup hs.payments_nodup o) hd
  · rw [if_neg hm] at hd
    obtain rfl := Except.ok.inj hd
    exact List.nodup_nil

theorem topics_paymentPart (ht : t ∈ topicsField.get (paymentPart sha256 s q)) :
    t = (.pi002, [.payment q.id]) := by
  obtain ⟨p, hp, rfl⟩ := List.mem_map.mp ht
  obtain ⟨hrule, hids, -⟩ := mem_paymentPart hp
  exact Prod.ext hrule hids

theorem topics_paymentPart_nodup : (topicsField.get (paymentPart sha256 s q)).Nodup := by
  unfold paymentPart settlePayment
  split_ifs
  · exact List.nodup_nil
  · exact List.nodup_nil
  · exact topics_emit.nodup (List.nodup_singleton _)
  · exact List.nodup_nil

theorem topics_conflicts_nodup (hs : s.Gated) :
    (topicsField.get (s.sortedOrders.map (conflictPart sha256 s)).sum).Nodup := by
  refine topicsField.nodup_sum (fun o _ => topics_conflictPart_nodup) ?_
  refine (List.pairwise_map.mp (sortedOrders_nodup hs.orders_nodup)).imp ?_
  intro o o' hne t ht ht'
  exact hne (((topics_conflictPart ht').2 o.id).mp (((topics_conflictPart ht).2 o.id).mpr rfl))

theorem claimed_keys_nodup : (keys (matching sha256 s).claimed).Nodup := by
  rw [matching_eq]
  exact nodup_keys_collect (by simp [keys])

theorem claimed_nodup (hs : s.Gated) {kv : String × List String}
    (h : kv ∈ (matching sha256 s).claimed) : kv.2.Nodup := by
  have hv : kv.2 = (s.claimants kv.1).map (·.id) :=
    (values_eq_of_mem claimed_keys_nodup h).symm.trans (values_claimed hs.payments_nodup kv.1)
  rw [hv]
  exact (sortedOrders_nodup hs.orders_nodup).sublist (List.filter_sublist.map _)

theorem topics_claims_nodup : (topicsField.get ((sortBy Prod.fst (matching sha256 s).claimed).map
    fun kv => claimOutput sha256 s kv.1 kv.2).sum).Nodup := by
  have hsorted : ((sortBy Prod.fst (matching sha256 s).claimed).map Prod.fst).Nodup :=
    ((sortBy_perm _ _).map _).nodup_iff.mpr claimed_keys_nodup
  refine topicsField.nodup_sum (fun kv _ => topics_claimOutput_nodup) ?_
  refine (List.pairwise_map.mp hsorted).imp ?_
  intro kv kv' hne t ht ht'
  obtain ⟨-, -, -, hown⟩ := topics_claimOutput ht
  obtain ⟨-, -, -, hown'⟩ := topics_claimOutput ht'
  exact hne ((hown' kv.1).mp ((hown kv.1).mpr rfl))

theorem topics_matchedOutput_nodup (hs : s.Gated) :
    (topicsField.get (matchedOutput sha256 s)).Nodup := by
  rw [matchedOutput, claims, topicsField.get_add, List.nodup_append']
  refine ⟨?_, topics_claims_nodup, ?_⟩
  · rw [matching_eq]
    exact topics_conflicts_nodup hs
  · intro t ht ht'
    rw [matching_eq] at ht
    obtain ⟨x, hx, ht⟩ := topicsField.mem_sum.mp ht
    obtain ⟨o, -, rfl⟩ := List.mem_map.mp hx
    have hone := (topics_conflictPart ht).2
    obtain ⟨x, hx, ht'⟩ := topicsField.mem_sum.mp ht'
    obtain ⟨⟨pid, orderIds⟩, hkv, rfl⟩ := List.mem_map.mp hx
    obtain ⟨-, hlen, hids, -⟩ := topics_claimOutput ht'
    have hall : ∀ id ∈ orderIds, id = o.id := fun id hid => (hone id).mp ((hids id).mpr hid)
    have hnodup : orderIds.Nodup := claimed_nodup hs (mem_sortBy.mp hkv)
    rw [List.eq_replicate_of_mem hall, List.nodup_replicate] at hnodup
    exact absurd hlen (not_lt.mpr hnodup)

theorem topics_reconcileFacts_nodup (hs : s.Gated) {out : Output}
    (h : reconcileFacts sha256 s = .ok out) : (topicsField.get out).Nodup := by
  rw [reconcileFacts_eq hs] at h
  obtain ⟨r, hr, h⟩ := bind_eq_ok.mp h
  obtain rfl := Except.ok.inj h
  have hmatched : ∀ t ∈ topicsField.get (matchedOutput sha256 s), t.1 = .pi010 := by
    intro t ht
    rcases (mem_matchedOutput topicsField hs.payments_nodup).mp ht with ⟨o, -, hc, ht⟩ | ⟨_, -, ht⟩
    · refine (@topics_conflictPart sha256 s o _ ?_).1
      rwa [conflictPart, if_pos hc]
    · exact (topics_claimOutput ht).1
  have horders : ∀ t ∈ topicsField.get r,
      t.1 ∈ [RuleCode.pi001, .pi003, .pi004, .pi005, .pi006, .pi007, .pi008] := by
    intro t ht
    obtain ⟨o, ho, d, hd, ht⟩ := (mem_gather topicsField hr).mp ht
    exact (topics_orderPart hs (mem_sortedOrders.mp ho) hd ht).1
  have hpayments : ∀ t ∈ topicsField.get ((sortBy Payment.id s.payments).map
      (paymentPart sha256 s)).sum, t.1 = .pi002 := by
    intro t ht
    obtain ⟨x, hx, ht⟩ := topicsField.mem_sum.mp ht
    obtain ⟨q, -, rfl⟩ := List.mem_map.mp hx
    rw [topics_paymentPart ht]
  rw [topicsField.get_add, topicsField.get_add]
  refine List.nodup_append'.mpr ⟨List.nodup_append'.mpr
    ⟨topics_matchedOutput_nodup hs, ?_, ?_⟩, ?_, ?_⟩
  · -- rounds of different orders name different orders
    refine topicsField.nodup_gather (fun o ho d hd =>
      topics_orderPart_nodup hs (mem_sortedOrders.mp ho) hd) ?_ hr
    refine (List.pairwise_map.mp (sortedOrders_nodup hs.orders_nodup)).imp_of_mem ?_
    intro o o' ho ho' hne d d' hd hd' t ht ht'
    have hown := (topics_orderPart hs (mem_sortedOrders.mp ho) hd ht).2 o.id
    have hown' := (topics_orderPart hs (mem_sortedOrders.mp ho') hd' ht').2 o.id
    exact hne (hown'.mp (hown.mpr rfl))
  · intro t ht ht'
    have hrule := horders t ht'
    rw [hmatched t ht] at hrule
    exact absurd hrule (by decide)
  · refine topicsField.nodup_sum (fun q _ => topics_paymentPart_nodup) ?_
    have hsorted : ((sortBy Payment.id s.payments).map (·.id)).Nodup :=
      ((sortBy_perm _ _).map _).nodup_iff.mpr hs.payments_nodup
    refine (List.pairwise_map.mp hsorted).imp ?_
    intro q q' hne t ht ht'
    have hq := (topics_paymentPart ht).symm.trans (topics_paymentPart ht')
    exact hne (by simpa using hq)
  · intro t ht ht'
    rcases List.mem_append.mp ht with ht | ht
    · have hrule := hmatched t ht
      rw [hpayments t ht'] at hrule
      cases hrule
    · have hrule := horders t ht
      rw [hpayments t ht'] at hrule
      exact absurd hrule (by decide)

theorem emits_of_early (h : s.Early) (he : evaluate sha256 s = .ok e) : e.proposals = [] ∨
    ∃ rule ids facts, e.proposals = emit sha256 s rule ids none 100 s.now facts := by
  have hv := evaluate_valid he
  simp only [evaluate, hv, bind, Except.bind] at he
  by_cases hs : s.stale = []
  · have hl : s.linkVerified = false ∨ s.linkConflict = true := h.resolve_left (not_not.mpr hs)
    rw [if_neg (not_not.mpr hs), if_pos hl] at he
    obtain rfl := Except.ok.inj he
    dsimp only
    split
    · exact Or.inr ⟨_, _, _, rfl⟩
    · exact Or.inl rfl
  · rw [if_pos hs] at he
    obtain rfl := Except.ok.inj he
    exact Or.inr ⟨_, _, _, rfl⟩

theorem topics_nodup (he : evaluate sha256 s = .ok e) :
    (e.proposals.map Proposal.topic).Nodup := by
  rcases early_or_gated he with hearly | hs
  · rcases emits_of_early hearly he with hnil | ⟨rule, ids, facts, hemit⟩
    · rw [hnil]
      exact List.nodup_nil
    · rw [hemit]
      exact topics_emit.nodup (List.nodup_singleton _)
  · obtain ⟨out, hout, rfl⟩ := (evaluate_ok hs).mp he
    exact ((sortBy_perm _ _).map _).nodup_iff.mpr (topics_reconcileFacts_nodup hs hout)

theorem key_of_mem (he : evaluate sha256 s = .ok e) {p : Proposal} (hp : p ∈ e.proposals) :
    p.key = sha256 (keyText s p.topic) := by
  rcases early_or_gated he with hearly | hs
  · rcases emits_of_early hearly he with hnil | ⟨rule, ids, facts, hemit⟩
    · rw [hnil] at hp
      cases hp
    · rw [hemit] at hp
      exact key_emit hp
  · rcases (mem_proposals hs he).mp hp with ⟨o, -, -, hp⟩ | ⟨pid, -, hp⟩ |
      ⟨o, -, -, hp | ⟨r, hr, hp⟩⟩ | ⟨q, -, hp⟩
    · exact key_emit hp
    · unfold claimOutput at hp
      split at hp
      · exact key_emit hp
      · cases hp
    · simp only [paymentRules, duplicateRule, missingRule, pairRules, List.mem_append,
        List.mem_flatMap, List.mem_ite_nil_right] at hp
      rcases hp with (⟨-, hp⟩ | ⟨-, hp⟩) | ⟨q, -, ⟨-, hp⟩ | ⟨-, hp⟩⟩
      all_goals exact key_emit hp
    · rcases refundRules_emits hr with hnil | ⟨rule, -, risk, eligible, facts, hemit⟩
      · rw [hnil] at hp
        cases hp
      · rw [hemit] at hp
        exact key_emit hp
    · unfold paymentPart settlePayment at hp
      split_ifs at hp
      · cases hp
      · cases hp
      · exact key_emit hp
      · cases hp

/-- The keys of one evaluation are distinct, and equal keys of two evaluations are about the same
tenant, mode, rule and identities, as long as the hash does not confuse their texts. -/
theorem finding_keys_identify (he : evaluate sha256 s = .ok e) (he' : evaluate sha256 s' = .ok e')
    (hsha : Set.InjOn sha256 (e.keyTexts s ∪ e'.keyTexts s')) :
    (e.proposals.map (·.key)).Nodup ∧ ∀ p ∈ e.proposals, ∀ p' ∈ e'.proposals, p.key = p'.key →
      s.organizationId = s'.organizationId ∧ s.storeId = s'.storeId ∧ s.mode = s'.mode ∧
        p.rule = p'.rule ∧ p.identities = p'.identities := by
  constructor
  · have hdistinct := List.pairwise_map.mp (topics_nodup he)
    refine List.pairwise_map.mpr (hdistinct.imp_of_mem fun {p p'} hp hp' hne hkey => hne ?_)
    rw [key_of_mem he hp, key_of_mem he hp'] at hkey
    exact (keyText_inj (hsha (Or.inl ⟨p, hp, rfl⟩) (Or.inl ⟨p', hp', rfl⟩) hkey)).2.2.2
  · intro p hp p' hp' hkey
    rw [key_of_mem he hp, key_of_mem he' hp'] at hkey
    obtain ⟨horg, hstore, hmode, htopic⟩ :=
      keyText_inj (hsha (Or.inl ⟨p, hp, rfl⟩) (Or.inr ⟨p', hp', rfl⟩) hkey)
    exact ⟨horg, hstore, hmode, congrArg Prod.fst htopic, congrArg Prod.snd htopic⟩

open Fixture Sha256

theorem finding_keys_identify_stray : ∃ e, evaluate hexdigest straySnapshot = .ok e ∧
    e.proposals.length = 2 ∧ (e.proposals.map (·.key)).Nodup := by
  obtain ⟨e, he, hlen, hinj⟩ : ∃ e, evaluate hexdigest straySnapshot = .ok e ∧
      e.proposals.length = 2 ∧
        (e.proposals.map fun p => hexdigest (keyText straySnapshot p.topic)).Nodup :=
    ⟨_, rfl, by decide +kernel, by decide +kernel⟩
  have hsha : Set.InjOn hexdigest (e.keyTexts straySnapshot ∪ e.keyTexts straySnapshot) := by
    rw [Set.union_self]
    rintro _ ⟨p, hp, rfl⟩ _ ⟨p', hp', rfl⟩ h
    rw [List.inj_on_of_nodup_map hinj hp hp' h]
  exact ⟨e, he, hlen, (finding_keys_identify he he hsha).1⟩

end LedgerGuard
