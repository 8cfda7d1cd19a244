import LedgerGuard.Core.Engine

/-! # What the passes of an evaluation compute

The matching loop and the multi-claim loop only write, so their effect is a sum
over the orders. The loops over orders and payments also read the blocked set;
each round reads and blocks only identities of its own order or payment, so a
round may as well read the set the matching left behind.
-/

namespace LedgerGuard

open Ordered Grouping Sweep

variable {sha256 : String → String} {s : Snapshot}

/-- The validation, freshness and link gates all let the snapshot through. -/
structure Snapshot.Gated (s : Snapshot) : Prop where
  valid : s.validate = .ok ()
  fresh : s.stale = []
  verified : s.linkVerified = true
  unconflicted : s.linkConflict = false

theorem Snapshot.nodup_of_valid (h : s.validate = .ok ()) :
    (s.payments.map (·.id)).Nodup ∧ (s.orders.map (·.id)).Nodup := by
  unfold Snapshot.validate at h
  split_ifs at h with h₁ h₂
  exact not_or.mp h₂ |>.imp not_not.mp not_not.mp

theorem Snapshot.coverage_nodup_of_valid (h : s.validate = .ok ()) :
    (s.coverage.map (·.source)).Nodup := by
  unfold Snapshot.validate at h
  split_ifs at h with h₁ h₂ h₃ h₄ h₅
  exact h₅

theorem Snapshot.coverageBySource_eq (h : (s.coverage.map (·.source)).Nodup) {c : Coverage}
    (hc : c ∈ s.coverage) : s.coverageBySource c.source = some c :=
  find?_of_nodup h hc

theorem Snapshot.Gated.payments_nodup (h : s.Gated) : (s.payments.map (·.id)).Nodup :=
  (Snapshot.nodup_of_valid h.valid).1

theorem Snapshot.Gated.orders_nodup (h : s.Gated) : (s.orders.map (·.id)).Nodup :=
  (Snapshot.nodup_of_valid h.valid).2

theorem evaluate_of_gated (h : s.Gated) : evaluate sha256 s = (do
    let out ← reconcileFacts sha256 s
    .ok { proposals := sortBy Proposal.key out.proposals
          evaluatedRules := s.rules
          blockedIdentities := sortedSet Identity.render out.blocked
          warnings := sortedSet Warning.render out.warnings
          inputDigest := sha256 (canonical s.orderedInput) }) := by
  simp only [evaluate, h.valid, h.fresh, h.verified, h.unconflicted]
  rfl

theorem mem_emit {rule : RuleCode} {ids : List Identity} {risk : Option Money} {confidence : ℕ}
    {eligible : Instant} {facts : Facts} {p : Proposal}
    (h : p ∈ emit sha256 s rule ids risk confidence eligible facts) :
    rule ∈ s.rules ∧ p.rule = rule ∧ p.identities = sortedSet Identity.render ids ∧
      p.evidence.facts = facts := by
  unfold emit at h
  by_cases hr : rule ∈ s.rules
  · rw [if_neg (not_not.mpr hr)] at h
    obtain rfl := List.mem_singleton.mp h
    exact ⟨hr, rfl, rfl, rfl⟩
  · rw [if_pos hr] at h
    simp at h

theorem exists_mem_emit (sha256 : String → String) {rule : RuleCode} (hr : rule ∈ s.rules)
    (ids : List Identity) (risk : Option Money) (confidence : ℕ) (eligible : Instant) (facts : Facts) :
    ∃ p ∈ emit sha256 s rule ids risk confidence eligible facts,
      p.rule = rule ∧ p.identities = sortedSet Identity.render ids := by
  unfold emit
  rw [if_neg (not_not.mpr hr)]
  exact ⟨_, List.mem_singleton_self _, rfl, rfl⟩

/-- A Stripe order whose references conflict. -/
def Snapshot.conflicted (s : Snapshot) (o : Order) : Bool := o.isStripe && s.conflict o

/-- A Stripe order without a conflict, so one that gets a matched group. -/
def Snapshot.isMatched (s : Snapshot) (o : Order) : Bool := o.isStripe && !s.conflict o

/-- The orders that claim a payment, in the order of the matching pass. -/
def Snapshot.claimants (s : Snapshot) (pid : String) : List Order :=
  s.sortedOrders.filter fun o => s.isMatched o && pid ∈ (s.group o).map (·.id)

/-- The pairs of payment and order that an order pushes to the claims. -/
def claimPairs (s : Snapshot) (o : Order) : List (String × String) :=
  if s.isMatched o then (s.group o).map fun p => (p.id, o.id) else []

def matchedEntry (s : Snapshot) (o : Order) : List (String × List Payment × ℕ) :=
  if s.isMatched o then [(o.id, s.group o, s.matchConfidence o)] else []

def conflictPart (sha256 : String → String) (s : Snapshot) (o : Order) : Output :=
  if s.conflicted o then conflictOutput sha256 s o else 0

theorem foldl_matchOrder (os : List Order) (m : Matching) :
    os.foldl (matchOrder sha256 s) m =
      { out := m.out + (os.map (conflictPart sha256 s)).sum
        matched := m.matched ++ os.flatMap (matchedEntry s)
        claimed := collect (os.flatMap (claimPairs s)) m.claimed } := by
  induction os generalizing m with
  | nil => simp [collect]
  | cons o os ih =>
    rw [List.foldl_cons, ih]
    simp only [matchOrder, conflictPart, matchedEntry, claimPairs, Snapshot.conflicted,
      Snapshot.isMatched, List.map_cons, List.sum_cons, List.flatMap_cons, collect_append]
    by_cases hs : o.isStripe = true
    · by_cases hc : s.conflict o = true
      · simp [hs, hc, collect, add_assoc]
      · simp [hs, hc, collect, List.foldl_map]
    · simp [hs, collect]

theorem matching_eq : matching sha256 s =
    { out := (s.sortedOrders.map (conflictPart sha256 s)).sum
      matched := s.sortedOrders.flatMap (matchedEntry s)
      claimed := collect (s.sortedOrders.flatMap (claimPairs s)) [] } := by
  rw [matching, foldl_matchOrder]
  simp

@[simp] theorem mem_sortedOrders {o : Order} : o ∈ s.sortedOrders ↔ o ∈ s.orders := mem_sortBy

theorem sortedOrders_nodup (h : (s.orders.map (·.id)).Nodup) :
    (s.sortedOrders.map (·.id)).Nodup :=
  ((sortBy_perm Order.id s.orders).map _).nodup_iff.mpr h

theorem eq_of_id_eq {o o' : Order} (h : (s.orders.map (·.id)).Nodup) (ho : o ∈ s.orders)
    (ho' : o' ∈ s.orders) (he : o.id = o'.id) : o = o' :=
  List.inj_on_of_nodup_map h ho ho' he

theorem payment_eq_of_id_eq {p p' : Payment} (h : (s.payments.map (·.id)).Nodup)
    (hp : p ∈ s.payments) (hp' : p' ∈ s.payments) (he : p.id = p'.id) : p = p' :=
  List.inj_on_of_nodup_map h hp hp' he

theorem mem_resolved {o : Order} {p : Payment} :
    p ∈ s.resolved o ↔ p ∈ s.payments ∧ ∃ ref ∈ o.references, ref ∈ p.aliases := by
  simp [Snapshot.resolved]

theorem mem_hintsByOrder {oid : String} {p : Payment} :
    p ∈ s.hintsByOrder oid ↔ p ∈ s.payments ∧
      p.orderHint ≠ "" ∧ (p.storeHint = "" ∨ p.storeHint = s.storeId) ∧ p.orderHint = oid := by
  simp [Snapshot.hintsByOrder, and_assoc]

theorem mem_group {o : Order} {p : Payment} :
    p ∈ s.group o ↔ p ∈ s.resolved o ∨ p ∈ s.hintsByOrder o.id := by
  simp only [Snapshot.group, Snapshot.candidates, mem_sortBy, List.mem_append, List.mem_filter,
    decide_eq_true_eq]
  tauto

theorem mem_payments_of_mem_group {o : Order} {p : Payment} (h : p ∈ s.group o) :
    p ∈ s.payments :=
  (mem_group.mp h).elim (fun h => (mem_resolved.mp h).1) (fun h => (mem_hintsByOrder.mp h).1)

theorem lookup_matched (h : (s.orders.map (·.id)).Nodup) {o : Order} (ho : o ∈ s.orders) :
    (matching sha256 s).matched.lookup o.id =
      if s.isMatched o then some (s.group o, s.matchConfidence o) else none := by
  have key : ∀ os : List Order, (∀ o' ∈ os, o' ∈ s.orders) →
      (os.flatMap (matchedEntry s)).lookup o.id =
        if o ∈ os ∧ s.isMatched o = true then some (s.group o, s.matchConfidence o) else none := by
    intro os hos
    induction os with
    | nil => simp
    | cons o' os ih =>
      obtain ⟨ho', hos⟩ := List.forall_mem_cons.mp hos
      have he : o.id = o'.id ↔ o = o' := ⟨eq_of_id_eq h ho ho', fun he => he ▸ rfl⟩
      rw [List.flatMap_cons, List.lookup_append, ih hos, matchedEntry]
      by_cases hoo : o = o'
      · subst hoo
        by_cases hm : s.isMatched o = true <;> simp [hm]
      · have hne : (o.id == o'.id) = false := by simpa using fun hid => hoo (he.mp hid)
        by_cases hm : s.isMatched o' = true <;> simp [hm, hoo, List.lookup_cons, hne]
  rw [matching_eq]
  simp only [key _ (fun _ => mem_sortedOrders.mp), mem_sortedOrders, ho, true_and]

theorem candidates_nodup (h : (s.payments.map (·.id)).Nodup) (o : Order) :
    (s.candidates o).Nodup := by
  have hp : s.payments.Nodup := h.of_map
  refine List.nodup_append.mpr ⟨hp.filter _, (hp.filter _).filter _, ?_⟩
  intro a ha b hb he
  have := (List.mem_filter.mp hb).2
  simp [← he, ha] at this

theorem group_ids_nodup (h : (s.payments.map (·.id)).Nodup) (o : Order) :
    ((s.group o).map (·.id)).Nodup := by
  have hg : (s.group o).Nodup := (sortBy_perm _ _).nodup_iff.mpr (candidates_nodup h o)
  exact List.Nodup.map_on (fun p hp p' hp' he => payment_eq_of_id_eq h
    (mem_payments_of_mem_group hp) (mem_payments_of_mem_group hp') he) hg

theorem claimPairs_filter (h : (s.payments.map (·.id)).Nodup) (o : Order) (pid : String) :
    ((claimPairs s o).filter (fun kb => kb.1 = pid)).map Prod.snd =
      if s.isMatched o ∧ pid ∈ (s.group o).map (·.id) then [o.id] else [] := by
  have key : ∀ ps : List Payment, (ps.map (·.id)).Nodup →
      ((ps.map fun p => (p.id, o.id)).filter (fun kb => kb.1 = pid)).map Prod.snd =
        if pid ∈ ps.map (·.id) then [o.id] else [] := by
    intro ps hps
    induction ps with
    | nil => simp
    | cons p ps ih =>
      rw [List.map_cons, List.nodup_cons] at hps
      have hi := ih hps.2
      by_cases hp : p.id = pid
      · subst hp
        rw [if_neg hps.1] at hi
        simp [hi]
      · simp [hp, Ne.symm hp, hi]
  by_cases hm : s.isMatched o = true
  · simp [claimPairs, hm, key _ (group_ids_nodup h o)]
  · simp [claimPairs, hm]

theorem values_claimed (h : (s.payments.map (·.id)).Nodup) (pid : String) :
    values (matching sha256 s).claimed pid = (s.claimants pid).map (·.id) := by
  rw [matching_eq, values_collect, Snapshot.claimants]
  simp only [values, List.nil_append]
  induction s.sortedOrders with
  | nil => simp
  | cons o os ih =>
    rw [List.flatMap_cons, List.filter_append, List.map_append, ih, claimPairs_filter h]
    by_cases hm : s.isMatched o = true ∧ pid ∈ (s.group o).map (·.id)
    · rw [if_pos hm, List.filter_cons_of_pos (by simpa using hm)]
      rfl
    · rw [if_neg hm, List.filter_cons_of_neg (by simpa using hm)]
      rfl

theorem mem_claimants {pid : String} {o : Order} : o ∈ s.claimants pid ↔
    o ∈ s.orders ∧ s.isMatched o = true ∧ pid ∈ (s.group o).map (·.id) := by
  simp [Snapshot.claimants]

theorem mem_keys_claimed {pid : String} :
    pid ∈ keys (matching sha256 s).claimed ↔ s.claimants pid ≠ [] := by
  have hp : ∀ o b, (pid, b) ∈ claimPairs s o ↔
      b = o.id ∧ s.isMatched o = true ∧ pid ∈ (s.group o).map (·.id) := by
    intro o b
    by_cases hm : s.isMatched o = true
    · simp only [claimPairs, hm, if_true, List.mem_map, Prod.mk.injEq, true_and]
      constructor
      · rintro ⟨p, hp, rfl, rfl⟩
        exact ⟨rfl, p, hp, rfl⟩
      · rintro ⟨rfl, p, hp, rfl⟩
        exact ⟨p, hp, rfl, rfl⟩
    · simp [claimPairs, hm]
  rw [matching_eq, mem_keys_collect]
  constructor
  · rintro (hk | ⟨b, hb⟩)
    · simp [keys] at hk
    · obtain ⟨o, ho, hb⟩ := List.mem_flatMap.mp hb
      exact List.ne_nil_of_mem (mem_claimants.mpr ⟨mem_sortedOrders.mp ho, ((hp o b).mp hb).2⟩)
  · intro hne
    obtain ⟨o, ho⟩ := List.exists_mem_of_ne_nil _ hne
    obtain ⟨ho, hm⟩ := mem_claimants.mp ho
    exact Or.inr ⟨o.id, List.mem_flatMap.mpr ⟨o, mem_sortedOrders.mpr ho, (hp o _).mpr ⟨rfl, hm⟩⟩⟩

end LedgerGuard
