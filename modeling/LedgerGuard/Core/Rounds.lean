import LedgerGuard.Core.Passes
import Mathlib.Data.Finset.Card

/-! # Rounds of the evaluation loops

What the matching left blocked, and why every later round may read that set
instead of the one the loop is extending: two orders that are not yet blocked
never share a payment, since a shared payment is claimed by both.
-/

namespace LedgerGuard

open Ordered Grouping Sweep

variable {sha256 : String → String} {s : Snapshot}

def matchedOutput (sha256 : String → String) (s : Snapshot) : Output :=
  claims sha256 s (matching sha256 s)

def Snapshot.contested (s : Snapshot) (pid : String) : Bool := 1 < (s.claimants pid).length

theorem claimants_nodup (h : (s.orders.map (·.id)).Nodup) (pid : String) :
    (s.claimants pid).Nodup :=
  (sortedOrders_nodup h).of_map.filter _

theorem contested_iff (h : (s.orders.map (·.id)).Nodup) {pid : String} :
    s.contested pid = true ↔ ∃ o ∈ s.claimants pid, ∃ o' ∈ s.claimants pid, o ≠ o' := by
  rw [Snapshot.contested, decide_eq_true_eq,
    ← List.toFinset_card_of_nodup (claimants_nodup h pid), Finset.one_lt_card]
  simp

theorem exists_of_contested {pid : String} (hc : s.contested pid = true) :
    ∃ q ∈ s.payments, q.id = pid := by
  have hne : s.claimants pid ≠ [] := by
    intro he
    simp [Snapshot.contested, he] at hc
  obtain ⟨o, ho⟩ := List.exists_mem_of_ne_nil _ hne
  obtain ⟨q, hq, he⟩ := List.mem_map.mp (mem_claimants.mp ho).2.2
  exact ⟨q, mem_payments_of_mem_group hq, he⟩

theorem claimOutput_of_not {pid : String} {ids : List String} (h : ¬ 1 < ids.length) :
    claimOutput sha256 s pid ids = 0 := if_neg h

theorem claimOutput_blocked {pid : String} {ids : List String} (h : 1 < ids.length) :
    (claimOutput sha256 s pid ids).blocked = .payment pid :: ids.map Identity.order := by
  rw [claimOutput, if_pos h]

theorem mem_matchedOutput {β : Type} (F : Field Output β) (h : (s.payments.map (·.id)).Nodup)
    {b : β} : b ∈ F.get (matchedOutput sha256 s) ↔
      (∃ o ∈ s.orders, s.conflicted o = true ∧ b ∈ F.get (conflictOutput sha256 s o)) ∨
      ∃ pid, s.contested pid = true ∧
        b ∈ F.get (claimOutput sha256 s pid ((s.claimants pid).map (·.id))) := by
  have hc : b ∈ F.get (matching sha256 s).out ↔
      ∃ o ∈ s.orders, s.conflicted o = true ∧ b ∈ F.get (conflictOutput sha256 s o) := by
    rw [matching_eq, F.mem_sum]
    simp only [List.mem_map, mem_sortedOrders, exists_exists_and_eq_and, conflictPart]
    refine exists_congr fun o => and_congr_right fun _ => ?_
    by_cases hc : s.conflicted o = true <;> simp [hc, F.get_zero]
  have hk : (keys (matching sha256 s).claimed).Nodup := by
    rw [matching_eq]
    exact nodup_keys_collect (by simp [keys])
  have hs : b ∈ F.get (((sortBy Prod.fst (matching sha256 s).claimed).map
      fun kv => claimOutput sha256 s kv.1 kv.2).sum) ↔ ∃ pid, s.contested pid = true ∧
        b ∈ F.get (claimOutput sha256 s pid ((s.claimants pid).map (·.id))) := by
    rw [F.mem_sum]
    simp only [List.mem_map, mem_sortBy, exists_exists_and_eq_and]
    constructor
    · rintro ⟨⟨pid, ids⟩, hm, hb⟩
      have hv : ids = (s.claimants pid).map (·.id) :=
        (values_eq_of_mem hk hm).symm.trans (values_claimed h pid)
      subst hv
      refine ⟨pid, ?_, hb⟩
      by_contra hn
      have hl : ¬ 1 < ((s.claimants pid).map (·.id)).length := by
        simpa [Snapshot.contested] using hn
      rw [claimOutput_of_not hl, F.get_zero] at hb
      exact List.not_mem_nil hb
    · rintro ⟨pid, hp, hb⟩
      have hne : s.claimants pid ≠ [] := by
        intro he
        simp [Snapshot.contested, he] at hp
      have hm := mem_of_mem_keys (mem_keys_claimed.mpr hne : pid ∈ keys (matching sha256 s).claimed)
      rw [values_claimed h] at hm
      exact ⟨_, hm, hb⟩
  rw [matchedOutput, claims, F.get_add, List.mem_append, hc, hs]

theorem mem_matchedOutput_blocked (h : (s.payments.map (·.id)).Nodup) {x : Identity} :
    x ∈ (matchedOutput sha256 s).blocked ↔
      (∃ o ∈ s.orders, s.conflicted o = true ∧ x ∈ groupIdentities o (s.resolved o)) ∨
      ∃ pid, s.contested pid = true ∧
        (x = .payment pid ∨ ∃ o ∈ s.claimants pid, x = .order o.id) := by
  refine (mem_matchedOutput Output.blockedField h).trans (or_congr Iff.rfl
    (exists_congr fun pid => and_congr_right fun hp => ?_))
  have hl : 1 < ((s.claimants pid).map (·.id)).length := by
    simpa [Snapshot.contested] using hp
  simp [Output.blockedField, claimOutput_blocked hl, eq_comm]

theorem hold_congr {b b' : List Identity} {o : Order} {group : List Payment}
    (h : ∀ x ∈ groupIdentities o group, x ∈ b ↔ x ∈ b') : hold s b o group = hold s b' o group := by
  have ho : Identity.order o.id ∈ b ↔ Identity.order o.id ∈ b' := h _ List.mem_cons_self
  have ha : (groupIdentities o group).any (· ∈ b) = (groupIdentities o group).any (· ∈ b') := by
    rw [Bool.eq_iff_iff]
    simp only [List.any_eq_true, decide_eq_true_eq]
    exact exists_congr fun x => and_congr_right fun hx => h x hx
  simp only [hold, ho, ha]

theorem hold_of_blocked {b : List Identity} {o : Order} {group : List Payment}
    (h : Identity.order o.id ∈ b) : hold s b o group = some 0 := by
  simp [hold, h]

theorem hold_blocked {b : List Identity} {o : Order} {group : List Payment} {held : Output}
    (h : hold s b o group = some held) {x : Identity} (hx : x ∈ held.blocked) :
    held.blocked = groupIdentities o group := by
  unfold hold at h
  split_ifs at h <;> obtain rfl := Option.some.inj h
  · simp at hx
  all_goals rfl

/-- An order let through is unblocked, inside the window and, with its group, not past the
boundary. -/
theorem hold_eq_none {b : List Identity} {o : Order} {group : List Payment} :
    hold s b o group = none ↔ (∀ x ∈ groupIdentities o group, x ∉ b) ∧
      s.windowFrom ≤ o.createdAt ∧ o.changedAt ≤ s.through ∧
      ∀ p ∈ group, p.changedAt ≤ s.through := by
  unfold hold
  constructor
  · intro h
    split_ifs at h with h₁ h₂ h₃ h₄
    simp only [List.any_eq_true, decide_eq_true_eq, not_exists, not_and] at h₃
    simp only [List.any_eq_true, decide_eq_true_eq, not_or, not_exists, not_and, not_lt] at h₄
    exact ⟨h₃, not_lt.mp h₂, h₄⟩
  · rintro ⟨hb, hw, ho, hp⟩
    rw [if_neg (hb _ List.mem_cons_self), if_neg (not_lt.mpr hw), if_neg, if_neg]
    · simp only [List.any_eq_true, decide_eq_true_eq, not_or, not_exists, not_and, not_lt]
      exact ⟨ho, hp⟩
    · simpa using hb

theorem applyRules_ok {o : Order} {group : List Payment} {c : ℕ} {d : Output} :
    applyRules sha256 s o group c = .ok d ↔ ∃ r, refundRules sha256 s o group c = .ok r ∧
      d = { proposals := paymentRules sha256 s o group c } + r := by
  unfold applyRules
  cases refundRules sha256 s o group c <;> simp [bind, Except.bind, eq_comm]

theorem refundTotals_ok {o : Order} {group : List Payment} {c : ℕ} {d : Output}
    (h : refundTotals sha256 s o group c = .ok d) : d.blocked = [] ∧ d.warnings = [] := by
  unfold refundTotals at h
  simp only [bind, Except.bind] at h
  split at h
  · cases h
  · obtain rfl := Except.ok.inj h
    exact ⟨rfl, rfl⟩

theorem applyRules_blocked {o : Order} {group : List Payment} {c : ℕ} {d : Output}
    (h : applyRules sha256 s o group c = .ok d) {x : Identity} (hx : x ∈ d.blocked) :
    x = .order o.id := by
  obtain ⟨r, hr, rfl⟩ := applyRules_ok.mp h
  have hx : x ∈ r.blocked := by simpa using hx
  simp only [refundRules] at hr
  split_ifs at hr
  · obtain rfl := Except.ok.inj hr
    exact List.mem_singleton.mp hx
  · obtain rfl := Except.ok.inj hr
    exact absurd hx List.not_mem_nil
  · obtain rfl := Except.ok.inj hr
    exact List.mem_singleton.mp hx
  · obtain rfl := Except.ok.inj hr
    exact List.mem_singleton.mp hx
  · rw [(refundTotals_ok hr).1] at hx
    exact absurd hx List.not_mem_nil

theorem evaluateOrder_eq (h : (s.orders.map (·.id)).Nodup) {o : Order} (ho : o ∈ s.orders)
    (out : Output) : evaluateOrder sha256 s (matching sha256 s) out o =
      if s.isMatched o then
        (hold s out.blocked o (s.group o)).elim
          (applyRules sha256 s o (s.group o) (s.matchConfidence o)) .ok
      else .ok 0 := by
  rw [evaluateOrder, lookup_matched h ho]
  by_cases hm : s.isMatched o = true
  · rw [if_pos hm, if_pos hm]
    dsimp only
    cases hold s out.blocked o (s.group o) with
    | none => rfl
    | some held => rfl
  · rw [if_neg hm, if_neg hm]

/-- The identities that the round of an order reads and blocks. -/
def orderFootprint (sha256 : String → String) (s : Snapshot) (o : Order) : Set Identity :=
  if s.isMatched o ∧ Identity.order o.id ∉ (matchedOutput sha256 s).blocked then
    {x | x ∈ groupIdentities o (s.group o)}
  else {.order o.id}

def blockedSet (out : Output) : Set Identity := {x | x ∈ out.blocked}

theorem blockedSet_add (a b : Output) : blockedSet (a + b) = blockedSet a ∪ blockedSet b := by
  ext x; simp [blockedSet]

theorem blockedSet_zero : blockedSet 0 = ∅ := by ext x; simp [blockedSet]

theorem evaluateOrder_reads (h : (s.orders.map (·.id)).Nodup) {o : Order} (ho : o ∈ s.orders) :
    ReadsFootprint (evaluateOrder sha256 s (matching sha256 s)) blockedSet
      (orderFootprint sha256 s) (matchedOutput sha256 s) o := by
  intro acc hacc
  rw [evaluateOrder_eq h ho, evaluateOrder_eq h ho]
  by_cases hm : s.isMatched o = true
  · by_cases hb : Identity.order o.id ∈ (matchedOutput sha256 s).blocked
    · have hb' : Identity.order o.id ∈ acc.blocked :=
        (hacc (.order o.id) (by simp [orderFootprint, hb])).mpr hb
      rw [hold_of_blocked hb, hold_of_blocked hb']
    · have hF : orderFootprint sha256 s o = {x | x ∈ groupIdentities o (s.group o)} :=
        if_pos ⟨hm, hb⟩
      rw [hold_congr fun x hx => hacc x (hF ▸ hx)]
  · simp [hm]

theorem evaluateOrder_writes (h : (s.orders.map (·.id)).Nodup) {o : Order} (ho : o ∈ s.orders) :
    WritesFootprint (evaluateOrder sha256 s (matching sha256 s)) blockedSet
      (orderFootprint sha256 s) (matchedOutput sha256 s) o := by
  intro d hd x hx
  rw [evaluateOrder_eq h ho] at hd
  by_cases hm : s.isMatched o = true
  · rw [if_pos hm] at hd
    by_cases hb : Identity.order o.id ∈ (matchedOutput sha256 s).blocked
    · rw [hold_of_blocked hb] at hd
      obtain rfl := Except.ok.inj hd
      simp [blockedSet] at hx
    · have hF : orderFootprint sha256 s o = {x | x ∈ groupIdentities o (s.group o)} :=
        if_pos ⟨hm, hb⟩
      rw [hF]
      cases hh : hold s (matchedOutput sha256 s).blocked o (s.group o) with
      | some held =>
        rw [hh] at hd
        obtain rfl := Except.ok.inj hd
        exact (hold_blocked hh hx) ▸ hx
      | none =>
        rw [hh] at hd
        rw [applyRules_blocked hd hx]
        exact List.mem_cons_self
  · rw [if_neg hm] at hd
    obtain rfl := Except.ok.inj hd
    simp [blockedSet] at hx

theorem order_mem_groupIdentities {o : Order} {group : List Payment} {oid : String} :
    Identity.order oid ∈ groupIdentities o group ↔ oid = o.id := by
  simp [groupIdentities]

theorem payment_mem_groupIdentities {o : Order} {group : List Payment} {pid : String} :
    Identity.payment pid ∈ groupIdentities o group ↔ pid ∈ group.map (·.id) := by
  simp [groupIdentities]

/-- Orders that share a payment are both blocked by the multi-claim pass, so the footprints of
different orders are disjoint. -/
theorem orderFootprint_disjoint (h : s.Gated) {o o' : Order} (ho : o ∈ s.orders)
    (ho' : o' ∈ s.orders) (hne : o.id ≠ o'.id) :
    Disjoint (orderFootprint sha256 s o) (orderFootprint sha256 s o') := by
  rw [Set.disjoint_left]
  intro x hx hx'
  have hsub : ∀ {q : Order}, x ∈ orderFootprint sha256 s q →
      x = .order q.id ∨ (s.isMatched q = true ∧
        Identity.order q.id ∉ (matchedOutput sha256 s).blocked ∧
        ∃ pid ∈ (s.group q).map (·.id), x = .payment pid) := by
    intro q hq
    unfold orderFootprint at hq
    split_ifs at hq with hc
    · rcases List.mem_cons.mp hq with rfl | hq
      · exact Or.inl rfl
      · obtain ⟨p, hp, rfl⟩ := List.mem_map.mp hq
        exact Or.inr ⟨hc.1, hc.2, p.id, List.mem_map.mpr ⟨p, hp, rfl⟩, rfl⟩
    · exact Or.inl hq
  rcases hsub hx with rfl | ⟨hm, hb, pid, hp, rfl⟩
  · rcases hsub hx' with he | ⟨_, _, _, _, he⟩
    · exact hne (by simpa using he)
    · simp at he
  · rcases hsub hx' with he | ⟨hm', _, pid', hp', he⟩
    · simp at he
    · obtain rfl : pid = pid' := by simpa using he
      have hc : s.contested pid = true := (contested_iff h.orders_nodup).mpr
        ⟨o, mem_claimants.mpr ⟨ho, hm, hp⟩, o', mem_claimants.mpr ⟨ho', hm', hp'⟩,
          fun he => hne (he ▸ rfl)⟩
      exact hb ((mem_matchedOutput_blocked h.payments_nodup).mpr
        (Or.inr ⟨pid, hc, Or.inr ⟨o, mem_claimants.mpr ⟨ho, hm, hp⟩, rfl⟩⟩))

theorem orderFootprint_pairwise (h : s.Gated) : s.sortedOrders.Pairwise
    fun o o' => Disjoint (orderFootprint sha256 s o) (orderFootprint sha256 s o') := by
  refine (List.pairwise_map.mp (sortedOrders_nodup h.orders_nodup)).imp_of_mem ?_
  intro o o' ho ho' hne
  exact orderFootprint_disjoint h (mem_sortedOrders.mp ho) (mem_sortedOrders.mp ho') hne

theorem sweep_evaluateOrder (h : s.Gated) :
    sweep (evaluateOrder sha256 s (matching sha256 s)) (matchedOutput sha256 s) s.sortedOrders =
      (gather (evaluateOrder sha256 s (matching sha256 s) (matchedOutput sha256 s))
        s.sortedOrders >>= fun r => .ok (matchedOutput sha256 s + r)) :=
  sweep_eq_gather blockedSet_add
    (fun _ ho => evaluateOrder_reads h.orders_nodup (mem_sortedOrders.mp ho))
    (fun _ ho => evaluateOrder_writes h.orders_nodup (mem_sortedOrders.mp ho))
    (orderFootprint_pairwise h)

theorem settlePayment_blocked {m : Matching} {out : Output} {p : Payment} {x : Identity}
    (hx : x ∈ (settlePayment sha256 s m out p).blocked) : x = .payment p.id := by
  unfold settlePayment at hx
  split_ifs at hx <;> simp_all

theorem settlePayment_congr {m : Matching} {out out' : Output} {p : Payment}
    (h : Identity.payment p.id ∈ out.blocked ↔ Identity.payment p.id ∈ out'.blocked) :
    settlePayment sha256 s m out p = settlePayment sha256 s m out' p := by
  simp only [settlePayment, h]

section Settle

variable (m : Matching) (out : Output)

theorem settlePayment_reads (p : Payment) : ReadsFootprint (ε := String)
    (fun out p => .ok (settlePayment sha256 s m out p)) blockedSet
    (fun p => {Identity.payment p.id}) out p := by
  intro acc hacc
  exact congrArg _ (settlePayment_congr (hacc (.payment p.id) rfl))

theorem settlePayment_writes (p : Payment) : WritesFootprint (ε := String)
    (fun out p => .ok (settlePayment sha256 s m out p)) blockedSet
    (fun p => {Identity.payment p.id}) out p := by
  intro d hd x hx
  obtain rfl := Except.ok.inj hd
  exact settlePayment_blocked hx

theorem payments_pairwise (h : s.Gated) : (sortBy Payment.id s.payments).Pairwise
    fun p q => Disjoint ({Identity.payment p.id} : Set Identity) {Identity.payment q.id} := by
  have hn : ((sortBy Payment.id s.payments).map (·.id)).Nodup :=
    ((sortBy_perm Payment.id s.payments).map _).nodup_iff.mpr h.payments_nodup
  refine (List.pairwise_map.mp hn).imp ?_
  intro p q hne
  simpa using hne

theorem sweep_settlePayment (h : s.Gated) :
    sweep (ε := String) (fun out p => .ok (settlePayment sha256 s m out p)) out
        (sortBy Payment.id s.payments) =
      (gather (fun p => .ok (settlePayment sha256 s m out p)) (sortBy Payment.id s.payments) >>=
        fun t => .ok (out + t)) :=
  sweep_eq_gather blockedSet_add (fun p _ => settlePayment_reads m out p)
    (fun p _ => settlePayment_writes m out p) (payments_pairwise h)

theorem blocked_of_payment_sweep (h : s.Gated) {before after : List Payment} {p : Payment}
    {out' : Output} (hs : sortBy Payment.id s.payments = before ++ p :: after)
    (hout : sweep (ε := String) (fun out p => .ok (settlePayment sha256 s m out p)) out before =
      .ok out') : Identity.payment p.id ∈ out'.blocked ↔ Identity.payment p.id ∈ out.blocked :=
  agree_of_sweep blockedSet_zero blockedSet_add (fun p _ => settlePayment_reads m out p)
    (fun p _ => settlePayment_writes m out p) (hs ▸ payments_pairwise h) hout rfl

end Settle

end LedgerGuard
