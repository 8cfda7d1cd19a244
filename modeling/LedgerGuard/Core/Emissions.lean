import LedgerGuard.Core.Rounds

/-! # Where the results of an evaluation come from

Every proposal, blocked identity and warning of a run that passes the gates is
emitted by one of four places: a conflicting order, a payment with several
claims, the round of an order, or the round of an unclaimed payment. Each of
them reads only the snapshot and what the matching passes blocked.
-/

namespace LedgerGuard

open Ordered Grouping Sweep

variable {sha256 : String → String} {s : Snapshot}

def orderPart (sha256 : String → String) (s : Snapshot) (o : Order) : Except String Output :=
  evaluateOrder sha256 s (matching sha256 s) (matchedOutput sha256 s) o

def paymentPart (sha256 : String → String) (s : Snapshot) (p : Payment) : Output :=
  settlePayment sha256 s (matching sha256 s) (matchedOutput sha256 s) p

/-- The order reaches the rules: it is matched, and nothing holds its group. -/
def Admitted (sha256 : String → String) (s : Snapshot) (o : Order) : Prop :=
  s.isMatched o = true ∧ hold s (matchedOutput sha256 s).blocked o (s.group o) = none

theorem blocked_of_orderPart (h : (s.orders.map (·.id)).Nodup) {o : Order} (ho : o ∈ s.orders)
    {d : Output} (hd : orderPart sha256 s o = .ok d) {x : Identity} (hx : x ∈ d.blocked) :
    s.isMatched o = true ∧ x ∈ groupIdentities o (s.group o) := by
  rw [orderPart, evaluateOrder_eq h ho] at hd
  by_cases hm : s.isMatched o = true
  · rw [if_pos hm] at hd
    refine ⟨hm, ?_⟩
    cases hh : hold s (matchedOutput sha256 s).blocked o (s.group o) with
    | some held =>
      rw [hh] at hd
      obtain rfl := Except.ok.inj hd
      exact hold_blocked hh hx ▸ hx
    | none =>
      rw [hh] at hd
      rw [applyRules_blocked hd hx]
      exact List.mem_cons_self
  · rw [if_neg hm] at hd
    obtain rfl := Except.ok.inj hd
    exact absurd hx List.not_mem_nil

theorem blocked_after_orders (h : s.Gated) {r : Output}
    (hr : gather (orderPart sha256 s) s.sortedOrders = .ok r) {p : Payment}
    (hk : p.id ∉ keys (matching sha256 s).claimed) :
    Identity.payment p.id ∈ (matchedOutput sha256 s + r).blocked ↔
      Identity.payment p.id ∈ (matchedOutput sha256 s).blocked := by
  have hn : Identity.payment p.id ∉ r.blocked := by
    intro hb
    obtain ⟨o, ho, d, hd, hb⟩ := (mem_gather Output.blockedField hr).mp hb
    have ho := mem_sortedOrders.mp ho
    obtain ⟨hm, hg⟩ := blocked_of_orderPart h.orders_nodup ho hd hb
    exact hk (mem_keys_claimed.mpr (List.ne_nil_of_mem
      (mem_claimants.mpr ⟨ho, hm, payment_mem_groupIdentities.mp hg⟩)))
  rw [Output.blocked_add, List.mem_append, or_iff_left hn]

theorem settlePayment_after_orders (h : s.Gated) {r : Output}
    (hr : gather (orderPart sha256 s) s.sortedOrders = .ok r) (p : Payment) :
    settlePayment sha256 s (matching sha256 s) (matchedOutput sha256 s + r) p =
      paymentPart sha256 s p := by
  by_cases hk : p.id ∈ keys (matching sha256 s).claimed
  · simp only [paymentPart, settlePayment, hk, true_or, if_true]
  · exact settlePayment_congr (blocked_after_orders h hr hk)

theorem reconcileFacts_eq (h : s.Gated) : reconcileFacts sha256 s = (do
    let r ← gather (orderPart sha256 s) s.sortedOrders
    .ok (matchedOutput sha256 s + r +
      ((sortBy Payment.id s.payments).map (paymentPart sha256 s)).sum)) := by
  rw [reconcileFacts]
  change (sweep (evaluateOrder sha256 s (matching sha256 s)) (matchedOutput sha256 s)
    s.sortedOrders >>= _) = _
  rw [sweep_evaluateOrder h]
  change _ = (gather (evaluateOrder sha256 s (matching sha256 s) (matchedOutput sha256 s))
    s.sortedOrders >>= _)
  cases hr : gather (evaluateOrder sha256 s (matching sha256 s) (matchedOutput sha256 s))
    s.sortedOrders with
  | error e => rfl
  | ok r =>
    change sweep _ (matchedOutput sha256 s + r) _ = _
    rw [sweep_settlePayment _ _ h, gather_ok,
      List.map_congr_left fun p _ => settlePayment_after_orders h hr p]
    rfl

theorem mem_reconcileFacts {β : Type} (F : Field Output β) (h : s.Gated) {out : Output}
    (ho : reconcileFacts sha256 s = .ok out) {b : β} : b ∈ F.get out ↔
      (∃ o ∈ s.orders, s.conflicted o = true ∧ b ∈ F.get (conflictOutput sha256 s o)) ∨
      (∃ pid, s.contested pid = true ∧
        b ∈ F.get (claimOutput sha256 s pid ((s.claimants pid).map (·.id)))) ∨
      (∃ o ∈ s.orders, ∃ d, orderPart sha256 s o = .ok d ∧ b ∈ F.get d) ∨
      ∃ p ∈ s.payments, b ∈ F.get (paymentPart sha256 s p) := by
  rw [reconcileFacts_eq h] at ho
  cases hr : gather (orderPart sha256 s) s.sortedOrders with
  | error e => rw [hr] at ho; cases ho
  | ok r =>
    rw [hr] at ho
    obtain rfl := Except.ok.inj ho
    rw [F.get_add, F.get_add, List.mem_append, List.mem_append,
      mem_matchedOutput F h.payments_nodup, mem_gather F hr, F.mem_sum]
    simp only [mem_sortedOrders, List.mem_map, mem_sortBy, exists_exists_and_eq_and, or_assoc]

theorem reconcileFacts_ok_iff (sha256 : String → String) (h : s.Gated) :
    (∃ out, reconcileFacts sha256 s = .ok out) ↔
    ∀ o ∈ s.orders, ∃ d, orderPart sha256 s o = .ok d := by
  rw [reconcileFacts_eq h]
  have hg : (∃ r, gather (orderPart sha256 s) s.sortedOrders = .ok r) ↔
      ∀ o ∈ s.orders, ∃ d, orderPart sha256 s o = .ok d := by
    rw [gather_ok_iff]
    simp only [mem_sortedOrders]
  rw [← hg]
  cases gather (orderPart sha256 s) s.sortedOrders <;> simp [bind, Except.bind]

theorem evaluate_ok (h : s.Gated) {e : Evaluation} : evaluate sha256 s = .ok e ↔
    ∃ out, reconcileFacts sha256 s = .ok out ∧ e =
      { proposals := sortBy Proposal.key out.proposals
        evaluatedRules := s.rules
        blockedIdentities := sortedSet Identity.render out.blocked
        warnings := sortedSet Warning.render out.warnings
        inputDigest := sha256 (canonical s.orderedInput) } := by
  rw [evaluate_of_gated h]
  cases reconcileFacts sha256 s <;> simp [bind, Except.bind, eq_comm]

theorem evaluate_ok_iff (sha256 : String → String) (h : s.Gated) :
    (∃ e, evaluate sha256 s = .ok e) ↔ ∀ o ∈ s.orders, ∃ d, orderPart sha256 s o = .ok d := by
  rw [← reconcileFacts_ok_iff sha256 h]
  constructor
  · rintro ⟨e, he⟩
    obtain ⟨out, ho, -⟩ := (evaluate_ok h).mp he
    exact ⟨out, ho⟩
  · rintro ⟨out, ho⟩
    exact ⟨_, (evaluate_ok h).mpr ⟨out, ho, rfl⟩⟩

/-- Evaluation stops before any matching. -/
def Snapshot.Early (s : Snapshot) : Prop :=
  s.stale ≠ [] ∨ s.linkVerified = false ∨ s.linkConflict = true

theorem evaluate_valid {e : Evaluation} (he : evaluate sha256 s = .ok e) :
    s.validate = .ok () := by
  unfold evaluate at he
  cases hv : s.validate with
  | error m => rw [hv] at he; cases he
  | ok u => rfl

theorem early_or_gated_of_valid (hv : s.validate = .ok ()) : s.Early ∨ s.Gated := by
  by_cases h : s.Early
  · exact Or.inl h
  · simp only [Snapshot.Early, not_or, not_not, Bool.not_eq_false, Bool.not_eq_true] at h
    exact Or.inr ⟨hv, h.1, h.2.1, h.2.2⟩

theorem early_or_gated {e : Evaluation} (he : evaluate sha256 s = .ok e) : s.Early ∨ s.Gated :=
  early_or_gated_of_valid (evaluate_valid he)

theorem completes_of_early (hv : s.validate = .ok ()) (h : s.Early) :
    ∃ e, evaluate sha256 s = .ok e := by
  simp only [evaluate, hv, bind, Except.bind]
  by_cases hs : s.stale = []
  · rw [if_neg (not_not.mpr hs), if_pos (h.resolve_left (not_not.mpr hs))]
    exact ⟨_, rfl⟩
  · rw [if_pos hs]
    exact ⟨_, rfl⟩

theorem evaluate_of_early (h : s.Early) {e : Evaluation} (he : evaluate sha256 s = .ok e) :
    e.blockedIdentities = [] ∧
      (e.evaluatedRules = if s.stale ≠ [] then s.rules.filter (· = .pi009)
        else s.rules.filter fun r => r = .pi009 ∨ r = .pi010) ∧
      ∀ p ∈ e.proposals, p.identities = [.store s.storeId] := by
  have hv := evaluate_valid he
  simp only [evaluate, hv, bind, Except.bind] at he
  have hone : sortedSet Identity.render [.store s.storeId] = [.store s.storeId] := rfl
  by_cases hs : s.stale = []
  · have hl : s.linkVerified = false ∨ s.linkConflict = true := h.resolve_left (not_not.mpr hs)
    rw [if_neg (not_not.mpr hs), if_pos hl] at he
    obtain rfl := Except.ok.inj he
    refine ⟨rfl, by simp [hs], ?_⟩
    intro p hp
    split_ifs at hp with hc
    · exact (mem_emit hp).2.2.1.trans hone
    · simp at hp
  · rw [if_pos hs] at he
    obtain rfl := Except.ok.inj he
    exact ⟨rfl, by simp [hs], fun p hp => (mem_emit hp).2.2.1.trans hone⟩

theorem orderPart_proposals (h : (s.orders.map (·.id)).Nodup) {o : Order} (ho : o ∈ s.orders)
    {p : Proposal} : (∃ d, orderPart sha256 s o = .ok d ∧ p ∈ d.proposals) ↔
      Admitted sha256 s o ∧
        ∃ d, applyRules sha256 s o (s.group o) (s.matchConfidence o) = .ok d ∧
          p ∈ d.proposals := by
  have hheld : ∀ {held}, hold s (matchedOutput sha256 s).blocked o (s.group o) = some held →
      held.proposals = [] := by
    intro held hh
    unfold hold at hh
    split_ifs at hh <;> obtain rfl := Option.some.inj hh <;> rfl
  rw [orderPart, evaluateOrder_eq h ho, Admitted]
  by_cases hm : s.isMatched o = true
  · cases hh : hold s (matchedOutput sha256 s).blocked o (s.group o) with
    | none => simp [hm]
    | some held => simp [hm, hheld hh]
  · simp [hm]

theorem mem_conflictOutput {o : Order} {p : Proposal}
    (hp : p ∈ (conflictOutput sha256 s o).proposals) :
    p.rule = .pi010 ∧ RuleCode.pi010 ∈ s.rules ∧
      (∀ x, x ∈ p.identities ↔ x ∈ groupIdentities o (s.resolved o)) ∧
      p.evidence.facts.stripeRefunds = none ∧ p.evidence.facts.wooRefunds = none := by
  obtain ⟨he, hr, hi, hf⟩ := mem_emit hp
  rw [hr, hi, hf]
  exact ⟨rfl, he, fun x => mem_sortedSet, rfl, rfl⟩

theorem exists_mem_conflictOutput (sha256 : String → String) (hr : RuleCode.pi010 ∈ s.rules) (o : Order) :
    ∃ p, p ∈ (conflictOutput sha256 s o).proposals := by
  obtain ⟨p, hp, -⟩ := exists_mem_emit sha256 hr
    (.order o.id :: (s.resolved o).map (Identity.payment ·.id)) (some o.amount) 100 s.now _
  exact ⟨p, hp⟩

theorem mem_claimOutput {pid : String} {p : Proposal}
    (hp : p ∈ (claimOutput sha256 s pid ((s.claimants pid).map (·.id))).proposals) :
    p.rule = .pi010 ∧ RuleCode.pi010 ∈ s.rules ∧
      (∀ x, x ∈ p.identities ↔ x = .payment pid ∨ ∃ o ∈ s.claimants pid, x = .order o.id) ∧
      p.evidence.facts.stripeRefunds = none ∧ p.evidence.facts.wooRefunds = none := by
  unfold claimOutput at hp
  split_ifs at hp with hc
  · obtain ⟨he, hr, hi, hf⟩ := mem_emit hp
    rw [hr, hi, hf]
    exact ⟨rfl, he, fun x => by simp [eq_comm], rfl, rfl⟩
  · exact absurd hp List.not_mem_nil

theorem mem_paymentRules {o : Order} {group : List Payment} {c : ℕ} {p : Proposal}
    (h : p ∈ paymentRules sha256 s o group c) :
    p.rule ∈ [RuleCode.pi001, .pi003, .pi004, .pi005] ∧ Identity.order o.id ∈ p.identities ∧
      (∀ x ∈ p.identities, x ∈ groupIdentities o group) ∧
      p.evidence.facts.payments = some group ∧ p.evidence.facts.stripeRefunds = none ∧
      p.evidence.facts.wooRefunds = none := by
  simp only [paymentRules, duplicateRule, missingRule, pairRules, List.mem_append,
    List.mem_flatMap, List.mem_ite_nil_right] at h
  rcases h with (⟨-, h⟩ | ⟨-, h⟩) | ⟨q, hq, h⟩
  · obtain ⟨-, hr, hi, hf⟩ := mem_emit h
    rw [hr, hi, hf]
    exact ⟨by decide, by simp [groupIdentities], fun x hx => mem_sortedSet.mp hx, rfl, rfl, rfl⟩
  · obtain ⟨-, hr, hi, hf⟩ := mem_emit h
    rw [hr, hi, hf]
    refine ⟨by decide, by simp, fun x hx => ?_, rfl, rfl, rfl⟩
    exact List.mem_singleton.mp (mem_sortedSet.mp hx) ▸ List.mem_cons_self
  · have hpair : ∀ x ∈ [Identity.order o.id, .payment q.id], x ∈ groupIdentities o group := by
      intro x hx
      rcases List.mem_cons.mp hx with rfl | hx
      · exact List.mem_cons_self
      · rw [List.mem_singleton.mp hx]
        exact payment_mem_groupIdentities.mpr
          (List.mem_map.mpr ⟨q, (List.mem_filter.mp hq).1, rfl⟩)
    rcases h with ⟨-, h⟩ | ⟨-, h⟩
    all_goals
      obtain ⟨-, hr, hi, hf⟩ := mem_emit h
      rw [hr, hi, hf]
      exact ⟨by decide, by simp, fun x hx => hpair x (mem_sortedSet.mp hx), rfl, rfl, rfl⟩

theorem mem_refundRules {o : Order} {group : List Payment} {c : ℕ} {d : Output} {p : Proposal}
    (h : refundRules sha256 s o group c = .ok d) (hp : p ∈ d.proposals) :
    p.rule ∈ [RuleCode.pi006, .pi007, .pi008] ∧ p.identities = [.order o.id] ∧
      (∀ r ∈ (p.evidence.facts.stripeRefunds.getD []), r.changedAt ≤ s.through) ∧
      ∀ r ∈ (p.evidence.facts.wooRefunds.getD []), r.changedAt ≤ s.through := by
  have hone : sortedSet Identity.render [.order o.id] = [.order o.id] := rfl
  simp only [refundRules] at h
  split_ifs at h with h₁ h₂ h₃ h₄
  · obtain rfl := Except.ok.inj h
    simp at hp
  · obtain rfl := Except.ok.inj h
    obtain ⟨-, hr, hi, hf⟩ := mem_emit hp
    rw [hr, hi, hf]
    exact ⟨by decide, hone, by simp [orderFacts], by simp [orderFacts]⟩
  · obtain rfl := Except.ok.inj h
    simp at hp
  · obtain rfl := Except.ok.inj h
    simp at hp
  · simp only [List.any_eq_true, List.mem_append, decide_eq_true_eq, not_exists, not_and,
      not_lt] at h₁
    have key : ∀ {rule : RuleCode} {risk : Option Money} {eligible : Instant},
        rule ∈ [RuleCode.pi006, .pi007, .pi008] →
        p ∈ emit sha256 s rule [.order o.id] risk c eligible (refundFacts s o group) →
        p.rule ∈ [RuleCode.pi006, .pi007, .pi008] ∧ p.identities = [.order o.id] ∧
          (∀ r ∈ (p.evidence.facts.stripeRefunds.getD []), r.changedAt ≤ s.through) ∧
          ∀ r ∈ (p.evidence.facts.wooRefunds.getD []), r.changedAt ≤ s.through := by
      intro rule risk eligible hrule hp
      obtain ⟨-, hr, hi, hf⟩ := mem_emit hp
      rw [hr, hi, hf]
      exact ⟨hrule, hone, fun r hr => h₁ r (Or.inl hr), fun r hr => h₁ r (Or.inr hr)⟩
    unfold refundTotals at h
    simp only [bind, Except.bind] at h
    split at h
    · cases h
    · obtain rfl := Except.ok.inj h
      simp only at hp
      split_ifs at hp
      all_goals first
        | exact key (by decide) hp
        | exact absurd hp List.not_mem_nil

theorem mem_paymentPart {q : Payment} {p : Proposal}
    (hp : p ∈ (paymentPart sha256 s q).proposals) :
    p.rule = .pi002 ∧ p.identities = [.payment q.id] ∧ q.changedAt ≤ s.through ∧
      p.evidence.facts = { payment := some q, confirmedStoreId := some s.storeId } := by
  have hone : sortedSet Identity.render [.payment q.id] = [.payment q.id] := rfl
  unfold paymentPart settlePayment at hp
  split_ifs at hp with h₁ h₂ h₃
  · simp at hp
  · simp at hp
  · obtain ⟨-, hr, hi, hf⟩ := mem_emit hp
    exact ⟨hr, hi.trans hone, not_lt.mp (not_or.mp h₂).1, hf⟩
  · simp at hp

theorem exists_mem_claimOutput (sha256 : String → String) (hr : RuleCode.pi010 ∈ s.rules)
    {pid : String} (hc : s.contested pid = true) :
    ∃ p, p ∈ (claimOutput sha256 s pid ((s.claimants pid).map (·.id))).proposals := by
  have hl : 1 < ((s.claimants pid).map (·.id)).length := by
    simpa [Snapshot.contested] using hc
  rw [claimOutput, if_pos hl]
  obtain ⟨p, hp, -⟩ := exists_mem_emit sha256 hr
    (.payment pid :: ((s.claimants pid).map (·.id)).map Identity.order)
    ((s.payments.find? (·.id = pid)).map (·.received)) 100 s.now _
  exact ⟨p, hp⟩

theorem mem_applyRules {o : Order} {group : List Payment} {c : ℕ} {d : Output} {p : Proposal}
    (hd : applyRules sha256 s o group c = .ok d) : p ∈ d.proposals ↔
      p ∈ paymentRules sha256 s o group c ∨
        ∃ r, refundRules sha256 s o group c = .ok r ∧ p ∈ r.proposals := by
  obtain ⟨r, hr, rfl⟩ := applyRules_ok.mp hd
  simp [hr]

theorem mem_proposals (h : s.Gated) {e : Evaluation} (he : evaluate sha256 s = .ok e)
    {p : Proposal} : p ∈ e.proposals ↔
      (∃ o ∈ s.orders, s.conflicted o = true ∧ p ∈ (conflictOutput sha256 s o).proposals) ∨
      (∃ pid, s.contested pid = true ∧
        p ∈ (claimOutput sha256 s pid ((s.claimants pid).map (·.id))).proposals) ∨
      (∃ o ∈ s.orders, Admitted sha256 s o ∧
        (p ∈ paymentRules sha256 s o (s.group o) (s.matchConfidence o) ∨
          ∃ r, refundRules sha256 s o (s.group o) (s.matchConfidence o) = .ok r ∧
            p ∈ r.proposals)) ∨
      ∃ q ∈ s.payments, p ∈ (paymentPart sha256 s q).proposals := by
  obtain ⟨out, hout, rfl⟩ := (evaluate_ok h).mp he
  have hall := (reconcileFacts_ok_iff sha256 h).mp ⟨out, hout⟩
  simp only [mem_sortBy]
  refine (mem_reconcileFacts Output.proposalsField h hout).trans
    (or_congr Iff.rfl (or_congr Iff.rfl (or_congr (exists_congr fun o => ?_) Iff.rfl)))
  refine and_congr_right fun ho => (orderPart_proposals h.orders_nodup ho).trans
    (and_congr_right fun ha => ?_)
  -- the run succeeded, so the rules on an admitted order did
  have hok : ∃ d, applyRules sha256 s o (s.group o) (s.matchConfidence o) = .ok d := by
    obtain ⟨d, hd⟩ := hall o ho
    rw [orderPart, evaluateOrder_eq h.orders_nodup ho, if_pos ha.1, ha.2] at hd
    exact ⟨d, hd⟩
  constructor
  · rintro ⟨d, hd, hp⟩
    exact (mem_applyRules hd).mp hp
  · intro hp
    obtain ⟨d, hd⟩ := hok
    exact ⟨d, hd, (mem_applyRules hd).mpr hp⟩

theorem mem_blockedIdentities (h : s.Gated) {e : Evaluation} (he : evaluate sha256 s = .ok e)
    {x : Identity} : x ∈ e.blockedIdentities ↔
      x ∈ (matchedOutput sha256 s).blocked ∨
      (∃ o ∈ s.orders, ∃ d, orderPart sha256 s o = .ok d ∧ x ∈ d.blocked) ∨
      ∃ q ∈ s.payments, x ∈ (paymentPart sha256 s q).blocked := by
  obtain ⟨out, hout, rfl⟩ := (evaluate_ok h).mp he
  simp only [mem_sortedSet]
  refine (mem_reconcileFacts Output.blockedField h hout).trans ?_
  rw [← or_assoc, ← mem_matchedOutput Output.blockedField h.payments_nodup]
  rfl

theorem mem_warnings (h : s.Gated) {e : Evaluation} (he : evaluate sha256 s = .ok e)
    {w : Warning} : w ∈ e.warnings ↔
      (∃ o ∈ s.orders, ∃ d, orderPart sha256 s o = .ok d ∧ w ∈ d.warnings) ∨
      ∃ q ∈ s.payments, w ∈ (paymentPart sha256 s q).warnings := by
  have hclaim : ∀ pid ids, (claimOutput sha256 s pid ids).warnings = [] := by
    intro pid ids
    unfold claimOutput
    split_ifs <;> rfl
  obtain ⟨out, hout, rfl⟩ := (evaluate_ok h).mp he
  simp only [mem_sortedSet]
  refine (mem_reconcileFacts Output.warningsField h hout).trans ?_
  simp [Output.warningsField, conflictOutput, hclaim]

end LedgerGuard
