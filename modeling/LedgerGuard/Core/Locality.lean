import LedgerGuard.Core.Attribution
import LedgerGuard.Core.Views
import LedgerGuard.Lib.Raising

/-! # Evaluation is local

A part of a snapshot that is closed under the links between orders, payments and
refunds is evaluated as if the rest were absent, so a snapshot made of two such
parts says what the two parts say.
-/

namespace LedgerGuard

open Ordered Grouping Sweep Raising

variable {sha256 : String → String} {s s₁ s₂ t : Snapshot} {o : Order} {p : Payment}
  {x : Identity}

/-- A reference of the order is an alias of the payment, or the payment hints the order. -/
def Linked (s : Snapshot) (o : Order) (p : Payment) : Prop :=
  (∃ ref ∈ o.references, ref ∈ p.aliases) ∨ p ∈ s.hintsByOrder o.id

theorem mem_group_iff_linked (hp : p ∈ s.payments) : p ∈ s.group o ↔ Linked s o p := by
  rw [mem_group, mem_resolved, Linked, and_iff_right hp]

/-- A sub-snapshot closed under links. -/
structure Part (t s : Snapshot) : Prop where
  frame : SameFrame t s
  payments : t.payments.Subperm s.payments
  orders : t.orders.Subperm s.orders
  refunds : t.refunds.Subperm s.refunds
  linked : ∀ o ∈ s.orders, ∀ p ∈ s.payments, Linked s o p → (o ∈ t.orders ↔ p ∈ t.payments)
  stripe : ∀ r ∈ s.refunds, r.source = .stripe →
    ∀ p ∈ t.payments, r.parentId = p.id → r ∈ t.refunds
  woo : ∀ r ∈ s.refunds, r.source = .woo → ∀ o ∈ t.orders, r.parentId = o.id → r ∈ t.refunds

theorem nodup_map_of_subperm {α β : Type} {f : α → β} {xs ys : List α} (h : xs.Subperm ys)
    (hn : (ys.map f).Nodup) : (xs.map f).Nodup := by
  obtain ⟨zs, hp, hs⟩ := h
  exact (hp.map f).nodup_iff.mp (hn.sublist (hs.map f))

namespace Part

variable (hp : Part t s) (hs : s.Gated)

include hp

include hs

theorem gated : t.Gated := by
  have hv := hs.valid
  unfold Snapshot.validate at hv
  split_ifs at hv with h₁ h₂ h₃ h₄ h₅ h₆
  refine ⟨?_, ?_, ?_, ?_⟩
  · have hw : ¬ t.now < t.windowFrom := by rwa [hp.frame.now, hp.frame.windowFrom]
    have hn := not_or.mpr ⟨not_not.mpr (nodup_map_of_subperm hp.payments hs.payments_nodup),
      not_not.mpr (nodup_map_of_subperm hp.orders hs.orders_nodup)⟩
    have hpay :
        ¬ t.payments.any (fun p => p.accountId ≠ t.accountId || p.mode ≠ t.mode) = true := by
      rw [hp.frame.accountId, hp.frame.mode]
      intro ha
      obtain ⟨p, hm, hb⟩ := List.any_eq_true.mp ha
      exact h₃ (List.any_eq_true.mpr ⟨p, hp.payments.subset hm, hb⟩)
    have hord : ¬ t.orders.any (fun o => o.storeId ≠ t.storeId || o.mode ≠ t.mode) = true := by
      rw [hp.frame.storeId, hp.frame.mode]
      intro ha
      obtain ⟨o, hm, hb⟩ := List.any_eq_true.mp ha
      exact h₄ (List.any_eq_true.mpr ⟨o, hp.orders.subset hm, hb⟩)
    have hcov : ¬ ¬ (t.coverage.map (·.source)).Nodup := by
      rw [hp.frame.coverage]
      exact not_not.mpr h₅
    have href := not_not.mpr (nodup_map_of_subperm hp.refunds hs.refunds_nodup)
    rw [Snapshot.validate, if_neg hw, if_neg hn, if_neg hpay, if_neg hord, if_neg hcov, if_neg href]
  · rw [stale_congr hp.frame, hs.fresh]
  · rw [hp.frame.linkVerified, hs.verified]
  · rw [hp.frame.linkConflict, hs.unconflicted]

omit hs in
theorem mem_payments (ho : o ∈ t.orders) (hm : p ∈ s.payments) (hl : Linked s o p) :
    p ∈ t.payments :=
  (hp.linked o (hp.orders.subset ho) p hm hl).mp ho

omit hs in
theorem view (ho : o ∈ t.orders) : SameView t s o where
  resolved p := by
    rw [mem_resolved, mem_resolved]
    refine and_congr_left fun hl => ⟨fun hm => hp.payments.subset hm, fun hm => ?_⟩
    exact hp.mem_payments ho hm (Or.inl hl)
  hints p := by
    rw [mem_hintsByOrder, mem_hintsByOrder, hp.frame.storeId]
    refine and_congr_left fun hl => ⟨fun hm => hp.payments.subset hm, fun hm => ?_⟩
    exact hp.mem_payments ho hm (Or.inr (mem_hintsByOrder.mpr ⟨hm, hl⟩))
  refunds r hr := by
    refine ⟨fun hm => hp.refunds.subset hm, fun hm => ?_⟩
    simp only [refundInView, Bool.or_eq_true, Bool.and_eq_true, decide_eq_true_eq] at hr
    rcases hr with ⟨hsrc, hpar⟩ | ⟨hsrc, hpar⟩
    · obtain ⟨p, hg, he⟩ := List.mem_map.mp hpar
      have hps := mem_payments_of_mem_group hg
      exact hp.stripe r hm hsrc p
        (hp.mem_payments ho hps ((mem_group_iff_linked hps).mp hg)) he.symm
    · exact hp.woo r hm hsrc o ho hpar

theorem conflicted_iff (ho : o ∈ t.orders) : t.conflicted o = s.conflicted o :=
  conflicted_congr hp.frame (hp.view ho) (hp.gated hs) hs

theorem mem_claimants_iff (hm : p ∈ t.payments) :
    o ∈ t.claimants p.id ↔ o ∈ s.claimants p.id := by
  have hms := hp.payments.subset hm
  rw [LedgerGuard.mem_claimants_iff (hp.gated hs).payments_nodup hm,
    LedgerGuard.mem_claimants_iff hs.payments_nodup hms, InGroup, InGroup]
  constructor
  · rintro ⟨ho, hmt, hg⟩
    rw [isMatched_congr hp.frame (hp.view ho) (hp.gated hs) hs] at hmt
    rw [group_congr (hp.view ho) (hp.gated hs) hs] at hg
    exact ⟨hp.orders.subset ho, hmt, hg⟩
  · rintro ⟨ho, hmt, hg⟩
    have hot : o ∈ t.orders := (hp.linked o ho p hms ((mem_group_iff_linked hms).mp hg)).mpr hm
    rw [isMatched_congr hp.frame (hp.view hot) (hp.gated hs) hs,
      group_congr (hp.view hot) (hp.gated hs) hs]
    exact ⟨hot, hmt, hg⟩

theorem contested_iff (hm : p ∈ t.payments) :
    t.contested p.id = true ↔ s.contested p.id = true := by
  rw [LedgerGuard.contested_iff (hp.gated hs).orders_nodup,
    LedgerGuard.contested_iff hs.orders_nodup]
  simp only [hp.mem_claimants_iff hs hm]

theorem blocked_iff (sha256 : String → String)
    (hx : (∃ o ∈ t.orders, x = .order o.id) ∨ ∃ p ∈ t.payments, x = .payment p.id) :
    x ∈ (matchedOutput sha256 t).blocked ↔ x ∈ (matchedOutput sha256 s).blocked := by
  rw [mem_matchedOutput_blocked (hp.gated hs).payments_nodup,
    mem_matchedOutput_blocked hs.payments_nodup]
  constructor
  · rintro (⟨o, ho, hc, hm⟩ | ⟨pid, hc, hm⟩)
    · rw [hp.conflicted_iff hs ho] at hc
      refine Or.inl ⟨o, hp.orders.subset ho, hc, ?_⟩
      simpa only [groupIdentities, List.mem_cons, List.mem_map, (hp.view ho).resolved] using hm
    · obtain ⟨p, hpt, rfl⟩ := exists_of_contested hc
      simp only [hp.mem_claimants_iff hs hpt] at hm
      exact Or.inr ⟨p.id, (hp.contested_iff hs hpt).mp hc, hm⟩
  · -- an order or payment that the whole run blocks is linked to what blocks it
    rintro (⟨o, ho, hc, hm⟩ | ⟨pid, hc, hm⟩)
    · have hot : o ∈ t.orders := by
        rcases List.mem_cons.mp hm with rfl | hm
        · rcases hx with ⟨o', ho', he⟩ | ⟨p, -, he⟩
          · have he : o.id = o'.id := by simpa using he
            exact eq_of_id_eq hs.orders_nodup ho (hp.orders.subset ho') he ▸ ho'
          · cases he
        · obtain ⟨p, hr, rfl⟩ := List.mem_map.mp hm
          obtain ⟨hms, hl⟩ := mem_resolved.mp hr
          rcases hx with ⟨o', -, he⟩ | ⟨p', hp', he⟩
          · cases he
          · have he : p.id = p'.id := by simpa using he
            have := payment_eq_of_id_eq hs.payments_nodup hms (hp.payments.subset hp') he
            exact (hp.linked o ho p hms (Or.inl hl)).mpr (this ▸ hp')
      refine Or.inl ⟨o, hot, by rwa [hp.conflicted_iff hs hot], ?_⟩
      simpa only [groupIdentities, List.mem_cons, List.mem_map, (hp.view hot).resolved] using hm
    · obtain ⟨p, hps, rfl⟩ := exists_of_contested hc
      have hpt : p ∈ t.payments := by
        rcases hm with rfl | ⟨o, ho, rfl⟩
        · rcases hx with ⟨o', -, he⟩ | ⟨p', hp', he⟩
          · cases he
          · have he : p.id = p'.id := by simpa using he
            exact payment_eq_of_id_eq hs.payments_nodup hps (hp.payments.subset hp') he ▸ hp'
        · obtain ⟨hos, hg⟩ := (LedgerGuard.mem_claimants_iff hs.payments_nodup hps).mp ho
          rcases hx with ⟨o', ho', he⟩ | ⟨p', -, he⟩
          · have he : o.id = o'.id := by simpa using he
            have := eq_of_id_eq hs.orders_nodup hos (hp.orders.subset ho') he
            exact hp.mem_payments (this ▸ ho') hps ((mem_group_iff_linked hps).mp hg.2)
          · cases he
      simp only [← hp.mem_claimants_iff hs hpt] at hm
      exact Or.inr ⟨p.id, (hp.contested_iff hs hpt).mpr hc, hm⟩

theorem orderPart_sketch (sha256 : String → String) (ho : o ∈ t.orders) :
    (orderPart sha256 t o).map Output.sketch = (orderPart sha256 s o).map Output.sketch := by
  refine LedgerGuard.orderPart_sketch hp.frame (hp.view ho) (hp.gated hs) hs ho
    (hp.orders.subset ho) fun x hx => hp.blocked_iff hs sha256 ?_
  rcases List.mem_cons.mp hx with rfl | hx
  · exact Or.inl ⟨o, ho, rfl⟩
  · obtain ⟨p, hg, rfl⟩ := List.mem_map.mp hx
    have hps := mem_payments_of_mem_group hg
    exact Or.inr ⟨p, hp.mem_payments ho hps ((mem_group_iff_linked hps).mp hg), rfl⟩

theorem claimOutput_sketch (hm : p ∈ t.payments) :
    (claimOutput sha256 t p.id ((t.claimants p.id).map (·.id))).sketch =
      (claimOutput sha256 s p.id ((s.claimants p.id).map (·.id))).sketch := by
  have hlen : ∀ {u : Snapshot}, 1 < ((u.claimants p.id).map (·.id)).length ↔
      u.contested p.id = true := by
    intro u
    simp [Snapshot.contested]
  have hids : ∀ x,
      x ∈ Identity.payment p.id :: ((t.claimants p.id).map (·.id)).map Identity.order ↔
      x ∈ Identity.payment p.id :: ((s.claimants p.id).map (·.id)).map Identity.order := by
    intro x
    simp only [List.mem_cons, List.mem_map, hp.mem_claimants_iff hs hm, exists_exists_and_eq_and]
  by_cases hc : s.contested p.id = true
  · have hct := (hp.contested_iff hs hm).mpr hc
    rw [claimOutput, claimOutput, if_pos (hlen.mpr hct), if_pos (hlen.mpr hc),
      find?_of_nodup (hp.gated hs).payments_nodup hm,
      find?_of_nodup hs.payments_nodup (hp.payments.subset hm)]
    refine Output.sketch_congr ?_ hids rfl
    simp only [hp.frame.now]
    exact emit_summary_congr hp.frame hids
  · have hct := fun h => hc ((hp.contested_iff hs hm).mp h)
    rw [claimOutput_of_not (hlen.not.mpr hct), claimOutput_of_not (hlen.not.mpr hc)]

theorem paymentPart_eq (hm : p ∈ t.payments) :
    paymentPart sha256 t p = paymentPart sha256 s p := by
  have hk : p.id ∈ keys (matching sha256 t).claimed ↔ p.id ∈ keys (matching sha256 s).claimed := by
    simp only [mem_keys_claimed, ne_eq, List.eq_nil_iff_forall_not_mem, hp.mem_claimants_iff hs hm]
  have hb := hp.blocked_iff hs sha256 (x := .payment p.id) (Or.inr ⟨p, hm, rfl⟩)
  simp only [paymentPart, settlePayment, hk, hb, through_congr hp.frame, hp.frame.windowFrom,
    hp.frame.storeId, emit_congr hp.frame, paymentEligible_congr hp.frame]

end Part

/-- A field of the output that a sketch determines, as a set. -/
def Observed {β : Type} (F : Field Output β) : Prop :=
  ∀ a b : Output, a.sketch = b.sketch → ∀ x, x ∈ F.get a ↔ x ∈ F.get b

def summaryField : Field Output Summary where
  get out := out.proposals.map Proposal.summary
  get_zero := rfl
  get_add _ _ := List.map_append

/-- What an order contributes, in the conflict pass and in its round. -/
def orderEmits {β : Type} (sha256 : String → String) (F : Field Output β) (s : Snapshot)
    (o : Order) (b : β) : Prop :=
  (s.conflicted o = true ∧ b ∈ F.get (conflictOutput sha256 s o)) ∨
    ∃ d, orderPart sha256 s o = .ok d ∧ b ∈ F.get d

/-- What a payment contributes, in the multi-claim pass and in its round. -/
def paymentEmits {β : Type} (sha256 : String → String) (F : Field Output β) (s : Snapshot)
    (p : Payment) (b : β) : Prop :=
  (s.contested p.id = true ∧
    b ∈ F.get (claimOutput sha256 s p.id ((s.claimants p.id).map (·.id)))) ∨
    b ∈ F.get (paymentPart sha256 s p)

section Emits

variable {β : Type} {F : Field Output β} {b : β}

theorem mem_reconcileFacts_iff (h : s.Gated) {out : Output}
    (ho : reconcileFacts sha256 s = .ok out) : b ∈ F.get out ↔
      (∃ o ∈ s.orders, orderEmits sha256 F s o b) ∨
        ∃ p ∈ s.payments, paymentEmits sha256 F s p b := by
  rw [mem_reconcileFacts F h ho]
  simp only [orderEmits, paymentEmits, and_or_left, exists_or]
  have hc : (∃ pid, s.contested pid = true ∧
      b ∈ F.get (claimOutput sha256 s pid ((s.claimants pid).map (·.id)))) ↔
      ∃ p ∈ s.payments, s.contested p.id = true ∧
        b ∈ F.get (claimOutput sha256 s p.id ((s.claimants p.id).map (·.id))) := by
    constructor
    · rintro ⟨pid, hc, hb⟩
      obtain ⟨p, hp, rfl⟩ := exists_of_contested hc
      exact ⟨p, hp, hc, hb⟩
    · rintro ⟨p, -, hc, hb⟩
      exact ⟨p.id, hc, hb⟩
  rw [hc, ← or_assoc, or_or_or_comm]

theorem Part.orderEmits_iff (hF : Observed F) (hp : Part t s) (hs : s.Gated)
    (ho : o ∈ t.orders) : orderEmits sha256 F t o b ↔ orderEmits sha256 F s o b := by
  rw [orderEmits, orderEmits, hp.conflicted_iff hs ho]
  refine or_congr (and_congr_right fun _ => ?_) ?_
  · exact hF _ _ (conflictOutput_sketch hp.frame (hp.view ho)) b
  · have he := hp.orderPart_sketch hs sha256 ho
    cases ht : orderPart sha256 t o <;> cases hs : orderPart sha256 s o <;> rw [ht, hs] at he
    · simp
    · cases he
    · cases he
    · simpa using hF _ _ (Except.ok.inj he) b

theorem Part.paymentEmits_iff (hF : Observed F) (hp : Part t s) (hs : s.Gated)
    (hm : p ∈ t.payments) : paymentEmits sha256 F t p b ↔ paymentEmits sha256 F s p b := by
  rw [paymentEmits, paymentEmits, hp.contested_iff hs hm, hp.paymentPart_eq hs hm,
    hF _ _ (hp.claimOutput_sketch hs hm) b]

end Emits

/-- No order refers to or is hinted by a payment of the other part, and no refund has its parent
there. -/
structure Separate (a b : Snapshot) : Prop where
  references : ∀ o ∈ a.orders, ∀ p ∈ b.payments, ∀ ref ∈ o.references, ref ∉ p.aliases
  hints : ∀ o ∈ a.orders, ∀ p ∈ b.payments, p ∉ b.hintsByOrder o.id
  stripe : ∀ r ∈ a.refunds, r.source = .stripe → ∀ p ∈ b.payments, r.parentId ≠ p.id
  woo : ∀ r ∈ a.refunds, r.source = .woo → ∀ o ∈ b.orders, r.parentId ≠ o.id

/-- The payments, orders and refunds of a snapshot split into two parts without links between
them, under the same settings. -/
structure Split (s s₁ s₂ : Snapshot) : Prop where
  frame₁ : SameFrame s₁ s
  frame₂ : SameFrame s₂ s
  payments : (s₁.payments ++ s₂.payments).Perm s.payments
  orders : (s₁.orders ++ s₂.orders).Perm s.orders
  refunds : (s₁.refunds ++ s₂.refunds).Perm s.refunds
  separate₁ : Separate s₁ s₂
  separate₂ : Separate s₂ s₁

theorem Split.symm (h : Split s s₁ s₂) : Split s s₂ s₁ where
  frame₁ := h.frame₂
  frame₂ := h.frame₁
  payments := List.perm_append_comm.trans h.payments
  orders := List.perm_append_comm.trans h.orders
  refunds := List.perm_append_comm.trans h.refunds
  separate₁ := h.separate₂
  separate₂ := h.separate₁

theorem Separate.not_linked (h : Separate s₁ s₂) (hf : SameFrame s₂ s) (ho : o ∈ s₁.orders)
    (hm : p ∈ s₂.payments) : ¬ Linked s o p := by
  rintro (⟨ref, href, ha⟩ | hh)
  · exact h.references o ho p hm ref href ha
  · rw [mem_hintsByOrder, ← hf.storeId] at hh
    exact h.hints o ho p hm (mem_hintsByOrder.mpr ⟨hm, hh.2⟩)

theorem Split.part (h : Split s s₁ s₂) : Part s₁ s where
  frame := h.frame₁
  payments := (List.sublist_append_left _ _).subperm.trans h.payments.subperm
  orders := (List.sublist_append_left _ _).subperm.trans h.orders.subperm
  refunds := (List.sublist_append_left _ _).subperm.trans h.refunds.subperm
  linked o ho p hm hl := by
    have ho := List.mem_append.mp (h.orders.mem_iff.mpr ho)
    have hm := List.mem_append.mp (h.payments.mem_iff.mpr hm)
    constructor
    · intro ho'
      exact hm.resolve_right fun hm' => h.separate₁.not_linked h.frame₂ ho' hm' hl
    · intro hm'
      exact ho.resolve_right fun ho' => h.separate₂.not_linked h.frame₁ ho' hm' hl
  stripe r hr hsrc p hm he := by
    refine (List.mem_append.mp (h.refunds.mem_iff.mpr hr)).resolve_right fun hr' => ?_
    exact h.separate₂.stripe r hr' hsrc p hm he
  woo r hr hsrc o ho he := by
    refine (List.mem_append.mp (h.refunds.mem_iff.mpr hr)).resolve_right fun hr' => ?_
    exact h.separate₂.woo r hr' hsrc o ho he

theorem Split.mem_orders (h : Split s s₁ s₂) : o ∈ s.orders ↔ o ∈ s₁.orders ∨ o ∈ s₂.orders := by
  rw [← h.orders.mem_iff, List.mem_append]

theorem Split.mem_payments (h : Split s s₁ s₂) :
    p ∈ s.payments ↔ p ∈ s₁.payments ∨ p ∈ s₂.payments := by
  rw [← h.payments.mem_iff, List.mem_append]

theorem Split.mem_reconcileFacts {β : Type} {F : Field Output β} (hF : Observed F)
    (hsp : Split s s₁ s₂) (hs : s.Gated) {out out₁ out₂ : Output}
    (h : reconcileFacts sha256 s = .ok out) (h₁ : reconcileFacts sha256 s₁ = .ok out₁)
    (h₂ : reconcileFacts sha256 s₂ = .ok out₂) {b : β} :
    b ∈ F.get out ↔ b ∈ F.get out₁ ∨ b ∈ F.get out₂ := by
  have hp₁ := hsp.part
  have hp₂ := hsp.symm.part
  have ho : (∃ o ∈ s.orders, orderEmits sha256 F s o b) ↔
      (∃ o ∈ s₁.orders, orderEmits sha256 F s₁ o b) ∨
        ∃ o ∈ s₂.orders, orderEmits sha256 F s₂ o b := by
    simp only [hsp.mem_orders, or_and_right, exists_or]
    exact or_congr
      (exists_congr fun o => and_congr_right fun ho => (hp₁.orderEmits_iff hF hs ho).symm)
      (exists_congr fun o => and_congr_right fun ho => (hp₂.orderEmits_iff hF hs ho).symm)
  have hpay : (∃ p ∈ s.payments, paymentEmits sha256 F s p b) ↔
      (∃ p ∈ s₁.payments, paymentEmits sha256 F s₁ p b) ∨
        ∃ p ∈ s₂.payments, paymentEmits sha256 F s₂ p b := by
    simp only [hsp.mem_payments, or_and_right, exists_or]
    exact or_congr
      (exists_congr fun p => and_congr_right fun hm => (hp₁.paymentEmits_iff hF hs hm).symm)
      (exists_congr fun p => and_congr_right fun hm => (hp₂.paymentEmits_iff hF hs hm).symm)
  rw [mem_reconcileFacts_iff hs h, mem_reconcileFacts_iff (hp₁.gated hs) h₁,
    mem_reconcileFacts_iff (hp₂.gated hs) h₂, ho, hpay, or_or_or_comm]

theorem Split.ok_iff (hsp : Split s s₁ s₂) (hs : s.Gated) :
    (∃ e, evaluate sha256 s = .ok e) ↔
      (∃ e, evaluate sha256 s₁ = .ok e) ∧ ∃ e, evaluate sha256 s₂ = .ok e := by
  have hround : ∀ {t : Snapshot}, Part t s → ∀ o ∈ t.orders,
      ((∃ d, orderPart sha256 t o = .ok d) ↔ ∃ d, orderPart sha256 s o = .ok d) := by
    intro t hp o ho
    exact completes_congr (hp.orderPart_sketch hs sha256 ho)
  have hp₁ := hsp.part
  have hp₂ := hsp.symm.part
  rw [evaluate_ok_iff sha256 hs, evaluate_ok_iff sha256 (hp₁.gated hs),
    evaluate_ok_iff sha256 (hp₂.gated hs)]
  simp only [hsp.mem_orders, or_imp, forall_and]
  exact and_congr (forall₂_congr fun o ho => (hround hp₁ o ho).symm)
    (forall₂_congr fun o ho => (hround hp₂ o ho).symm)

theorem sketch_of_evaluate {e : Evaluation} (h : s.Gated) (he : evaluate sha256 s = .ok e) :
    ∃ out, reconcileFacts sha256 s = .ok out ∧ e.sketch = out.sketch := by
  obtain ⟨out, ho, rfl⟩ := (evaluate_ok h).mp he
  refine ⟨out, ho, ?_⟩
  simp only [Evaluation.sketch, Output.sketch, mem_sortBy, mem_sortedSet]

/-- A snapshot split into two parts without links is evaluated part by part: it succeeds when
both parts do, and its blocked identities, warnings and summaries are those of the parts. -/
theorem evaluate_split (hsp : Split s s₁ s₂) (hs : s.Gated) :
    ((∃ e, evaluate sha256 s = .ok e) ↔
      (∃ e, evaluate sha256 s₁ = .ok e) ∧ ∃ e, evaluate sha256 s₂ = .ok e) ∧
    ∀ e e₁ e₂, evaluate sha256 s = .ok e → evaluate sha256 s₁ = .ok e₁ →
      evaluate sha256 s₂ = .ok e₂ → e.sketch = e₁.sketch ⊔ e₂.sketch := by
  refine ⟨hsp.ok_iff hs, fun e e₁ e₂ he he₁ he₂ => ?_⟩
  obtain ⟨out, ho, hsk⟩ := sketch_of_evaluate hs he
  obtain ⟨out₁, ho₁, hsk₁⟩ := sketch_of_evaluate (hsp.part.gated hs) he₁
  obtain ⟨out₂, ho₂, hsk₂⟩ := sketch_of_evaluate (hsp.symm.part.gated hs) he₂
  rw [hsk, hsk₁, hsk₂]
  refine Prod.ext (Set.ext fun k => ?_) (Prod.ext (Set.ext fun x => ?_) (Set.ext fun w => ?_))
  · have hF : Observed summaryField := by
      intro a b hab k
      have hk := Set.ext_iff.mp (congrArg Prod.fst hab) k
      simpa [summaryField, Output.sketch] using hk
    simpa [summaryField, Output.sketch] using hsp.mem_reconcileFacts hF hs ho ho₁ ho₂ (b := k)
  · have hF : Observed Output.blockedField :=
      fun a b hab x => Set.ext_iff.mp (congrArg (fun k => k.2.1) hab) x
    exact hsp.mem_reconcileFacts hF hs ho ho₁ ho₂
  · have hF : Observed Output.warningsField :=
      fun a b hab w => Set.ext_iff.mp (congrArg (fun k => k.2.2) hab) w
    exact hsp.mem_reconcileFacts hF hs ho ho₁ ho₂

namespace Fixture

/-- A payment that no order claims, alone. -/
def strayPart : Snapshot :=
  { snapshot with
    payments := [{ payment with id := "pi_two", orderHint := "", id_prefix := second_prefix }]
    orders := [] }

/-- The unpaid order with its payment, and the stray payment. -/
def straySnapshot : Snapshot :=
  { unpaidSnapshot with payments := strayPart.payments ++ unpaidSnapshot.payments }

end Fixture

open Fixture Sha256

theorem evaluate_split_stray : ∃ e e₁ e₂, evaluate hexdigest straySnapshot = .ok e ∧
    evaluate hexdigest unpaidSnapshot = .ok e₁ ∧ evaluate hexdigest strayPart = .ok e₂ ∧
      e.sketch = e₁.sketch ⊔ e₂.sketch := by
  have hsp : Split straySnapshot unpaidSnapshot strayPart :=
    ⟨⟨rfl, rfl, rfl, rfl, rfl, rfl, rfl, rfl, rfl, rfl, rfl⟩,
      ⟨rfl, rfl, rfl, rfl, rfl, rfl, rfl, rfl, rfl, rfl, rfl⟩, List.perm_append_comm,
      .refl _, .refl _, ⟨by decide, by decide, by decide, by decide⟩,
      ⟨by decide, by decide, by decide, by decide⟩⟩
  obtain ⟨e, he⟩ : ∃ e, evaluate hexdigest straySnapshot = .ok e := ⟨_, rfl⟩
  obtain ⟨e₁, he₁⟩ : ∃ e, evaluate hexdigest unpaidSnapshot = .ok e := ⟨_, rfl⟩
  obtain ⟨e₂, he₂⟩ : ∃ e, evaluate hexdigest strayPart = .ok e := ⟨_, rfl⟩
  have hs : straySnapshot.Gated := ⟨rfl, by decide, rfl, rfl⟩
  exact ⟨e, e₁, e₂, he, he₁, he₂, (evaluate_split hsp hs).2 e e₁ e₂ he he₁ he₂⟩

end LedgerGuard
