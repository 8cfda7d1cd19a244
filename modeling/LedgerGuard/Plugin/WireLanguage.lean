import LedgerGuard.Plugin.Amounts

/-! # What the extractor sends and the schema accepts

The extractor and the schema check the same members with rules of their own. For
every order that is extracted, the records validate exactly if the values that the
extractor passes on unchecked, or checks more loosely, are in the narrower
language of the schema.
-/

namespace LedgerGuard.Plugin

open Ingestion Raising

theorem exactPattern_iff {pre s : String} : exactPattern pre s = true ↔
    ∃ rest, s.toList = pre.toList ++ rest ∧ rest ≠ [] ∧ rest.length ≤ 240 ∧
      ∀ c ∈ rest, isWordChar c = true := by
  simp only [exactPattern, Bool.and_eq_true, List.isPrefixOf_iff_prefix, decide_eq_true_eq,
    List.all_eq_true, ← String.length_toList]
  constructor
  · rintro ⟨⟨⟨⟨rest, hs⟩, hne⟩, hlen⟩, hall⟩
    rw [← hs, List.drop_left] at hne hlen hall
    exact ⟨rest, hs.symm, hne, hlen, hall⟩
  · rintro ⟨rest, hs, hne, hlen, hall⟩
    rw [hs, List.drop_left]
    exact ⟨⟨⟨List.prefix_append _ _, hne⟩, hlen⟩, hall⟩

theorem isWordChar_iff {c : Char} : isWordChar c = true ↔ isAlnum c = true ∨ c = '_' := by
  simp only [isWordChar, isAlnum, Bool.or_eq_true, decide_eq_true_eq]

theorem underscore_not_alnum : isAlnum '_' = false := by decide

theorem newline_not_word : isWordChar '\n' = false := by decide

theorem all_alnum_iff {rest : List Char} (h : ∀ c ∈ rest, isWordChar c = true) :
    (∀ c ∈ rest, isAlnum c = true) ↔ '_' ∉ rest := by
  constructor
  · intro ha hu
    have := ha _ hu
    rw [underscore_not_alnum] at this
    cases this
  · intro hu c hc
    rcases isWordChar_iff.mp (h c hc) with hc' | rfl
    · exact hc'
    · exact absurd hc hu

theorem last_of_words {pre rest : List Char} (hne : rest ≠ [])
    (h : ∀ c ∈ rest, isWordChar c = true) : (pre ++ rest).getLast? ≠ some '\n' := by
  rw [List.getLast?_append_of_ne_nil _ hne]
  intro hl
  have := h _ (List.mem_of_getLast? hl)
  rw [newline_not_word] at this
  cases this

theorem text_iff {n : ℕ} {pattern : List Char → Bool} {s : String} (hn : s.toList.length ≤ n)
    (hs : s.toList.getLast? ≠ some '\n') : text n pattern s = true ↔ pattern s.toList = true :=
  ⟨fun h => pattern_of_text h hs, text_of_pattern hn⟩

theorem length_exact {pre rest : List Char} {s : String} (hs : s.toList = pre ++ rest)
    (hpre : pre.length ≤ 15) (hlen : rest.length ≤ 240) : s.toList.length ≤ 255 := by
  rw [hs, List.length_append]
  omega

theorem text_prefixed_iff {pre s : String} (hpre : pre.toList.length ≤ 15)
    (h : exactPattern pre s = true) : text 255 (prefixed pre.toList isAlnum) s = true ↔
      '_' ∉ s.toList.drop pre.toList.length := by
  obtain ⟨rest, hs, hne, hlen, hall⟩ := exactPattern_iff.mp h
  rw [text_iff (length_exact hs hpre hlen) (hs ▸ last_of_words hne hall), prefixed_iff, hs,
    List.drop_left, ← all_alnum_iff hall]
  constructor
  · rintro ⟨rest', he, -, ha⟩
    rwa [List.append_cancel_left he]
  · intro ha
    exact ⟨rest, rfl, hne, ha⟩

/-- No further underscore follows a prefix, but one after `test` or `live`. -/
def SessionRest (rest : List Char) : Prop :=
  ∃ mode ∈ ["", "test_", "live_"], ∃ more, rest = mode.toList ++ more ∧ more ≠ [] ∧ '_' ∉ more

theorem checkoutSessionPattern_iff {rest : List Char} :
    checkoutSessionPattern ("cs_".toList ++ rest) = true ↔
      ∃ mode ∈ ["", "test_", "live_"], ∃ more, rest = mode.toList ++ more ∧ more ≠ [] ∧
        ∀ c ∈ more, isAlnum c = true := by
  have hmodes : ["cs_", "cs_test_", "cs_live_"] =
      ["", "test_", "live_"].map fun mode => "cs_" ++ mode := by decide
  rw [checkoutSessionPattern, hmodes, List.any_map, List.any_eq_true]
  simp only [Function.comp_apply, prefixed_iff, String.toList_append, List.append_assoc,
    List.append_cancel_left_eq]

theorem text_checkoutSession_iff {s : String} (h : exactPattern "cs_" s = true) :
    text 255 checkoutSessionPattern s = true ↔ SessionRest (s.toList.drop 3) := by
  obtain ⟨rest, hs, hne, hlen, hall⟩ := exactPattern_iff.mp h
  rw [text_iff (length_exact hs (by decide) hlen) (hs ▸ last_of_words hne hall), hs,
    List.drop_left' (by rfl), checkoutSessionPattern_iff, SessionRest]
  refine exists_congr fun mode => and_congr_right fun _ => exists_congr fun more =>
    and_congr_right fun he => and_congr_right fun _ => all_alnum_iff fun c hc => ?_
  exact hall c (he ▸ List.mem_append_right _ hc)

theorem transaction_text {s : String} (h : (exactPattern "pi_" s || exactPattern "ch_" s ||
    exactPattern "cs_" s) = true) : text 255 transactionPattern s = true := by
  obtain ⟨pre, hpre, h⟩ : ∃ pre ∈ ["pi_", "ch_", "cs_"], exactPattern pre s = true := by
    rcases Bool.or_eq_true_iff.mp h with h | h
    · rcases Bool.or_eq_true_iff.mp h with h | h
      · exact ⟨_, by simp, h⟩
      · exact ⟨_, by simp, h⟩
    · exact ⟨_, by simp, h⟩
  have hshort : ∀ pre ∈ ["pi_", "ch_", "cs_"], pre.toList.length ≤ 15 := by decide
  obtain ⟨rest, hs, hne, hlen, hall⟩ := exactPattern_iff.mp h
  refine text_of_pattern (length_exact hs (hshort pre hpre) hlen) (Bool.or_eq_true_iff.mpr (Or.inr ?_))
  refine List.any_eq_true.mpr ⟨pre, hpre, prefixed_iff.mpr ⟨rest, hs, hne, ?_⟩⟩
  intro c hc
  have := isWordChar_iff.mp (hall c hc)
  simpa using this

theorem method_of_stripe {method : String} (h : stripeMethod method = true) :
    methodPattern method.toList = true := by
  simp only [stripeMethod, Bool.and_eq_true, Bool.or_eq_true, List.isPrefixOf_iff_prefix,
    decide_eq_true_eq] at h
  obtain ⟨⟨rest, hs⟩, hrest⟩ := h
  rw [← hs, List.drop_left' (by rfl)] at hrest
  refine Bool.or_eq_true_iff.mpr (hrest.imp ?_ ?_)
  · rintro rfl
    rw [← hs, List.append_nil]
    exact decide_eq_true rfl
  · rintro ⟨⟨hu, hne⟩, hall⟩
    cases rest with
    | nil => cases hu
    | cons c rest =>
      obtain rfl := Option.some.inj hu
      exact prefixed_iff.mpr ⟨rest, by rw [← hs]; rfl, hne, List.all_eq_true.mp hall⟩

theorem method_text_iff {method : String} (h : stripeMethod method = true) :
    text 64 methodPattern method = true ↔ method.toList.length ≤ 64 :=
  ⟨fun ht => of_decide_eq_true (Bool.and_eq_true_iff.mp ht).1,
    fun hl => text_of_pattern hl (method_of_stripe h)⟩

def isLetter (c : Char) : Bool := ('a' ≤ c && c ≤ 'z') || ('A' ≤ c && c ≤ 'Z')

def ThreeLetters (s : String) : Prop :=
  s.toList.length = 3 ∧ ∀ c ∈ s.toList, isLetter c = true

def capital (c : Char) : Char :=
  if 'a' ≤ c ∧ c ≤ 'z' then Char.ofNat (c.toNat - 32) else c

theorem capital_iff (c : Char) :
    'A' ≤ capital c ∧ capital c ≤ 'Z' ↔ isLetter c = true := by
  by_cases hc : 'a' ≤ c ∧ c ≤ 'z'
  · have hletter : isLetter c = true := by simp [isLetter, hc]
    have hsmall : ∀ n < 123, 96 < n →
        'A' ≤ Char.ofNat (n - 32) ∧ Char.ofNat (n - 32) ≤ 'Z' := by decide
    have h₁ : 97 ≤ c.toNat := hc.1
    have h₂ : c.toNat ≤ 122 := hc.2
    rw [capital, if_pos hc]
    exact iff_of_true (hsmall _ (by omega) (by omega)) hletter
  · rw [capital, if_neg hc]
    simp only [isLetter, Bool.or_eq_true, Bool.and_eq_true, decide_eq_true_eq, hc, false_or]

theorem currencyPattern_upper {s : String} :
    currencyPattern (strtoupper s).toList = true ↔ ThreeLetters s := by
  have hs : (strtoupper s).toList = s.toList.map capital := String.toList_ofList
  simp only [currencyPattern, hs, Bool.and_eq_true, decide_eq_true_eq, List.length_map,
    List.all_map, List.all_eq_true, Function.comp_apply, capital_iff, ThreeLetters]

theorem text_currency_iff {s : String} :
    text 3 currencyPattern (strtoupper s) = true ↔ ThreeLetters s := by
  rw [← currencyPattern_upper]
  constructor
  · intro h
    obtain ⟨hlen, hp⟩ := Bool.and_eq_true_iff.mp h
    rcases searchAnchored_iff.mp hp with hp | ⟨cs, hcs, hp⟩
    · exact hp
    · have h₁ := of_decide_eq_true hlen
      have h₂ := of_decide_eq_true (Bool.and_eq_true_iff.mp hp).1
      rw [hcs, List.length_append, List.length_singleton] at h₁
      omega
  · intro h
    exact text_of_pattern (of_decide_eq_true (Bool.and_eq_true_iff.mp h).1).le h

theorem utcText_gmdate (time : ℤ) : utcText (gmdate time) = true := by
  refine searchAnchored_iff.mpr (Or.inl (decide_eq_true ?_))
  rw [gmdate]
  simp only [String.toList_append]
  exact List.getLast?_concat

/-- The number of a stored object, short enough for the wire. -/
def Numbered (n : ℕ) : Prop := 0 < n ∧ n < 10 ^ 20

theorem mem_nonempty {s t : String} : t ∈ nonempty s ↔ s = t ∧ t ≠ "" := by
  rw [nonempty]
  split
  case isTrue h => simp [h, eq_comm]
  case isFalse h =>
    rw [Option.mem_def, Option.some.injEq]
    exact ⟨fun he => ⟨he, he ▸ h⟩, And.left⟩

theorem ne_empty_of_exact {pre s : String} (h : exactPattern pre s = true) : s ≠ "" := by
  rintro rfl
  obtain ⟨rest, hs, hne, -⟩ := exactPattern_iff.mp h
  exact hne (List.append_eq_nil_iff.mp hs.symm).2

theorem mem_exactId {value : Mixed} {pre s : String} : s ∈ nonempty (exactId value pre) ↔
    value = .text s ∧ exactPattern pre s = true := by
  rw [mem_nonempty]
  constructor
  · rintro ⟨h, hne⟩
    unfold exactId at h
    split at h
    case h_1 t =>
      split at h
      case isTrue ht => exact ⟨congrArg _ h, h ▸ ht⟩
      case isFalse => exact absurd h.symm hne
    case h_2 => exact absurd h.symm hne
  · rintro ⟨rfl, h⟩
    exact ⟨if_pos h, ne_empty_of_exact h⟩

theorem refundRecord_ok {parent : ℕ} {refund : WcRefund} {record : WooRecord}
    (h : refundRecord parent refund = .ok record)
    (hshort : ∀ a, decimal refund.amount = .ok a → a.toList.length ≤ 16) : record.Valid ↔
      Numbered refund.id ∧ Numbered parent ∧ ThreeLetters refund.currency := by
  unfold refundRecord at h
  split at h
  · cases h
  · obtain ⟨amount, hamount, h⟩ := bind_eq_ok.mp h
    obtain rfl := Except.ok.inj h
    constructor
    · intro hv
      exact ⟨text_toString_iff.mp hv.sourceId, text_toString_iff.mp hv.parentId,
        text_currency_iff.mp hv.currency⟩
    · rintro ⟨hid, hparent, hcurrency⟩
      exact {
        sourceId := text_toString_iff.mpr hid
        parentId := text_toString_iff.mpr hparent
        revision := utcText_gmdate _
        createdAt := utcText_gmdate _
        amount := (text_decimal_iff hamount).mpr ((hshort _ hamount).trans (by decide))
        currency := text_currency_iff.mpr hcurrency
        status := rfl }

theorem refundRecords_ok {parent : ℕ} {refunds : List WcRefund} {records : List WooRecord}
    (h : refunds.mapM (refundRecord parent) = .ok records)
    (hshort : ∀ refund ∈ refunds, ∀ a, decimal refund.amount = .ok a → a.toList.length ≤ 16) :
    (∀ record ∈ records, record.Valid) ↔ ∀ refund ∈ refunds,
      Numbered refund.id ∧ Numbered parent ∧ ThreeLetters refund.currency := by
  rw [mapM_ok] at h
  induction h with
  | nil => exact iff_of_true nofun nofun
  | cons hr _ ih =>
    rw [List.forall_mem_cons, List.forall_mem_cons,
      refundRecord_ok hr (hshort _ List.mem_cons_self)]
    exact and_congr_right fun _ => ih fun r hm => hshort r (List.mem_cons_of_mem _ hm)

/-- The extractor sends the order at all. -/
def WcOrder.InScope (o : WcOrder) : Prop :=
  ¬ (o.isRefund = true ∨ stripeMethod o.paymentMethod = false ∨ o.subscription = true)

/-- What the schema demands of an order beyond what the extractor checks. -/
structure WcOrder.Sendable (o : WcOrder) : Prop where
  id : Numbered o.id
  status : o.status ∈ wooStatuses
  total : o.total.Short
  currency : ThreeLetters o.currency
  paymentMethod : o.paymentMethod.toList.length ≤ 64
  intent : ∀ s, o.stripeIntentId = .text s → exactPattern "pi_" s = true →
    '_' ∉ s.toList.drop 3
  session : ∀ s, o.stripeCheckoutSessionId = .text s → exactPattern "cs_" s = true →
    SessionRest (s.toList.drop 3)
  charge : exactPattern "ch_" o.transactionId = true → '_' ∉ o.transactionId.toList.drop 3
  refundCount : o.refunds.length ≤ 10000
  refundNodup : (o.refunds.map WcRefund.id).Nodup
  refunds : ∀ refund ∈ o.refunds, Numbered refund.id ∧ ThreeLetters refund.currency

def keptTransaction (s : String) : String :=
  if exactPattern "pi_" s || exactPattern "ch_" s || exactPattern "cs_" s then s else ""

theorem keptTransaction_text (s : String) :
    text 255 transactionPattern (keptTransaction s) = true := by
  rw [keptTransaction]
  split
  case isTrue h => exact transaction_text h
  case isFalse => decide

/-- The record of `order`, from the texts of its amounts. -/
def orderRecord (o : WcOrder) (created : ℤ) (totalRefunded amount : String) : OrderRecord where
  sourceId := toString o.id
  revision := gmdate (o.dateModified.getD created)
  createdAt := gmdate created
  status := o.status
  amount := amount
  totalRefunded := totalRefunded
  refundIds := o.refunds.map fun refund => toString refund.id
  currency := strtoupper o.currency
  paymentMethod := o.paymentMethod
  transactionId := keptTransaction o.transactionId
  stripeIds := {
    paymentIntent := nonempty (exactId o.stripeIntentId "pi_")
    checkoutSession := nonempty (exactId o.stripeCheckoutSessionId "cs_")
    charge := if "ch_".toList.isPrefixOf (keptTransaction o.transactionId).toList then
      some (keptTransaction o.transactionId) else none }
  paidAt := o.datePaid.map gmdate
  completedAt := some (o.dateCompleted.map gmdate)

theorem order_out {o : WcOrder} {records : List WooRecord} (hout : ¬ o.InScope)
    (h : order (some o) = .ok records) : records = [] := by
  have hout := not_not.mp hout
  unfold order at h
  dsimp only at h
  rw [if_pos hout] at h
  exact (Except.ok.inj h).symm

theorem order_ok {o : WcOrder} {records : List WooRecord} (hin : o.InScope)
    (h : order (some o) = .ok records) : ∃ created totalRefunded amount refunds,
      sumRefunds o.refunds = .ok totalRefunded ∧ decimal o.total = .ok amount ∧
        o.refunds.mapM (refundRecord o.id) = .ok refunds ∧
          records = .order (orderRecord o created totalRefunded amount) :: refunds := by
  unfold order at h
  dsimp only at h
  rw [if_neg hin] at h
  split at h
  · cases h
  · obtain ⟨totalRefunded, htotal, h⟩ := bind_eq_ok.mp h
    obtain ⟨amount, hamount, h⟩ := bind_eq_ok.mp h
    obtain ⟨refunds, hrefunds, h⟩ := bind_eq_ok.mp h
    exact ⟨_, _, _, _, htotal, hamount, hrefunds, (Except.ok.inj h).symm⟩

theorem exactPattern_of_prefix {pre pre' s : String} (hlen : pre.length = pre'.length)
    (h : exactPattern pre s = true) (hpre : pre'.toList.isPrefixOf s.toList = true) :
    exactPattern pre' s = true := by
  simp only [exactPattern, Bool.and_eq_true, ← hlen] at h ⊢
  exact ⟨⟨⟨hpre, h.1.1.2⟩, h.1.2⟩, h.2⟩

theorem charge_of_transaction {s t : String} :
    (t ∈ if "ch_".toList.isPrefixOf (keptTransaction s).toList then
      some (keptTransaction s) else none) ↔ s = t ∧ exactPattern "ch_" s = true := by
  rw [keptTransaction]
  split
  case isTrue h =>
    have hiff : "ch_".toList.isPrefixOf s.toList = true ↔ exactPattern "ch_" s = true := by
      constructor
      · intro hpre
        rcases Bool.or_eq_true_iff.mp h with h | h
        · rcases Bool.or_eq_true_iff.mp h with h | h
          · exact exactPattern_of_prefix (by decide) h hpre
          · exact h
        · exact exactPattern_of_prefix (by decide) h hpre
      · intro he
        simp only [exactPattern, Bool.and_eq_true] at he
        exact he.1.1.1
    simp only [hiff, Option.mem_def, Option.ite_none_right_eq_some, Option.some.injEq]
    exact and_comm
  case isFalse h =>
    have hno : ¬ exactPattern "ch_" s = true := by
      intro he
      rw [he, Bool.or_true, Bool.true_or] at h
      exact h rfl
    have hempty : ¬ "ch_".toList.isPrefixOf "".toList = true := by decide
    rw [if_neg hempty]
    exact iff_of_false nofun fun he => hno he.2

theorem refundIds_nodup {refunds : List WcRefund} :
    (refunds.map fun refund => toString refund.id).Nodup ↔ (refunds.map WcRefund.id).Nodup := by
  rw [← List.nodup_map_iff toString_injective, List.map_map]
  rfl

theorem orderRecord_valid_iff {o : WcOrder} {created : ℤ} {totalRefunded amount : String}
    (hin : o.InScope) (htotal : text 24 unsignedDecimal totalRefunded = true)
    (hamount : decimal o.total = .ok amount) :
    ((orderRecord o created totalRefunded amount).Valid ∧ ∀ refund ∈ o.refunds,
      Numbered refund.id ∧ Numbered o.id ∧ ThreeLetters refund.currency) ↔ o.Sendable := by
  have hmethod : stripeMethod o.paymentMethod = true := by
    by_contra hm
    exact hin (Or.inr (Or.inl (Bool.eq_false_of_not_eq_true hm)))
  have htimes (time : Option ℤ) : ∀ t ∈ time.map gmdate, utcText t = true := by
    intro t ht
    obtain ⟨time, -, rfl⟩ := Option.map_eq_some_iff.mp ht
    exact utcText_gmdate time
  have hcount : (orderRecord o created totalRefunded amount).refundIds.length =
      o.refunds.length := List.length_map _
  constructor
  · rintro ⟨hv, hr⟩
    exact {
      id := text_toString_iff.mp hv.sourceId
      status := hv.status
      total := (decimal_short_iff hamount).mp ((text_decimal_iff hamount).mp hv.amount)
      currency := text_currency_iff.mp hv.currency
      paymentMethod := (method_text_iff hmethod).mp hv.paymentMethod
      intent := fun s hs he => (text_prefixed_iff (by decide) he).mp
        (hv.stripeIds.paymentIntent s (mem_exactId.mpr ⟨hs, he⟩))
      session := fun s hs he => (text_checkoutSession_iff he).mp
        (hv.stripeIds.checkoutSession s (mem_exactId.mpr ⟨hs, he⟩))
      charge := fun he => (text_prefixed_iff (by decide) he).mp
        (hv.stripeIds.charge _ (charge_of_transaction.mpr ⟨rfl, he⟩))
      refundCount := hcount ▸ hv.refundCount
      refundNodup := refundIds_nodup.mp hv.refundNodup
      refunds := fun r hm => ⟨(hr r hm).1, (hr r hm).2.2⟩ }
  · intro hs
    refine ⟨?_, fun r hm => ⟨(hs.refunds r hm).1, hs.id, (hs.refunds r hm).2⟩⟩
    have hids : (orderRecord o created totalRefunded amount).stripeIds.Valid := {
      paymentIntent := fun s hm => by
        obtain ⟨he, hp⟩ := mem_exactId.mp hm
        exact (text_prefixed_iff (by decide) hp).mpr (hs.intent s he hp)
      checkoutSession := fun s hm => by
        obtain ⟨he, hp⟩ := mem_exactId.mp hm
        exact (text_checkoutSession_iff hp).mpr (hs.session s he hp)
      charge := fun s hm => by
        obtain ⟨rfl, hp⟩ := charge_of_transaction.mp hm
        exact (text_prefixed_iff (by decide) hp).mpr (hs.charge hp) }
    exact {
      sourceId := text_toString_iff.mpr hs.id
      revision := utcText_gmdate _
      createdAt := utcText_gmdate _
      status := hs.status
      amount := (text_decimal_iff hamount).mpr ((decimal_short_iff hamount).mpr hs.total)
      totalRefunded := htotal
      currency := text_currency_iff.mpr hs.currency
      paymentMethod := (method_text_iff hmethod).mpr hs.paymentMethod
      transactionId := keptTransaction_text _
      stripeIds := hids
      paidAt := htimes o.datePaid
      completedAt := htimes o.dateCompleted
      orderNumber := nofun
      refundCount := hcount ▸ hs.refundCount
      refundNodup := refundIds_nodup.mpr hs.refundNodup
      refundIds := fun s hm => by
        obtain ⟨r, hr, rfl⟩ := List.mem_map.mp hm
        exact text_toString_iff.mpr (hs.refunds r hr).1 }

/-- The records of an extracted order validate exactly if the order is sendable. -/
theorem records_valid_iff {answer : Option WcOrder} {records : List WooRecord}
    (h : order answer = .ok records) : (∀ record ∈ records, record.Valid) ↔
      ∀ o ∈ answer, o.InScope → o.Sendable := by
  cases answer with
  | none =>
    obtain rfl := Except.ok.inj h
    exact iff_of_true (fun _ hm => absurd hm List.not_mem_nil)
      fun _ hm => absurd hm (Option.not_mem_none _)
  | some o =>
    simp only [Option.mem_some_iff, forall_eq']
    by_cases hin : o.InScope
    · obtain ⟨created, totalRefunded, amount, refunds, htotal, hamount, hrefunds, rfl⟩ :=
        order_ok hin h
      obtain ⟨htotal, hshort⟩ := sumRefunds_ok htotal
      rw [List.forall_mem_cons, refundRecords_ok hrefunds hshort]
      exact (orderRecord_valid_iff hin htotal hamount).trans ⟨fun hs _ => hs, fun hs => hs hin⟩
    · obtain rfl := order_out hin h
      exact iff_of_true (fun _ hm => absurd hm List.not_mem_nil) fun h' => absurd h' hin

def plainOrder (status : String) : WcOrder where
  id := 7
  paymentMethod := "stripe"
  dateCreated := some 1767268800
  datePaid := some 1767268860
  stripeIntentId := .text "pi_3Abc"
  total := .text "10.50"
  currency := "eur"
  status := status

theorem order_plainOrder (status : String) : order (some (plainOrder status)) =
    .ok [.order (orderRecord (plainOrder status) 1767268800 "0" "10.5")] := by
  have hin : ¬ (false = true ∨ stripeMethod "stripe" = false ∨ false = true) := by decide
  have htotal : sumRefunds [] = .ok "0" := by decide +kernel
  have hamount : decimal (.text "10.50") = .ok "10.5" := by decide +kernel
  simp only [order, plainOrder, if_neg hin, htotal, hamount, List.mapM_nil]
  rfl

theorem records_valid_plain :
    (∀ record ∈ [WooRecord.order (orderRecord (plainOrder "processing") 1767268800 "0" "10.5")],
      record.Valid) ↔ ∀ o ∈ some (plainOrder "processing"), o.InScope → o.Sendable :=
  records_valid_iff (order_plainOrder "processing")

/-- A status of the shop's own is extracted, and the schema refuses its record. -/
theorem custom_status_refused : ∃ answer records, order answer = .ok records ∧
    ∃ record ∈ records, ¬ record.Valid := by
  refine ⟨_, _, order_plainOrder "shipped", _, List.mem_singleton_self _, ?_⟩
  intro hv
  have hstatus : "shipped" ∈ wooStatuses := hv.status
  revert hstatus
  decide

end LedgerGuard.Plugin
