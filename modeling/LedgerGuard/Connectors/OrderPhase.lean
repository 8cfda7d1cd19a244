import LedgerGuard.Ingestion.WooFacts
import LedgerGuard.Lib.Raising

/-! # The order phase of a Stripe scan

The last phase of a scan looks up every Stripe identifier that the orders of the
linked shops name. What a request and the processing of its response come to is a
parameter; what is refused before any request is sent is the identifier's own
form.
-/

namespace LedgerGuard.Connectors

open Ingestion Ordered Raising Transition

inductive StripeFailure
  | connector (code : String) (permanent : Bool)
  | other
  deriving DecidableEq

inductive ObjectKind | paymentIntent | charge | refund | checkoutSession
  deriving DecidableEq, Repr

/-- `OBJECT_PREFIXES`. -/
def ObjectKind.idPrefix : ObjectKind → String
  | .paymentIntent => "pi_"
  | .charge => "ch_"
  | .refund => "re_"
  | .checkoutSession => "cs_"

def ObjectKind.path : ObjectKind → String
  | .paymentIntent => "payment_intents"
  | .charge => "charges"
  | .refund => "refunds"
  | .checkoutSession => "checkout/sessions"

def isWord (c : Char) : Bool := isAlnum c || c = '_'

/-- `OBJECT_ID`, matched in full. -/
def objectId (value : String) : Bool :=
  ["pi_", "ch_", "re_", "evt_", "cs_"].any fun pre =>
    prefixed pre.toList isWord value.toList && value.toList.length ≤ pre.toList.length + 240

section Phase

variable (provider : String → Except StripeFailure Unit)

/-- `fetch_resource`: check the identifier, then ask the provider for the path. -/
def fetchResource (kind : ObjectKind) (sourceId : String) : Except StripeFailure Unit :=
  if objectId sourceId = false then .error (.connector "STRIPE_ID_INVALID" false)
  else if startsWith kind.idPrefix sourceId = false then
    .error (.connector "STRIPE_ID_INVALID" true)
  else provider ("/v1/" ++ kind.path ++ "/" ++ sourceId)

def referenceKind (ref : String) : ObjectKind :=
  if startsWith "pi_" ref then .paymentIntent
  else if startsWith "ch_" ref then .charge
  else .checkoutSession

/-- The identifiers that an order names. -/
def references (order : Projection) : List String :=
  sortedSet id ([order.transactionId, order.piId, order.chargeId, order.sessionId].filter (· ≠ ""))

/-- Look one identifier up; that it does not exist is no failure. -/
def resolveReference (ref : String) : Except StripeFailure Unit :=
  match fetchResource provider (referenceKind ref) ref with
  | .error (.connector code permanent) =>
    if code = "STRIPE_RESOURCE_UNAVAILABLE" then .ok () else .error (.connector code permanent)
  | outcome => outcome

/-- The order phase of `scan_page` for one batch of orders. -/
def orderPhase (batch : List Projection) : Except StripeFailure Unit :=
  batch.forM fun order => (references order).forM (resolveReference provider)

/-- The phase fails only where the provider does. -/
def FailsByProviderOnly (batch : List Projection) : Prop :=
  ∀ provider failure, orderPhase provider batch = .error failure →
    ∃ path, provider path = .error failure

end Phase

/-- What Stripe accepts as an identifier: no longer than this, and nothing after a newline. -/
def Fetchable (ref : String) : Prop :=
  ref.toList.length ≤ 243 ∧ ref.toList.getLast? ≠ some '\n'

instance (ref : String) : Decidable (Fetchable ref) := inferInstanceAs (Decidable (_ ∧ _))

section Reference

variable {ref : String} {provider : String → Except StripeFailure Unit}

theorem transactionPattern_iff {cs : List Char} : transactionPattern cs = true ↔
    cs = [] ∨ ∃ pre ∈ ["pi_", "ch_", "cs_"], prefixed pre.toList isWord cs = true := by
  rw [transactionPattern, Bool.or_eq_true, decide_eq_true_eq, List.any_eq_true]
  rfl

theorem prefixed_mono {pre cs mid : List Char} {p q : Char → Bool} (hpq : ∀ c, p c = true → q c = true)
    (hmid : ∀ c ∈ mid, q c = true) (h : prefixed (pre ++ mid) p cs = true) :
    prefixed pre q cs = true := by
  obtain ⟨rest, rfl, hne, hall⟩ := prefixed_iff.mp h
  refine prefixed_iff.mpr ⟨mid ++ rest, List.append_assoc .., by simp [hne], fun c hc => ?_⟩
  rcases List.mem_append.mp hc with hm | hm
  · exact hmid c hm
  · exact hpq c (hall c hm)

theorem isWord_of_isAlnum (c : Char) (h : isAlnum c = true) : isWord c = true :=
  Bool.or_eq_true _ _ ▸ Or.inl h

theorem transaction_of_payment {cs : List Char} (h : prefixed "pi_".toList isAlnum cs = true) :
    transactionPattern cs = true :=
  transactionPattern_iff.mpr (Or.inr ⟨"pi_", by simp,
    @prefixed_mono _ _ [] _ _ isWord_of_isAlnum nofun (by simpa using h)⟩)

theorem transaction_of_charge {cs : List Char} (h : prefixed "ch_".toList isAlnum cs = true) :
    transactionPattern cs = true :=
  transactionPattern_iff.mpr (Or.inr ⟨"ch_", by simp,
    @prefixed_mono _ _ [] _ _ isWord_of_isAlnum nofun (by simpa using h)⟩)

theorem transaction_of_session {cs : List Char} (h : checkoutSessionPattern cs = true) :
    transactionPattern cs = true := by
  refine transactionPattern_iff.mpr (Or.inr ⟨"cs_", by simp, ?_⟩)
  simp only [checkoutSessionPattern, List.any_cons, List.any_nil, Bool.or_false,
    Bool.or_eq_true] at h
  rcases h with h | h | h
  · exact @prefixed_mono _ _ [] _ _ isWord_of_isAlnum nofun (by simpa using h)
  · exact @prefixed_mono _ _ "test_".toList _ _ isWord_of_isAlnum
      (List.all_eq_true.mp (by decide)) h
  · exact @prefixed_mono _ _ "live_".toList _ _ isWord_of_isAlnum
      (List.all_eq_true.mp (by decide)) h

theorem prefixed_of_fetchable (h : searchAnchored transactionPattern ref = true) (hne : ref ≠ "")
    (hl : ref.toList.getLast? ≠ some '\n') :
    ∃ pre ∈ ["pi_", "ch_", "cs_"], prefixed pre.toList isWord ref.toList = true := by
  rcases searchAnchored_iff.mp h with hp | ⟨cs, hcs, -⟩
  · refine (transactionPattern_iff.mp hp).resolve_left fun hnil => hne ?_
    exact String.toList_injective hnil
  · rw [hcs, List.getLast?_concat] at hl
    exact absurd rfl hl

theorem getLast_of_prefixed {pre cs : List Char} (h : prefixed pre isWord cs = true) :
    cs.getLast? ≠ some '\n' := by
  obtain ⟨rest, rfl, hne, hall⟩ := prefixed_iff.mp h
  rw [List.getLast?_append_of_ne_nil _ hne]
  intro hl
  exact absurd (hall _ (List.mem_of_getLast? hl)) (by decide)

theorem objectId_iff (h : searchAnchored transactionPattern ref = true) (hne : ref ≠ "") :
    objectId ref = true ↔ Fetchable ref := by
  rw [objectId, List.any_eq_true]
  constructor
  · rintro ⟨pre, hpre, hp⟩
    obtain ⟨hp, hlen⟩ := Bool.and_eq_true_iff.mp hp
    have hl := getLast_of_prefixed hp
    refine ⟨?_, hl⟩
    obtain ⟨pre', hpre', hp'⟩ := prefixed_of_fetchable h hne hl
    obtain ⟨rest, hr, -⟩ := prefixed_iff.mp hp
    obtain ⟨rest', hr', -⟩ := prefixed_iff.mp hp'
    -- the one longer prefix begins with another letter
    have hshort : pre.toList.length ≤ 3 := by
      have he := congrArg List.head? (hr.symm.trans hr')
      simp only [List.mem_cons, List.not_mem_nil, or_false] at hpre hpre'
      rcases hpre with rfl | rfl | rfl | rfl | rfl
      · decide
      · decide
      · decide
      · rcases hpre' with rfl | rfl | rfl <;> simp at he
      · decide
    have := of_decide_eq_true hlen
    omega
  · rintro ⟨hlen, hl⟩
    obtain ⟨pre, hpre, hp⟩ := prefixed_of_fetchable h hne hl
    have h3 : pre.toList.length = 3 := by
      simp only [List.mem_cons, List.not_mem_nil, or_false] at hpre
      rcases hpre with rfl | rfl | rfl <;> rfl
    refine ⟨pre, ?_, Bool.and_eq_true_iff.mpr ⟨hp, decide_eq_true (by omega)⟩⟩
    simp only [List.mem_cons, List.not_mem_nil, or_false] at hpre ⊢
    rcases hpre with rfl | rfl | rfl <;> simp

theorem startsWith_referenceKind (h : searchAnchored transactionPattern ref = true)
    (hne : ref ≠ "") (hl : ref.toList.getLast? ≠ some '\n') :
    startsWith (referenceKind ref).idPrefix ref = true := by
  unfold referenceKind
  split
  case isTrue hp => exact hp
  case isFalse hp =>
    split
    case isTrue hc => exact hc
    case isFalse hc =>
      obtain ⟨pre, hpre, hpp⟩ := prefixed_of_fetchable h hne hl
      have hs : startsWith pre ref = true :=
        (Bool.and_eq_true_iff.mp (Bool.and_eq_true_iff.mp hpp).1).1
      simp only [List.mem_cons, List.not_mem_nil, or_false] at hpre
      rcases hpre with rfl | rfl | rfl
      · exact absurd hs hp
      · exact absurd hs hc
      · exact hs

theorem fetchResource_eq (h : searchAnchored transactionPattern ref = true) (hne : ref ≠ "") :
    fetchResource provider (referenceKind ref) ref =
      if Fetchable ref then provider ("/v1/" ++ (referenceKind ref).path ++ "/" ++ ref)
      else .error (.connector "STRIPE_ID_INVALID" false) := by
  unfold fetchResource
  by_cases hf : Fetchable ref
  · rw [(objectId_iff h hne).mpr hf, startsWith_referenceKind h hne hf.2, if_pos hf]
    rfl
  · have hid : objectId ref = false := by
      rw [← Bool.not_eq_true, objectId_iff h hne]
      exact hf
    rw [if_pos hid, if_neg hf]

end Reference

section Batch

variable {provider : String → Except StripeFailure Unit} {batch : List Projection}
  {failure : StripeFailure} {sha256 : String → String}

/-- Every identifier that the order names is in the language of the schema. -/
def InSchema (order : Projection) : Prop :=
  ∀ ref ∈ references order, searchAnchored transactionPattern ref = true

theorem mem_references {order : Projection} {ref : String} : ref ∈ references order ↔
    ref ≠ "" ∧ (ref = order.transactionId ∨ ref = order.piId ∨ ref = order.chargeId ∨
      ref = order.sessionId) := by
  simp only [references, mem_sortedSet, List.mem_filter, List.mem_cons, List.not_mem_nil, or_false,
    decide_eq_true_eq, and_comm]

theorem fails_by_provider_only_iff_fetchable (hb : ∀ order ∈ batch, InSchema order) :
    FailsByProviderOnly batch ↔ ∀ order ∈ batch, ∀ ref ∈ references order, Fetchable ref := by
  constructor
  · intro h order ho ref href
    by_contra hf
    -- a provider that finds everything
    have hok : orderPhase (fun _ => .ok ()) batch = .ok () := by
      cases hp : orderPhase (fun _ => .ok ()) batch with
      | ok u => rfl
      | error failure =>
        obtain ⟨path, hpath⟩ := h _ failure hp
        cases hpath
    have hr := forM_ok.mp (forM_ok.mp hok order ho) ref href
    rw [resolveReference, fetchResource_eq (hb order ho ref href) (mem_references.mp href).1,
      if_neg hf] at hr
    exact absurd hr (by decide)
  · intro h provider failure hp
    obtain ⟨order, ho, hp⟩ := forM_error hp
    obtain ⟨ref, href, hp⟩ := forM_error hp
    rw [resolveReference, fetchResource_eq (hb order ho ref href) (mem_references.mp href).1,
      if_pos (h order ho ref href)] at hp
    split at hp
    case h_1 code permanent he =>
      split at hp
      · cases hp
      · exact ⟨_, he.trans hp⟩
    case h_2 => exact ⟨_, hp⟩

/-- An order that some calls with valid pages have stored for a shop. -/
def StoredOrder (sha256 : String → String) (order : Projection) : Prop :=
  ∃ connector calls s, Run (Guarded (batchStep sha256 connector) ValidCall) {} calls s ∧
    order ∈ s.db.facts.projections ∧ order.kind = .order

theorem StoredOrder.inSchema {order : Projection} (h : StoredOrder sha256 order) :
    InSchema order := by
  obtain ⟨connector, calls, s, hrun, ho, hk⟩ := h
  obtain ⟨now, hrec⟩ := recorded_of_run_at hrun
  obtain ⟨r, hvalid, hr, -⟩ := hrec order ho
  cases r with
  | refund r => exact absurd (hk.symm.trans hr.kind) nofun
  | order r =>
    have ho := hr.hasOrder
    intro ref href
    have hsearch : ∀ {n : ℕ} {pattern : List Char → Bool} {id : Option String},
        (∀ s ∈ id, text n pattern s = true) → (∀ cs, pattern cs = true → transactionPattern cs = true) →
        ref ≠ "" → ref = id.getD "" → searchAnchored transactionPattern ref = true := by
      rintro n pattern (_ | s) hid hsub hne rfl
      · exact absurd rfl hne
      · have ht := (Bool.and_eq_true_iff.mp (hid _ rfl)).2
        rcases searchAnchored_iff.mp ht with hp | ⟨cs, hcs, hp⟩
        · exact searchAnchored_iff.mpr (Or.inl (hsub _ hp))
        · exact searchAnchored_iff.mpr (Or.inr ⟨cs, hcs, hsub cs hp⟩)
    obtain ⟨hne, he⟩ := mem_references.mp href
    rcases he with rfl | rfl | rfl | rfl
    · rw [ho.transactionId]
      exact (Bool.and_eq_true_iff.mp hvalid.transactionId).2
    · exact hsearch hvalid.stripeIds.paymentIntent (fun _ => transaction_of_payment) hne ho.piId
    · exact hsearch hvalid.stripeIds.charge (fun _ => transaction_of_charge) hne ho.chargeId
    · exact hsearch hvalid.stripeIds.checkoutSession (fun _ => transaction_of_session) hne
        ho.sessionId

/-- For orders that shops have sent, the order phase fails by the provider only exactly if every
identifier is short enough for Stripe and does not end in a newline. -/
theorem fails_by_provider_only_iff (hb : ∀ order ∈ batch, StoredOrder sha256 order) :
    FailsByProviderOnly batch ↔ ∀ order ∈ batch, ∀ ref ∈ references order, Fetchable ref :=
  fails_by_provider_only_iff_fetchable fun order ho => (hb order ho).inSchema

end Batch

namespace Fixture

def paidOrder (transactionId : String) : OrderRecord where
  sourceId := "101"
  revision := "2026-09-05T10:30:00Z"
  createdAt := "2026-09-05T10:00:00Z"
  status := "completed"
  amount := "10"
  totalRefunded := "0"
  currency := "USD"
  paymentMethod := "stripe"
  transactionId := transactionId

def orderPage (r : OrderRecord) : Envelope :=
  { scanPage "orders" "2026-09-05T10:00:00Z" "2026-09-05T12:00:00Z" with records := [.order r] }

theorem valid_paidOrder {transactionId : String}
    (h : text 255 transactionPattern transactionId = true) : (paidOrder transactionId).Valid :=
  have h₀ : (paidOrder "").Valid := by decide +kernel
  { h₀ with transactionId := h }

theorem storedOrder {r : OrderRecord} {order : Projection} (hr : r.Valid)
    (ho : order ∈ (({} : Ingestion.Server).atNoon (orderPage r)).db.facts.projections)
    (hk : order.kind = .order) : StoredOrder Sha256.hexdigest order := by
  refine ⟨shop, [(noon, orderPage r)], _, Run.nil.snoc ⟨?_, rfl⟩, ho, hk⟩
  intro x hx
  obtain rfl := List.mem_singleton.mp hx
  exact hr

/-- 244 characters, which the schema allows and Stripe's pattern does not. -/
def longTransaction : String := "pi_" ++ String.ofList (List.replicate 241 'a')

theorem toList_longTransaction :
    longTransaction.toList = "pi_".toList ++ List.replicate 241 'a' := by
  rw [longTransaction, String.toList_append, String.toList_ofList, String.toList_ofList]

theorem text_longTransaction : text 255 transactionPattern longTransaction = true := by
  refine text_of_pattern ?_ (transactionPattern_iff.mpr (Or.inr ⟨"pi_", by simp, ?_⟩))
  · rw [toList_longTransaction, List.length_append, List.length_replicate]
    decide
  · rw [toList_longTransaction]
    refine prefixed_iff.mpr ⟨_, rfl, by simp, fun c hc => ?_⟩
    rw [List.eq_of_mem_replicate hc]
    decide

end Fixture

open Fixture

theorem fails_by_provider_only_short : ∃ order : Projection, order.transactionId = "pi_3Example" ∧
    FailsByProviderOnly [order] := by
  obtain ⟨order, ho, hk, ht, hf⟩ : ∃ order ∈ (({} : Ingestion.Server).atNoon
      (orderPage (paidOrder "pi_3Example"))).db.facts.projections.rows,
      order.kind = .order ∧ order.transactionId = "pi_3Example" ∧
        ∀ ref ∈ references order, Fetchable ref := by decide +kernel
  have hb : ∀ x ∈ [order], StoredOrder Sha256.hexdigest x := fun x hx =>
    List.mem_singleton.mp hx ▸ storedOrder (valid_paidOrder (by decide +kernel)) ho hk
  exact ⟨order, ht, (fails_by_provider_only_iff hb).mpr fun x hx => List.mem_singleton.mp hx ▸ hf⟩

/-- The schema accepts the identifier, and the scan raises before it asks the provider. -/
theorem long_identifier_fails_phase : ¬ ∀ batch : List Projection,
    (∀ order ∈ batch, StoredOrder Sha256.hexdigest order) → FailsByProviderOnly batch := by
  intro h
  obtain ⟨order, ho, hk, ht⟩ : ∃ order ∈ (({} : Ingestion.Server).atNoon
      (orderPage (paidOrder longTransaction))).db.facts.projections.rows,
      order.kind = .order ∧ order.transactionId = longTransaction := by decide +kernel
  have hb : ∀ x ∈ [order], StoredOrder Sha256.hexdigest x := fun x hx =>
    List.mem_singleton.mp hx ▸ storedOrder (valid_paidOrder text_longTransaction) ho hk
  have hne : longTransaction ≠ "" := by
    intro he
    have hl := congrArg String.toList he
    rw [toList_longTransaction] at hl
    cases hl
  have hf := (fails_by_provider_only_iff_fetchable fun x hx => (hb x hx).inSchema).mp (h [order] hb)
    order List.mem_cons_self longTransaction (mem_references.mpr ⟨hne, Or.inl ht.symm⟩)
  have hlen := hf.1
  rw [toList_longTransaction, List.length_append, List.length_replicate] at hlen
  exact absurd hlen (by decide)

end LedgerGuard.Connectors
