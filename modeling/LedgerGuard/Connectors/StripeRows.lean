import LedgerGuard.Connectors.StripeFacts
import LedgerGuard.Findings.Completion

/-! # The rows of a Stripe account

Whatever the provider answers, and in whatever order receipts, listings and orders are
worked off, only rows that a run can process are stored, and each under the identity
that was asked for. A row that belongs to a payment has it beside it, unless the
provider said that there is no such payment.
-/

namespace LedgerGuard.Connectors.StripeFacts

open Effects Ingestion Raising Scanning Transition

section Reading

variable {value : Json} {object : Object} {kind : ObjectKind} {mode : Mode} {id key currency : String}
  {money : Money} {data data' : SourceData} {e : StripeFailure}

theorem objectId_ne_empty (h : objectId id = true) : id ≠ "" := by
  rintro rfl
  revert h
  decide

theorem resourceId_required (h : resourceId false value = .ok id) : objectId id = true := by
  unfold resourceId at h
  split at h
  · contradiction
  · split at h
    · split at h
      · obtain rfl := Except.ok.inj h
        assumption
      · cases h
    · cases h

theorem resourceId_optional (h : resourceId true value = .ok id) :
    (value = .null ∧ id = "") ∨ objectId id = true := by
  unfold resourceId at h
  split at h
  · exact Or.inl ⟨rfl, (Except.ok.inj h).symm⟩
  · split at h
    · split at h
      · obtain rfl := Except.ok.inj h
        exact Or.inr (by assumption)
      · cases h
    · cases h

theorem resourceId_empty (h : resourceId true value = .ok "") : value = .null :=
  (resourceId_optional h).elim And.left fun hid => absurd rfl (objectId_ne_empty hid)

theorem statusOf_ok {status : String} (h : statusOf kind object = .ok status) :
    status ∈ statuses kind := by
  unfold statusOf at h
  split at h
  · obtain rfl := Except.ok.inj h
    split <;> simp [statuses]
  · split at h
    · split at h
      · obtain rfl := Except.ok.inj h
        assumption
      · cases h
    all_goals cases h

theorem resourceId_text (h : resourceId false (.str key) = .ok id) : id = key := by
  unfold resourceId at h
  simp only [idText] at h
  split at h
  · exact (Except.ok.inj h).symm
  · cases h

theorem checkIdentity_ok {expected : String} (h : checkIdentity kind expected object = .ok ())
    (hid : resourceId false (field "id" object) = .ok id) : id = expected := by
  obtain ⟨id', hid', h⟩ := bind_eq_ok.mp h
  rw [hid] at hid'
  obtain rfl := Except.ok.inj hid'
  split at h
  · split at h
    · rename_i hsame
      exact hsame.1
    · cases h
  · cases h

theorem outsideContract_iff : outsideContract kind object = true ↔
    kind = .checkoutSession ∧ field "payment_intent" object = .null := by
  unfold outsideContract
  cases field "payment_intent" object <;> simp

/-- Data that a run can process. -/
structure Normal (kind : ObjectKind) (data : SourceData) : Prop where
  status : data.status ∈ statuses kind
  amount : data.amountMinor ≤ maxMinor ∧ exponents data.currency = some data.exponent
  received : kind = .paymentIntent → ∃ n, data.receivedMinor = some n ∧ n ≤ maxMinor
  parent : data.parentId = none ↔ kind = .paymentIntent

theorem normalize_ok (h : normalize mode kind object = .ok (id, data)) :
    resourceId false (field "id" object) = .ok id ∧ Normal kind data ∧
      (∀ parentId, data.parentId = some parentId →
        resourceId true (field "payment_intent" object) = .ok parentId) ∧
      (kind = .refund → ∃ chargeId, data.chargeId = some chargeId ∧
        resourceId true (field "charge" object) = .ok chargeId) := by
  obtain ⟨id', hid, h⟩ := bind_eq_ok.mp h
  obtain ⟨-, -, h⟩ := bind_eq_ok.mp h
  obtain ⟨currency, -, h⟩ := bind_eq_ok.mp h
  obtain ⟨amount, -, h⟩ := bind_eq_ok.mp h
  obtain ⟨created, -, h⟩ := bind_eq_ok.mp h
  obtain ⟨status, hstatus, h⟩ := bind_eq_ok.mp h
  obtain ⟨createdAt, -, h⟩ := bind_eq_ok.mp h
  obtain ⟨data', hdata, h⟩ := bind_eq_ok.mp h
  obtain ⟨rfl, rfl⟩ := Prod.mk.inj (Except.ok.inj h)
  have hamount : amount.minor ≤ maxMinor ∧ exponents amount.currency = some amount.exponent :=
    ⟨amount.minor_le, amount.exponent_eq⟩
  have hstatus := statusOf_ok hstatus
  refine ⟨hid, ?_⟩
  cases kind with
  | paymentIntent =>
    obtain ⟨metadata, -, h⟩ := bind_eq_ok.mp hdata
    obtain ⟨hint, -, h⟩ := bind_eq_ok.mp h
    obtain ⟨method, -, h⟩ := bind_eq_ok.mp h
    obtain ⟨received, -, h⟩ := bind_eq_ok.mp h
    obtain ⟨capturable, -, h⟩ := bind_eq_ok.mp h
    obtain ⟨chargeId, -, h⟩ := bind_eq_ok.mp h
    obtain ⟨capture, -, h⟩ := bind_eq_ok.mp h
    obtain rfl := Except.ok.inj h
    exact ⟨⟨hstatus, hamount, fun _ => ⟨_, rfl, received.minor_le⟩, by simp⟩, by simp, by simp⟩
  | charge =>
    obtain ⟨parentId, hparent, h⟩ := bind_eq_ok.mp hdata
    obtain ⟨refunded, -, h⟩ := bind_eq_ok.mp h
    obtain rfl := Except.ok.inj h
    refine ⟨⟨hstatus, hamount, by simp, by simp⟩, fun _ hp => ?_, by simp⟩
    rwa [← Option.some.inj hp]
  | refund =>
    obtain ⟨parentId, hparent, h⟩ := bind_eq_ok.mp hdata
    obtain ⟨chargeId, hcharge, h⟩ := bind_eq_ok.mp h
    obtain rfl := Except.ok.inj h
    refine ⟨⟨hstatus, hamount, by simp, by simp⟩, fun _ hp => ?_, fun _ => ⟨_, rfl, hcharge⟩⟩
    rwa [← Option.some.inj hp]
  | checkoutSession =>
    obtain ⟨parentId, hparent, h⟩ := bind_eq_ok.mp hdata
    obtain ⟨chargeId, -, h⟩ := bind_eq_ok.mp h
    obtain rfl := Except.ok.inj h
    refine ⟨⟨hstatus, hamount, by simp, by simp⟩, fun _ hp => ?_, by simp⟩
    rwa [← Option.some.inj hp]

/-- What raises, if anything, is not that an object is unavailable. -/
def Regular {α : Type} (x : Except StripeFailure α) : Prop :=
  ∀ e, x = .error e → isUnavailable e = false

section Regular

variable {α β : Type} {x : Except StripeFailure α} {f : α → Except StripeFailure β}

theorem regular_ok {a : α} : Regular (.ok a) := fun _ h => by cases h

theorem regular_error (h : isUnavailable e = false) : Regular (.error e : Except StripeFailure α) := by
  intro e' he
  rwa [← Except.error.inj he]

theorem regular_bind (hx : Regular x) (hf : ∀ a, Regular (f a)) : Regular (x >>= f) := by
  cases x with
  | error e => exact regular_error (hx e rfl)
  | ok a => exact hf a

end Regular

theorem resourceId_regular {optional : Bool} : Regular (resourceId optional value) := by
  unfold resourceId
  split
  · exact regular_ok
  · split
    · split
      · exact regular_ok
      · exact regular_error (by decide)
    · exact regular_error (by decide)

theorem checkIdentity_regular : Regular (checkIdentity kind id object) := by
  apply regular_bind resourceId_regular
  intro sourceId
  split
  · split
    · exact regular_ok
    · exact regular_error (by decide)
  · exact regular_error (by decide)

theorem checkMode_regular : Regular (checkMode mode object) := by
  unfold checkMode
  split
  · exact regular_ok
  · exact regular_error (by decide)

theorem item_regular : Regular (item key value) := by
  unfold item
  split
  · rename_i fields
    cases fields.lookup key with
    | none => exact regular_error rfl
    | some v => exact regular_ok
  · exact regular_error rfl

theorem amountOf_regular : Regular (amountOf key currency object) := by
  apply regular_bind item_regular
  intro value
  split
  · exact regular_ok
  · exact regular_error rfl

theorem currencyOf_regular : Regular (currencyOf object) := by
  unfold currencyOf
  split
  · exact regular_ok
  · exact regular_ok
  · exact regular_error rfl

theorem createdOf_regular : Regular (createdOf object) := by
  unfold createdOf
  split
  · exact regular_ok
  · exact regular_error (by decide)

theorem createdText_regular {created : ℕ} : Regular (createdText created) := by
  unfold createdText
  dsimp only
  split
  · exact regular_ok
  · exact regular_error rfl

theorem statusOf_regular : Regular (statusOf kind object) := by
  unfold statusOf
  split
  · exact regular_ok
  · split
    · split
      · exact regular_ok
      · exact regular_error (by decide)
    · exact regular_error rfl
    · exact regular_error rfl
    · exact regular_error (by decide)

theorem metadataOf_regular : Regular (metadataOf object) := by
  unfold metadataOf
  split
  · exact regular_ok
  · split
    · exact regular_ok
    · exact regular_error rfl

theorem storeHint_regular : Regular (storeHint object) := by
  unfold storeHint
  split
  · exact regular_ok
  · split
    · exact regular_ok
    · exact regular_error rfl

theorem methodOf_regular : Regular (methodOf object) := by
  unfold methodOf
  dsimp only
  split
  · exact regular_ok
  · exact regular_error rfl
  · exact regular_ok
  · exact regular_ok
  · exact regular_error rfl
  · exact regular_ok
  · split
    · exact regular_ok
    · exact regular_error rfl

theorem captureMethodOf_regular : Regular (captureMethodOf object) := by
  unfold captureMethodOf
  split
  · exact regular_ok
  · exact regular_ok
  · exact regular_error rfl

theorem chargeOf_regular : Regular (chargeOf kind object) := by
  unfold chargeOf
  split
  · exact resourceId_regular
  · exact regular_ok

theorem detail_regular : Regular (detail kind object data) := by
  cases kind with
  | paymentIntent =>
    refine regular_bind metadataOf_regular fun _ => regular_bind storeHint_regular fun _ => ?_
    refine regular_bind methodOf_regular fun _ => regular_bind amountOf_regular fun _ => ?_
    refine regular_bind amountOf_regular fun _ => regular_bind resourceId_regular fun _ => ?_
    exact regular_bind captureMethodOf_regular fun _ => regular_ok
  | charge =>
    exact regular_bind resourceId_regular fun _ => regular_bind amountOf_regular fun _ => regular_ok
  | refund =>
    exact regular_bind resourceId_regular fun _ => regular_bind chargeOf_regular fun _ => regular_ok
  | checkoutSession =>
    exact regular_bind resourceId_regular fun _ => regular_bind chargeOf_regular fun _ => regular_ok

theorem normalize_regular : Regular (normalize mode kind object) := by
  refine regular_bind resourceId_regular fun _ => regular_bind checkMode_regular fun _ => ?_
  refine regular_bind currencyOf_regular fun _ => regular_bind amountOf_regular fun _ => ?_
  refine regular_bind createdOf_regular fun _ => regular_bind statusOf_regular fun _ => ?_
  exact regular_bind createdText_regular fun _ => regular_bind detail_regular fun _ => regular_ok

end Reading

/-- The answer about the object names no payment, and neither does the answer about the charge of
a refund, if it has one. -/
def NoPayment (kind : ObjectKind) (id : String) (asked : List Exchange) : Prop :=
  ∃ value, (resourcePath kind id, .ok value) ∈ asked ∧ field "payment_intent" value = .null ∧
    (kind = .refund → resourceId true (field "charge" value) = .ok "" ∨
      ∃ chargeId charge, resourceId true (field "charge" value) = .ok chargeId ∧
        (resourcePath .charge chargeId, .ok charge) ∈ asked ∧
        field "payment_intent" charge = .null)

/-- The object is read, and right after it the payment that it names is unavailable. -/
def LostPayment (kind : ObjectKind) (id parentId : String) (asked : List Exchange) : Prop :=
  kind ≠ .refund ∧ ∃ value e, isUnavailable e = true ∧
    resourceId true (field "payment_intent" value) = .ok parentId ∧
    [(resourcePath kind id, .ok value), (resourcePath .paymentIntent parentId, .error e)] <:+: asked

section Objects

variable (sha256 : String → String) (o : Provider) (connector : Installation)

/-- The object that was asked for is stored, with data that a run can process. -/
def Stored (kind : ObjectKind) (sourceId : Json) (data : SourceData) (f f' : Ingestion.Facts) :
    Prop :=
  ∃ id n d, resourceId false sourceId = .ok id ∧ startsWith kind.idPrefix id = true ∧
    Normal kind data ∧ data.parentId ≠ some "" ∧
    upsert sha256 connector (storedKind kind) id (o.now n) data f = .ok (f', d)

/-- How a fetch ends: what it has asked, what is returned or raised, and the facts behind it. -/
inductive Fetched (kind : ObjectKind) (sourceId : Json) (f : Ingestion.Facts) :
    List Exchange → Except StripeFailure (Option Projection) → Ingestion.Facts → Prop

  | outside {asked id} : kind ≠ .paymentIntent → resourceId false sourceId = .ok id →
      NoPayment kind id asked → Fetched kind sourceId f asked (.ok none) f

  | payment {asked data row f'} : kind = .paymentIntent →
      Stored sha256 o connector kind sourceId data f f' → Fetched kind sourceId f asked (.ok row) f'

  | child {asked data data' parentId row g f'} :
      Stored sha256 o connector kind sourceId data f g → data.parentId = some parentId →
      Stored sha256 o connector .paymentIntent (.str parentId) data' g f' →
      Fetched kind sourceId f asked (.ok row) f'

  | refused {asked e} : Fetched kind sourceId f asked (.error e) f

  | orphaned {asked data id parentId e f'} :
      Stored sha256 o connector kind sourceId data f f' → resourceId false sourceId = .ok id →
      data.parentId = some parentId →
      (isUnavailable e = true → kind ≠ .refund → LostPayment kind id parentId asked) →
      Fetched kind sourceId f asked (.error e) f'

end Objects

theorem NoPayment.mono {kind : ObjectKind} {id : String} {asked asked' : List Exchange}
    (h : NoPayment kind id asked) (hsub : ∀ x ∈ asked, x ∈ asked') : NoPayment kind id asked' := by
  obtain ⟨value, hvalue, hnull, hcharge⟩ := h
  refine ⟨value, hsub _ hvalue, hnull, fun hk => (hcharge hk).imp_right ?_⟩
  rintro ⟨chargeId, charge, hid, hmem, hnull⟩
  exact ⟨chargeId, charge, hid, hsub _ hmem, hnull⟩

theorem LostPayment.mono {kind : ObjectKind} {id parentId : String} {asked asked' : List Exchange}
    (h : LostPayment kind id parentId asked) (hsub : asked <:+: asked') :
    LostPayment kind id parentId asked' := by
  obtain ⟨hk, value, e, he, hnamed, hasked⟩ := h
  exact ⟨hk, value, e, he, hnamed, hasked.trans hsub⟩

section Fetching

variable {sha256 : String → String} {o : Provider} {connector : Installation} {kind : ObjectKind}
  {sourceId : Json} {s s' : Session} {data : SourceData} {path id : String}

theorem Stored.normal {f f' : Ingestion.Facts}
    (h : Stored sha256 o connector kind sourceId data f f') : Normal kind data := by
  obtain ⟨id, n, d, -, -, hn, -⟩ := h
  exact hn

theorem ask_ends {r : Except StripeFailure Object} (h : Ends (ask o path) s r s') :
    s' = { s with asked := s.asked ++ [(path, r)] } := by
  rcases ends_bind.mp h with ⟨t, u, hget, hset⟩ | ⟨e, hget, -⟩
  · obtain ⟨ht, rfl⟩ := ends_get.mp hget
    obtain rfl := Except.ok.inj ht
    rcases ends_bind.mp hset with ⟨v, w, hset, hlift⟩ | ⟨e, hset, -⟩
    · obtain ⟨-, rfl⟩ := ends_set.mp hset
      obtain ⟨rfl, rfl⟩ := ends_lift.mp hlift
      rfl
    · cases (ends_set.mp hset).1
  · cases (ends_get.mp hget).1

theorem store_ends {r : Except StripeFailure (Option Projection)}
    (h : Ends (store sha256 o connector kind id data) s r s') :
    (∃ row n d, r = .ok row ∧ s'.asked = s.asked ∧
      upsert sha256 connector (storedKind kind) id (o.now n) data s.facts = .ok (s'.facts, d)) ∨
    (s' = s ∧ r = .error .other) := by
  rcases ends_bind.mp h with ⟨t, u, hget, hstore⟩ | ⟨e, hget, -⟩
  · obtain ⟨ht, rfl⟩ := ends_get.mp hget
    obtain rfl := Except.ok.inj ht
    split at hstore
    · rename_i facts d hu
      rcases ends_bind.mp hstore with ⟨v, w, hset, hpure⟩ | ⟨e, hset, -⟩
      · obtain ⟨-, rfl⟩ := ends_set.mp hset
        obtain ⟨rfl, rfl⟩ := ends_pure.mp hpure
        exact Or.inl ⟨_, _, d, rfl, rfl, hu⟩
      · cases (ends_set.mp hset).1
    · obtain ⟨rfl, rfl⟩ := ends_throw.mp hstore
      exact Or.inr ⟨rfl, rfl⟩
  · cases (ends_get.mp hget).1

/-- The charge of the refund names no payment, or the refund names no charge. -/
def NoChargePayment (data : SourceData) (asked : List Exchange) : Prop :=
  data.chargeId = some "" ∨ ∃ charge,
    (resourcePath .charge (data.chargeId.getD ""), .ok charge) ∈ asked ∧
      field "payment_intent" charge = .null

theorem parented_ends {r : Except StripeFailure SourceData} (h : Ends (parented o kind data) s r s')
    (hn : Normal kind data) : ∃ asked, s' = { s with asked := s.asked ++ asked } ∧
      (kind ≠ .refund → asked = [] ∧ r = .ok data) ∧
      ∀ data', r = .ok data' → Normal kind data' ∧
        (data'.parentId = some "" →
          data.parentId = some "" ∧ (kind = .refund → NoChargePayment data asked)) := by
  unfold parented at h
  split at h
  case isFalse hk =>
    obtain ⟨rfl, rfl⟩ := ends_pure.mp h
    refine ⟨[], by simp, fun _ => ⟨rfl, rfl⟩, fun data' hd => ?_⟩
    obtain rfl := Except.ok.inj hd
    refine ⟨hn, fun hempty => ⟨hempty, fun hrefund => Or.inl ?_⟩⟩
    by_contra hne
    exact hk ⟨hrefund, hempty, hne⟩
  case isTrue hk =>
    rcases ends_bind.mp h with ⟨charge, t, hask, hlift⟩ | ⟨e, hask, rfl⟩
    case inr =>
      exact ⟨_, ask_ends hask, fun hne => absurd hk.1 hne, fun _ hd => by cases hd⟩
    have ht := ask_ends hask
    rcases ends_lift_bind.mp hlift with ⟨parentId, hparent, hpure⟩ | ⟨e, -, rfl, rfl⟩
    case inr => exact ⟨_, ht, fun hne => absurd hk.1 hne, fun _ hd => by cases hd⟩
    obtain ⟨rfl, rfl⟩ := ends_pure.mp hpure
    refine ⟨_, ht, fun hne => absurd hk.1 hne, fun data' hd => ?_⟩
    obtain rfl := Except.ok.inj hd
    refine ⟨{ hn with parent := by simp [hk.1] }, fun hempty => ⟨hk.2.1, fun _ => ?_⟩⟩
    obtain rfl := Option.some.inj hempty
    exact Or.inr ⟨charge, List.mem_singleton_self _, resourceId_empty hparent⟩

theorem fetchObject_ends {r : Except StripeFailure (Option (SourceData × Option Projection))}
    (h : Ends (fetchObject sha256 o connector kind sourceId) s r s') :
    ∃ asked, s'.asked = s.asked ++ asked ∧
    ((∃ data row id, r = .ok (some (data, row)) ∧ resourceId false sourceId = .ok id ∧
      Stored sha256 o connector kind sourceId data s.facts s'.facts ∧
      (kind ≠ .refund → ∃ value, asked = [(resourcePath kind id, .ok value)] ∧
        ∀ parentId, data.parentId = some parentId →
          resourceId true (field "payment_intent" value) = .ok parentId)) ∨
    (s'.facts = s.facts ∧ r = .ok none ∧ kind ≠ .paymentIntent ∧
      ∃ id, resourceId false sourceId = .ok id ∧ NoPayment kind id asked) ∨
    (s'.facts = s.facts ∧ ∃ e, r = .error e ∧ (isUnavailable e = true → kind ≠ .refund →
      ∃ id, resourceId false sourceId = .ok id ∧ asked = [(resourcePath kind id, .error e)]))) := by
  have hraise : ∀ {α : Type} {x : Except StripeFailure α} {e : StripeFailure} {p : Prop}, Regular x →
      x = .error e → isUnavailable e = true → p := by
    intro α x e p hx he hu
    rw [hx e he] at hu
    cases hu
  rcases ends_lift_bind.mp h with ⟨expected, hid, h₁⟩ | ⟨e, he, rfl, rfl⟩
  case inr =>
    refine ⟨[], by simp, Or.inr (Or.inr ⟨rfl, e, rfl, fun hu _ => ?_⟩)⟩
    exact hraise resourceId_regular he hu
  split at h₁
  case isTrue hp =>
    obtain ⟨rfl, rfl⟩ := ends_throw.mp h₁
    exact ⟨[], by simp, Or.inr (Or.inr ⟨rfl, _, rfl, fun hu => by cases hu⟩)⟩
  rename_i hp
  rcases ends_bind.mp h₁ with ⟨value, t, hask, h₂⟩ | ⟨e, hask, rfl⟩
  case inr =>
    obtain rfl := ask_ends hask
    exact ⟨_, rfl, Or.inr (Or.inr ⟨rfl, e, rfl, fun _ _ => ⟨expected, hid, rfl⟩⟩)⟩
  obtain rfl := ask_ends hask
  rcases ends_lift_bind.mp h₂ with ⟨⟨⟩, hident, h₃⟩ | ⟨e, he, rfl, rfl⟩
  case inr =>
    refine ⟨_, rfl, Or.inr (Or.inr ⟨rfl, e, rfl, fun hu _ => ?_⟩)⟩
    exact hraise checkIdentity_regular he hu
  rcases ends_lift_bind.mp h₃ with ⟨⟨⟩, -, h₄⟩ | ⟨e, he, rfl, rfl⟩
  case inr =>
    refine ⟨_, rfl, Or.inr (Or.inr ⟨rfl, e, rfl, fun hu _ => ?_⟩)⟩
    exact hraise checkMode_regular he hu
  split at h₄
  case isTrue hout =>
    obtain ⟨rfl, rfl⟩ := ends_pure.mp h₄
    obtain ⟨rfl, hnull⟩ := outsideContract_iff.mp hout
    refine ⟨_, rfl, Or.inr (Or.inl ⟨rfl, rfl, by decide, expected, hid, value, ?_, hnull, ?_⟩)⟩
    · exact List.mem_singleton_self _
    · simp
  rcases ends_lift_bind.mp h₄ with ⟨⟨id, data⟩, hnorm, h₅⟩ | ⟨e, he, rfl, rfl⟩
  case inr =>
    refine ⟨_, rfl, Or.inr (Or.inr ⟨rfl, e, rfl, fun hu _ => ?_⟩)⟩
    exact hraise normalize_regular he hu
  obtain ⟨hsid, hn, hnamed, hcharge⟩ := normalize_ok hnorm
  obtain rfl := checkIdentity_ok hident hsid
  rcases ends_bind.mp h₅ with ⟨data', u, hpar, h₆⟩ | ⟨e, hpar, rfl⟩
  case inr =>
    obtain ⟨asked, rfl, hk, -⟩ := parented_ends hpar hn
    refine ⟨_, List.append_assoc .., Or.inr (Or.inr ⟨rfl, e, rfl, fun _ hne => ?_⟩)⟩
    cases (hk hne).2
  obtain ⟨asked, rfl, hk, hdata⟩ := parented_ends hpar hn
  obtain ⟨hn', hnull'⟩ := hdata data' rfl
  split at h₆
  case isTrue hempty =>
    obtain ⟨rfl, rfl⟩ := ends_pure.mp h₆
    obtain ⟨hempty', hrefund⟩ := hnull' hempty
    refine ⟨_, List.append_assoc .., Or.inr (Or.inl ⟨rfl, rfl, fun hpayment => ?_, id, hid, value,
      List.mem_cons_self, resourceId_empty (hnamed _ hempty'), fun hr => ?_⟩)⟩
    · rw [hn'.parent.mpr hpayment] at hempty
      cases hempty
    · obtain ⟨chargeId, hchargeId, hread⟩ := hcharge hr
      rw [hread]
      rcases hrefund hr with hnone | ⟨charge, hmem, hv⟩
      · exact Or.inl (congrArg _ (Option.some.inj (hchargeId.symm.trans hnone)))
      · rw [hchargeId] at hmem
        exact Or.inr ⟨chargeId, charge, rfl, List.mem_cons_of_mem _ hmem, hv⟩
  rename_i hne
  rcases ends_bind.mp h₆ with ⟨row, v, hstore, hpure⟩ | ⟨e, hstore, rfl⟩
  · obtain ⟨rfl, rfl⟩ := ends_pure.mp hpure
    rcases store_ends hstore with ⟨row', m, d, -, hsame, hu⟩ | ⟨-, hr⟩
    · refine ⟨_, hsame.trans (List.append_assoc ..), Or.inl ⟨data', row, id, rfl, hid,
        ⟨id, m, d, hid, by simpa using hp, hn', hne, hu⟩, fun hr => ⟨value, ?_, ?_⟩⟩⟩
      · rw [(hk hr).1]
        rfl
      · rwa [Except.ok.inj (hk hr).2]
    · cases hr
  · rcases store_ends hstore with ⟨row', m, d, hr, -⟩ | ⟨rfl, hr⟩
    · cases hr
    · obtain rfl := Except.error.inj hr
      exact ⟨_, List.append_assoc .., Or.inr (Or.inr ⟨rfl, _, rfl, fun hu => by cases hu⟩)⟩

theorem fetchResource_ends {r : Except StripeFailure (Option Projection)}
    (h : Ends (fetchResource sha256 o connector kind sourceId) s r s') :
    ∃ asked, s'.asked = s.asked ++ asked ∧
      Fetched sha256 o connector kind sourceId s.facts asked r s'.facts := by
  rcases ends_bind.mp h with ⟨found, t, hobject, hrest⟩ | ⟨e, hobject, rfl⟩
  case inr =>
    obtain ⟨asked, hasked, hends⟩ := fetchObject_ends hobject
    rcases hends with ⟨data, row, id, hr, -⟩ | ⟨-, hr, -, -⟩ | ⟨hsame, e', hr, -⟩
    · cases hr
    · cases hr
    · rw [hsame]
      exact ⟨asked, hasked, .refused⟩
  obtain ⟨asked, hasked, hends⟩ := fetchObject_ends hobject
  rcases hends with ⟨data, row, id, hr, hid, hstored, hvalue⟩ | ⟨hsame, hr, hk, id, hid, hnull⟩ |
    ⟨-, e, hr, -⟩
  · obtain rfl := Except.ok.inj hr
    cases hparent : data.parentId with
    | none =>
      simp only [hparent] at hrest
      obtain ⟨rfl, rfl⟩ := ends_pure.mp hrest
      exact ⟨asked, hasked, .payment (hstored.normal.parent.mp hparent) hstored⟩
    | some parentId =>
      simp only [hparent] at hrest
      rcases ends_bind.mp hrest with ⟨found, u, hpayment, hpure⟩ | ⟨e, hpayment, rfl⟩
      · obtain ⟨rfl, rfl⟩ := ends_pure.mp hpure
        obtain ⟨asked', hasked', hends⟩ := fetchObject_ends hpayment
        have hall : s'.asked = s.asked ++ (asked ++ asked') := by
          rw [hasked', hasked, List.append_assoc]
        rcases hends with ⟨data', row', id', -, -, hstored', -⟩ | ⟨-, -, hk, -⟩ | ⟨-, e, hr, -⟩
        · exact ⟨_, hall, .child hstored hparent hstored'⟩
        · exact absurd rfl hk
        · cases hr
      · obtain ⟨asked', hasked', hends⟩ := fetchObject_ends hpayment
        have hall : s'.asked = s.asked ++ (asked ++ asked') := by
          rw [hasked', hasked, List.append_assoc]
        rcases hends with ⟨data', row', id', hr, -⟩ | ⟨-, hr, -, -⟩ | ⟨hsame, e', hr, hget⟩
        · cases hr
        · cases hr
        · obtain rfl := Except.error.inj hr
          rw [hsame]
          refine ⟨_, hall, .orphaned hstored hid hparent fun hu hne => ?_⟩
          obtain ⟨id', hid', rfl⟩ := hget hu (by decide)
          obtain rfl := resourceId_text hid'
          obtain ⟨value, rfl, hnamed⟩ := hvalue hne
          exact ⟨hne, value, e, hu, hnamed _ hparent, List.infix_rfl⟩
  · obtain rfl := Except.ok.inj hr
    obtain ⟨rfl, rfl⟩ := ends_pure.mp hrest
    rw [hsame]
    exact ⟨asked, hasked, .outside hk hid hnull⟩
  · cases hr

theorem fetchResource_refused {r : Except StripeFailure (Option Projection)} {e : StripeFailure}
    (h : Ends (fetchResource sha256 o connector kind sourceId) s r s')
    (hid : (do
      let id ← resourceId false sourceId
      if startsWith kind.idPrefix id = false then
        .error (.connector "STRIPE_ID_INVALID" true)
      else .ok id) = .error e) : r = .error e := by
  have hobject : ∀ r s', Ends (fetchObject sha256 o connector kind sourceId) s r s' →
      r = .error e := by
    intro r s' h
    rcases ends_lift_bind.mp h with ⟨id, hok, hrest⟩ | ⟨e', herr, rfl, -⟩
    · rw [hok] at hid
      change (if startsWith kind.idPrefix id = false then _ else _) = _ at hid
      split at hid
      · rename_i hp
        rw [if_pos hp] at hrest
        rw [(ends_throw.mp hrest).1, Except.error.inj hid]
      · cases hid
    · rw [herr] at hid
      rw [Except.error.inj hid]
  rcases ends_bind.mp h with ⟨found, t, hfound, -⟩ | ⟨e', hfound, rfl⟩
  · cases hobject _ _ hfound
  · rw [Except.error.inj (hobject _ _ hfound)]

theorem fetchListed_eq {r : Except StripeFailure (Option Projection)}
    (h : Ends (fetchResource sha256 o connector kind sourceId) s r s') :
    fetchListed (fun _ => r.map fun _ => ()) kind sourceId = r.map fun _ => () := by
  have hrefused := fun e => fetchResource_refused (e := e) h
  unfold fetchListed
  cases hid : idText sourceId with
  | none =>
    rw [hrefused (.connector "STRIPE_ID_INVALID" false)]
    · rfl
    · have herr : resourceId false sourceId = .error (.connector "STRIPE_ID_INVALID" false) := by
        simp [resourceId, hid]
      rw [herr]
      rfl
  | some id =>
    have hread : resourceId false sourceId =
        if objectId id then .ok id else .error (.connector "STRIPE_ID_INVALID" false) := by
      simp [resourceId, hid]
    simp only [Connectors.fetchResource]
    split
    case isTrue hform =>
      rw [hrefused (.connector "STRIPE_ID_INVALID" false)]
      · rfl
      · rw [hread, hform]
        rfl
    case isFalse hform =>
      split
      case isTrue hprefix =>
        rw [hrefused (.connector "STRIPE_ID_INVALID" true)]
        · rfl
        · rw [hread, if_pos (by simpa using hform)]
          exact if_pos hprefix
      case isFalse => rfl

end Fetching

end LedgerGuard.Connectors.StripeFacts
