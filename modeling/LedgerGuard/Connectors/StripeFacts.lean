import LedgerGuard.Connectors.ScanPhases
import LedgerGuard.Connectors.VerifyStripe
import LedgerGuard.Core.MoneyText
import LedgerGuard.Lib.Effects

/-! # Facts of a Stripe account

`fetch_resource` asks the provider for one object, checks that it is the one asked for
and stores it; an object that belongs to a payment brings the payment with it. The
answers of the provider are any JSON objects. What was stored stays in the transaction
when a later request fails, and the caller says what becomes of it.
-/

namespace LedgerGuard.Connectors.StripeFacts

open Effects Ingestion Scanning

/-- `value.get(key)`. -/
def field (key : String) (value : Object) : Json := (value.lookup key).getD .null

def falsy : Json → Bool
  | .null => true
  | .bool b => !b
  | .int n => n = 0
  | .str s => s = ""
  | .arr elems => elems.isEmpty
  | .obj fields => fields.isEmpty

/-- The Boolean that a value is equal to, as zero and one are to theirs. -/
def truth : Json → Option Bool
  | .bool b => some b
  | .int n => if n = 0 then some false else if n = 1 then some true else none
  | _ => none

/-- `_id`, of a value that has to be there or can be null. -/
def resourceId (optional : Bool) (value : Json) : Except StripeFailure String :=
  match value, optional with
  | .null, true => .ok ""
  | value, _ =>
    match idText value with
    | some s => if objectId s then .ok s else .error (.connector "STRIPE_ID_INVALID" false)
    | none => .error (.connector "STRIPE_ID_INVALID" false)

/-- The value of a digit of `int(_, 16)`; its decimal digits are those of Unicode. -/
def hexValue (c : Char) : Option ℕ :=
  if 'a' ≤ c ∧ c ≤ 'f' then some (c.toNat - 87)
  else if 'A' ≤ c ∧ c ≤ 'F' then some (c.toNat - 55)
  else VerifyStripe.decimalValue c.toNat

def hexDigits : List Char → Option (List ℕ)
  | [] => none
  | c :: cs =>
    match hexValue c with
    | none => none
    | some d =>
      match cs with
      | [] => some [d]
      | u :: cs =>
        if u = '_' then (hexDigits cs).map (d :: ·) else (hexDigits (u :: cs)).map (d :: ·)

def trim (p : Char → Bool) (cs : List Char) : List Char :=
  ((cs.dropWhile p).reverse.dropWhile p).reverse

/-- `int(_, 16)` of a text without a minus sign. -/
def parseHex (cs : List Char) : Option ℕ :=
  let cs := trim (fun c => VerifyStripe.isIntSpace c.toNat) cs
  let cs := if cs.head? = some '+' then cs.tail else cs
  let digits :=
    match cs with
    | zero :: x :: cs =>
      if hexValue zero = some 0 ∧ (x = 'x' ∨ x = 'X') then
        if cs.head? = some '_' then cs.tail else cs
      else zero :: x :: cs
    | cs => cs
  (hexDigits digits).map fun ds => ds.foldl (fun n d => n * 16 + d) 0

/-- `str(UUID(hint))`. -/
def uuidText (hint : String) : Option String :=
  let cs := replaceText "uuid:".toList [] (replaceText "urn:".toList [] hint.toList 0) 0
  let cs := (trim (fun c => c = '{' || c = '}') cs).filter (· ≠ '-')
  if cs.length ≠ 32 then none
  else
    (parseHex cs).map fun n =>
      let ds := Nat.toDigits 16 n
      let ds := List.replicate (32 - ds.length) '0' ++ ds
      String.ofList (ds.take 8 ++ '-' :: (ds.drop 8).take 4 ++ '-' :: (ds.drop 12).take 4 ++
        '-' :: (ds.drop 16).take 4 ++ '-' :: ds.drop 20)

def orderHint (metadata : Object) : String :=
  match metadata.lookup "order_id" with
  | some (.str s) => if numericPattern s.toList && s.toList.length ≤ 20 then s else ""
  | _ => ""

/-- The store that the metadata names; only a text can be read as a UUID. -/
def storeHint (metadata : Object) : Except StripeFailure String :=
  match (metadata.lookup "ledgerguard_store_id").getD (.str "") with
  | .str s => .ok (if s = "" then "" else (uuidText s).getD "")
  | value => if falsy value then .ok "" else .error .other

/-- `value.get("metadata") or {}`. -/
def metadataOf (value : Object) : Except StripeFailure Object :=
  match field "metadata" value with
  | .obj fields => .ok fields
  | metadata => if falsy metadata then .ok [] else .error .other

def methodText (s : String) : Bool :=
  s.toList.all (fun c => ('a' ≤ c && c ≤ 'z') || c = '_') && 1 ≤ s.toList.length &&
    s.toList.length ≤ 64

def methodOf (value : Object) : Except StripeFailure String :=
  let known := fun s => if methodText s then s else "unknown"
  match field "payment_method_types" value with
  | .arr [.str s] => .ok (known s)
  | .arr [_] => .error .other
  | .arr _ => .ok "unknown"
  | .str s => .ok (if s.length = 1 then known s else "unknown")
  | .obj [_] => .error .other
  | .obj _ => .ok "unknown"
  | types => if falsy types then .ok "unknown" else .error .other

/-- `STATUSES`, by the kind of object; a charge has those that `normalize` gives it. -/
def statuses : ObjectKind → List String
  | .paymentIntent => ["requires_payment_method", "requires_confirmation", "requires_action",
      "processing", "requires_capture", "canceled", "succeeded"]
  | .refund => ["pending", "requires_action", "succeeded", "failed", "canceled"]
  | .checkoutSession => ["paid", "unpaid", "no_payment_required"]
  | .charge => ["captured", "uncaptured"]

def statusOf (kind : ObjectKind) (value : Object) : Except StripeFailure String :=
  match kind with
  | .charge => .ok (match field "captured" value with
      | .bool true => "captured"
      | _ => "uncaptured")
  | kind =>
    match field (if kind = .checkoutSession then "payment_status" else "status") value with
    | .str s =>
      if s ∈ statuses kind then .ok s else .error (.connector "STRIPE_STATUS_UNSUPPORTED" false)
    | .arr _ | .obj _ => .error .other
    | _ => .error (.connector "STRIPE_STATUS_UNSUPPORTED" false)

def checkMode (mode : Mode) (value : Object) : Except StripeFailure Unit :=
  if truth (field "livemode" value) = some (decide (mode = .live)) then .ok ()
  else .error (.connector "STRIPE_MODE_CONFLICT" true)

/-- `value.get("currency", "")`, of which only a text has an upper case. -/
def currencyOf (value : Object) : Except StripeFailure String :=
  match value.lookup "currency" with
  | none => .ok ""
  | some (.str s) => .ok s
  | some _ => .error .other

def amountOf (key currency : String) (value : Object) : Except StripeFailure Money := do
  match parseStripe (← item key (.obj value)) currency with
  | .ok money => .ok money
  | .error _ => .error .other

def createdOf (value : Object) : Except StripeFailure ℕ :=
  match field "created" value with
  | .int (.ofNat n) => .ok n
  | _ => .error (.connector "STRIPE_TIMESTAMP_INVALID" false)

/-- `utc(datetime.fromtimestamp(created, UTC))`. -/
def createdText (created : ℕ) : Except StripeFailure String :=
  let t : Instant := created * 1000000
  if t ≤ datetimeMax then .ok (utc t) else .error .other

/-- The capture method of a payment, which the provider gives as text. -/
def captureMethodOf (value : Object) : Except StripeFailure String :=
  match value.lookup "capture_method" with
  | none => .ok "automatic"
  | some (.str s) => .ok s
  | some _ => .error .other

/-- The charge of a refund; no other object is stored with one. -/
def chargeOf (kind : ObjectKind) (value : Object) : Except StripeFailure String :=
  if kind = .refund then resourceId true (field "charge" value) else .ok ""

def detail (kind : ObjectKind) (value : Object) (data : SourceData) :
    Except StripeFailure SourceData := do
  match kind with
  | .paymentIntent =>
    let metadata ← metadataOf value
    let hint ← storeHint metadata
    let method ← methodOf value
    let received ← amountOf "amount_received" data.currency value
    let capturable ← amountOf "amount_capturable" data.currency value
    let chargeId ← resourceId true (field "latest_charge" value)
    .ok { data with
      receivedMinor := some received.minor
      capturableMinor := some capturable.minor
      chargeId := some chargeId
      method := some method
      captureMethod := some (← captureMethodOf value)
      orderHint := some (orderHint metadata)
      storeHint := some hint }
  | .charge =>
    let parentId ← resourceId true (field "payment_intent" value)
    let refunded ← amountOf "amount_refunded" data.currency value
    .ok { data with parentId := some parentId, refundedMinor := some refunded.minor }
  | kind =>
    let parentId ← resourceId true (field "payment_intent" value)
    let chargeId ← chargeOf kind value
    .ok { data with parentId := some parentId, chargeId := some chargeId }

def normalize (mode : Mode) (kind : ObjectKind) (value : Object) :
    Except StripeFailure (String × SourceData) := do
  let sourceId ← resourceId false (field "id" value)
  checkMode mode value
  let key := if kind = .checkoutSession then "amount_total" else "amount"
  let amount ← amountOf key (← currencyOf value) value
  let created ← createdOf value
  let status ← statusOf kind value
  let createdAtSource ← createdText created
  let data ← detail kind value
    { status, amountMinor := amount.minor, currency := amount.currency,
      exponent := amount.exponent, createdAtSource }
  .ok (sourceId, data)

def storedKind : ObjectKind → Kind
  | .paymentIntent => .payment
  | .charge => .charge
  | .refund => .stripeRefund
  | .checkoutSession => .session

def resourcePath (kind : ObjectKind) (id : String) : String := "/v1/" ++ kind.path ++ "/" ++ id

def objectName : ObjectKind → String
  | .paymentIntent => "payment_intent"
  | .charge => "charge"
  | .refund => "refund"
  | .checkoutSession => "checkout.session"

inductive WebhookStatus
  | pending | normalized | ignored | failed
  deriving DecidableEq

/-- A webhook event; its kind is one of the four that are fetched, or unsupported. -/
structure WebhookReceipt where
  id : String
  kind : Option ObjectKind
  sourceId : String
  status : WebhookStatus := .pending

def isUnavailable : StripeFailure → Bool
  | .connector code _ => code = "STRIPE_RESOURCE_UNAVAILABLE"
  | .other => false

/-- The provider and the clock, by the number of requests before; `reader` finds the connector
active and its token current. -/
structure Provider where
  reader : Except StripeFailure Unit := .ok ()
  get : ℕ → String → Except StripeFailure Object
  now : ℕ → Instant

/-- A request and its answer. -/
abbrev Exchange := String × Except StripeFailure Object

/-- A transaction with the requests that it has sent. -/
structure Session where
  asked : List Exchange := []
  facts : Ingestion.Facts

abbrev Fetch := Program Session StripeFailure

def checkIdentity (kind : ObjectKind) (expected : String) (value : Object) :
    Except StripeFailure Unit := do
  let sourceId ← resourceId false (field "id" value)
  match field "object" value with
  | .str name =>
    if sourceId = expected ∧ name = objectName kind then .ok ()
    else .error (.connector "STRIPE_IDENTITY_CONFLICT" true)
  | _ => .error (.connector "STRIPE_IDENTITY_CONFLICT" true)

def outsideContract (kind : ObjectKind) (value : Object) : Bool :=
  kind = .checkoutSession && match field "payment_intent" value with
    | .null => true
    | _ => false

section Fetching

variable (sha256 : String → String) (o : Provider) (connector : Installation)

/-- `StripeReader.get`, which sends one request. -/
def ask (path : String) : Fetch Object := do
  let s ← get
  let answer := o.get s.asked.length path
  set { s with asked := s.asked ++ [(path, answer)] }
  liftExcept answer

/-- `upsert`. What it has written before it raises is gone with the transaction of the work. -/
def store (kind : ObjectKind) (sourceId : String) (data : SourceData) :
    Fetch (Option Projection) := do
  let s ← get
  match upsert sha256 connector (storedKind kind) sourceId (o.now s.asked.length) data s.facts with
  | .ok (facts, _) =>
    set { s with facts }
    pure (facts.projections.get (storedKind kind, sourceId))
  | .error _ => throw .other

/-- A refund that names no payment belongs to that of its charge. -/
def parented (kind : ObjectKind) (data : SourceData) : Fetch SourceData :=
  if kind = .refund ∧ data.parentId = some "" ∧ data.chargeId ≠ some "" then do
    let charge ← ask o (resourcePath .charge (data.chargeId.getD ""))
    let parentId ← liftExcept (resourceId true (field "payment_intent" charge))
    pure { data with parentId := some parentId }
  else pure data

/-- `fetch_resource`, before it goes on to the payment that the object belongs to: the data and
the row of an object, unless it is outside the contract. -/
def fetchObject (kind : ObjectKind) (sourceId : Json) :
    Fetch (Option (SourceData × Option Projection)) := do
  let expected ← liftExcept (resourceId false sourceId)
  if startsWith kind.idPrefix expected = false then
    throw (.connector "STRIPE_ID_INVALID" true)
  else
    let value ← ask o (resourcePath kind expected)
    liftExcept (checkIdentity kind expected value)
    liftExcept (checkMode connector.mode value)
    if outsideContract kind value then pure none
    else
      let (id, data) ← liftExcept (normalize connector.mode kind value)
      let data ← parented o kind data
      if data.parentId = some "" then pure none
      else
        let row ← store sha256 o connector kind id data
        pure (some (data, row))

/-- `fetch_resource`. A payment has no parent, so the recursion ends with it. -/
def fetchResource (kind : ObjectKind) (sourceId : Json) : Fetch (Option Projection) := do
  match ← fetchObject sha256 o connector kind sourceId with
  | none => pure none
  | some (data, row) =>
    match data.parentId with
    | none => pure row
    | some parentId =>
      let _ ← fetchObject sha256 o connector .paymentIntent (.str parentId)
      pure row

def fetchListing (kind : Option ObjectKind) (rows : List Json) : Fetch Unit :=
  rows.forM fun value => do
    match ← liftExcept (target kind value) with
    | some (kind, sourceId) =>
      let _ ← fetchResource sha256 o connector kind sourceId
    | none => pure ()

/-- What a reference leads to is stored, or the provider does not have it. -/
def lookUp (ref : String) : Fetch Unit :=
  tryCatch (do let _ ← fetchResource sha256 o connector (referenceKind ref) (.str ref))
    fun e => if isUnavailable e then pure () else throw e

def lookUpOrders (batch : List Projection) : Fetch Unit :=
  batch.forM fun order => (references order).forM (lookUp sha256 o connector)

/-- `process_receipt`. -/
def processReceipt (receipt : WebhookReceipt) : Fetch WebhookReceipt :=
  if receipt.status = .normalized ∨ receipt.status = .ignored then pure receipt
  else do
    liftExcept o.reader
    match receipt.kind with
    | none => throw .other
    | some kind =>
      let _ ← fetchResource sha256 o connector kind (.str receipt.sourceId)
      pure { receipt with status := .normalized }

end Fetching

end LedgerGuard.Connectors.StripeFacts
