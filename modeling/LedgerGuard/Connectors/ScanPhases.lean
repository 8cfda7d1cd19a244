import LedgerGuard.Connectors.OrderPhase
import LedgerGuard.Core.Canonical
import LedgerGuard.Lib.Logging

/-! # The phases of a Stripe scan

A scan reads four listings of the provider page by page, one page in each attempt,
and then the orders of the linked shops batch by batch. Its row holds the phase and
the cursor in it, so a failed attempt is retried where the last commit ended.
-/

namespace LedgerGuard.Connectors.Scanning

open Ingestion Ordered Transition

abbrev Object := List (String × Json)

inductive ScanStatus
  | pending | complete | failed
  deriving DecidableEq

structure Scan where
  windowFrom : Instant
  windowThrough : Instant
  phase : ℕ := 0
  providerCursor : String := ""
  pageCount : ℕ := 0
  status : ScanStatus := .pending
  deriving DecidableEq

/-- An order of a linked shop, with its primary key. -/
structure Order where
  id : String
  projection : Projection

/-- What an attempt does on the way. -/
inductive Action
  | fetch (kind : ObjectKind) (sourceId : Json)
  /-- A reference is resolved, or found to be unavailable. -/
  | resolve (order : Order) (ref : String)
  | advance (start till : Instant)

/-- The parameters of a listing request. -/
structure Listing where
  createdFrom : ℤ
  createdThrough : ℤ
  limit : ℕ
  startingAfter : String

/-- What an attempt meets: the provider, `advance_stripe_coverage` and the database. -/
structure Circumstances where
  reader : Except StripeFailure Unit
  get : String → Listing → Except StripeFailure Object
  provider : String → Except StripeFailure Unit
  advance : Except StripeFailure Unit
  save : Except StripeFailure Unit

abbrev Attempt := Logged StripeFailure Action

/-- The listed resources; the objects of an event are of several kinds. -/
def phases : List (String × Option ObjectKind) :=
  [("events", none), ("payment_intents", some .paymentIntent), ("refunds", some .refund),
    ("checkout/sessions", some .checkoutSession)]

/-- `value.get(key, default)`. -/
def getKey (key : String) (default : Json) : Json → Except StripeFailure Json
  | .obj fields => .ok ((fields.lookup key).getD default)
  | _ => .error .other

/-- `value[key]`. -/
def item (key : String) : Json → Except StripeFailure Json
  | .obj fields => (fields.lookup key).elim (.error .other) .ok
  | _ => .error .other

/-- The supported kind that a value names; a list or an object cannot be looked up in a set. -/
def supportedKind : Json → Except StripeFailure (Option ObjectKind)
  | .str "payment_intent" => .ok (some .paymentIntent)
  | .str "charge" => .ok (some .charge)
  | .str "refund" => .ok (some .refund)
  | .str "checkout.session" => .ok (some .checkoutSession)
  | .arr _ | .obj _ => .error .other
  | _ => .ok none

/-- What is fetched for an element of a listing, if its kind is supported. -/
def target (kind : Option ObjectKind) (value : Json) :
    Except StripeFailure (Option (ObjectKind × Json)) := do
  match kind with
  | some kind => .ok (some (kind, ← item "id" value))
  | none =>
    let obj ← getKey "object" (.obj []) (← getKey "data" (.obj []) value)
    match ← supportedKind (← getKey "object" .null obj) with
    | some kind => .ok (some (kind, ← item "id" obj))
    | none => .ok none

/-- `_id` of an identifier or of an object with one. -/
def idText : Json → Option String
  | .str s => some s
  | .obj fields =>
    match fields.lookup "id" with
    | some (.str s) => some s
    | _ => none
  | _ => none

/-- `fetch_resource` of an identifier as it stands in a listing. -/
def fetchListed (provider : String → Except StripeFailure Unit) (kind : ObjectKind) (sourceId : Json) :
    Except StripeFailure Unit :=
  match idText sourceId with
  | some s => fetchResource provider kind s
  | none => .error (.connector "STRIPE_ID_INVALID" false)

def fetchElement (o : Circumstances) (kind : Option ObjectKind) (value : Json) : Attempt Unit := do
  match ← Logged.lift (target kind value) with
  | some (kind, sourceId) =>
    Logged.tell (.fetch kind sourceId)
    Logged.lift (fetchListed o.provider kind sourceId)
  | none => pure ()

/-- The cursor after an element; the identifiers of a listing are strings. -/
def cursorText (value : Json) : Except StripeFailure String := do
  match ← item "id" value with
  | .str s => .ok s
  | _ => .error .other

def Scan.listing (scan : Scan) : Listing where
  createdFrom := scan.windowFrom.tdiv 1000000
  createdThrough := scan.windowThrough.tdiv 1000000
  limit := 100
  startingAfter := scan.providerCursor

/-- The cursor moves behind the last row, or the next phase begins. -/
def Scan.behind (scan : Scan) (rows : List Json) (hasMore : Bool) : Except StripeFailure Scan :=
  if hasMore then
    match rows.getLast? with
    | none => .error (.connector "STRIPE_PAGINATION_STALLED" false)
    | some last => do
      let cursor ← cursorText last
      if cursor = scan.providerCursor then .error (.connector "STRIPE_PAGINATION_STALLED" false)
      else .ok { scan with providerCursor := cursor }
  else .ok { scan with phase := scan.phase + 1, providerCursor := "" }

def listingPhase (o : Circumstances) (path : String) (kind : Option ObjectKind) (scan : Scan) :
    Attempt Scan := do
  let page ← Logged.lift (o.get ("/v1/" ++ path) scan.listing)
  match page.lookup "data", page.lookup "has_more" with
  | some (.arr rows), some (.bool hasMore) =>
    Logged.each (fetchElement o kind) rows
    Logged.lift (scan.behind rows hasMore)
  | _, _ => Logged.raise (.connector "STRIPE_PAGINATION_INVALID" false)

def resolveOrder (o : Circumstances) (order : Order) : Attempt Unit :=
  Logged.each (fun ref => do
    Logged.lift (resolveReference o.provider ref)
    Logged.tell (.resolve order ref)) (references order.projection)

/-- The next orders behind the cursor. -/
def Scan.batch (scan : Scan) (orders : List Order) : List Order :=
  (sortBy (·.id) (if scan.providerCursor = "" then orders
    else orders.filter fun order => scan.providerCursor < order.id)).take 25

def ordersPhase (o : Circumstances) (scan : Scan) (orders : List Order) : Attempt Scan := do
  Logged.each (resolveOrder o) (scan.batch orders)
  match (scan.batch orders).getLast? with
  | some last => pure { scan with providerCursor := last.id }
  | none =>
    Logged.tell (.advance scan.windowFrom scan.windowThrough)
    Logged.lift o.advance
    pure { scan with status := .complete }

def finish (o : Circumstances) (scan : Scan) : Attempt Scan := do
  if 10000 < scan.pageCount + 1 then
    Logged.raise (.connector "STRIPE_SCAN_LIMIT_EXCEEDED" false)
  else
    Logged.lift o.save
    pure { scan with pageCount := scan.pageCount + 1 }

def readPage (o : Circumstances) (scan : Scan) (orders : List Order) : Attempt Scan :=
  match phases[scan.phase]? with
  | some (path, kind) => listingPhase o path kind scan
  | none => ordersPhase o scan orders

/-- `scan_page`, with the orders of the linked shops as the attempt finds them. -/
def scanPage (o : Circumstances) (scan : Scan) (orders : List Order) : Attempt Scan :=
  if scan.status ≠ .pending then pure scan
  else do
    Logged.lift o.reader
    finish o (← readPage o scan orders)

variable {o : Circumstances} {scan scan' : Scan} {orders : List Order} {kind : Option ObjectKind}
  {value : Json} {path : String} {rows : List Json} {hasMore : Bool} {start till : Instant}

theorem resolveOrders_outcome (batch : List Order) :
    (Logged.each (resolveOrder o) batch).outcome =
      orderPhase o.provider (batch.map Order.projection) := by
  have hstep : ∀ order ref, ((do
      Logged.lift (resolveReference o.provider ref)
      Logged.tell (.resolve order ref)) : Attempt Unit).outcome =
        resolveReference o.provider ref := by
    intro order ref
    rw [Logged.outcome_bind]
    change (resolveReference o.provider ref).bind (fun _ => .ok ()) = _
    cases resolveReference o.provider ref <;> rfl
  rw [Logged.outcome_each, orderPhase]
  induction batch with
  | nil => rfl
  | cons order batch ih =>
    rw [List.map_cons, List.forM, List.forM, ih, resolveOrder, Logged.outcome_each]
    simp only [hstep]

end LedgerGuard.Connectors.Scanning
