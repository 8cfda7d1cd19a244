import LedgerGuard.Ingestion.Projections

/-! # Scans and coverage

`accept_woo_batch` takes one page of a scan of a Woo connector: it stores the
page's records one by one, keeps the position of the scan in a cursor and
advances the covered range when a clean scan ends. `advance_stripe_coverage`
does the last for the scans of a Stripe connector.
-/

namespace LedgerGuard.Ingestion

structure StripeIds where
  paymentIntent : Option String := none
  charge : Option String := none
  checkoutSession : Option String := none
  deriving DecidableEq

structure OrderRecord where
  sourceId : String
  revision : String
  createdAt : String
  status : String
  amount : String
  totalRefunded : String
  currency : String
  paymentMethod : String
  transactionId : String
  stripeIds : StripeIds := {}
  paidAt : Option String := none
  /-- Optional in the schema, where it can also be null. -/
  completedAt : Option (Option String) := none
  orderNumber : Option String := none
  refundIds : List String := []
  deriving DecidableEq

structure RefundRecord where
  sourceId : String
  parentId : String
  revision : String
  createdAt : String
  amount : String
  currency : String
  status : String := "recorded"
  deriving DecidableEq

inductive WooRecord
  | order (r : OrderRecord)
  | refund (r : RefundRecord)
  deriving DecidableEq

namespace WooRecord

def sourceId : WooRecord → String
  | order r => r.sourceId
  | refund r => r.sourceId

def revision : WooRecord → String
  | order r => r.revision
  | refund r => r.revision

/-- The kind of projection that the record is stored as. -/
def kind : WooRecord → Kind
  | order _ => .order
  | refund _ => .wooRefund

def toJson : WooRecord → Json
  | order r => .obj ([("kind", .str "order"), ("source_id", .str r.sourceId),
      ("revision", .str r.revision), ("created_at", .str r.createdAt), ("status", .str r.status),
      ("amount", .str r.amount), ("total_refunded", .str r.totalRefunded),
      ("currency", .str r.currency), ("payment_method", .str r.paymentMethod),
      ("transaction_id", .str r.transactionId),
      ("stripe_ids", .obj (member "payment_intent" .str r.stripeIds.paymentIntent ++
        member "charge" .str r.stripeIds.charge ++
        member "checkout_session" .str r.stripeIds.checkoutSession)),
      ("paid_at", r.paidAt.elim .null .str)] ++
    member "completed_at" (fun t : Option String => t.elim .null .str) r.completedAt ++
    member "order_number" .str r.orderNumber ++
    [("refund_ids", .strings r.refundIds)])
  | refund r => .obj [("kind", .str "refund"), ("source_id", .str r.sourceId),
      ("parent_id", .str r.parentId), ("revision", .str r.revision),
      ("created_at", .str r.createdAt), ("amount", .str r.amount), ("currency", .str r.currency),
      ("status", .str r.status)]

end WooRecord

structure Envelope where
  requestId : String
  installationId : String
  sentAt : String
  coveredFrom : String
  coveredThrough : String
  scanId : String
  page : ℕ
  finalPage : Bool
  records : List WooRecord
  deriving DecidableEq

def Envelope.content (e : Envelope) : Json :=
  .obj [("schema_version", .str "1.0"), ("installation_id", .str e.installationId),
    ("covered_from", .str e.coveredFrom), ("covered_through", .str e.coveredThrough),
    ("scan_id", .str e.scanId), ("page", .int e.page), ("final_page", .bool e.finalPage),
    ("records", .arr (e.records.map WooRecord.toJson))]

def normalizeWoo : WooRecord → Except String SourceData
  | .order r => do
    let money ← parseWoo r.amount r.currency
    let refunded ← parseWoo r.totalRefunded r.currency
    return {
      status := r.status
      amountMinor := money.minor
      currency := money.currency
      exponent := money.exponent
      createdAtSource := r.createdAt
      refundedMinor := some refunded.minor
      method := some r.paymentMethod
      transactionId := some r.transactionId
      piId := some (r.stripeIds.paymentIntent.getD "")
      chargeId := some (r.stripeIds.charge.getD "")
      sessionId := some (r.stripeIds.checkoutSession.getD "")
      paidAt := some r.paidAt
      refundIds := some r.refundIds }
  | .refund r => do
    let money ← parseWoo r.amount r.currency
    return {
      status := r.status
      amountMinor := money.minor
      currency := money.currency
      exponent := money.exponent
      createdAtSource := r.createdAt
      parentId := some r.parentId }

inductive ObjectClass
  | wooOrders | wooRefunds | stripePayments | stripeRefunds
  deriving DecidableEq, Repr

def ObjectClass.render : ObjectClass → String
  | .wooOrders => "woo_orders"
  | .wooRefunds => "woo_refunds"
  | .stripePayments => "stripe_payments"
  | .stripeRefunds => "stripe_refunds"

structure Cursor where
  objectClass : ObjectClass
  coveredFrom : Option Instant := none
  coveredThrough : Option Instant := none
  observedAt : Option Instant := none
  complete : Bool := false
  scanId : Option String := none
  scanFrom : Option Instant := none
  scanThrough : Option Instant := none
  nextPage : ℕ := 1
  scanFailed : Bool := false
  updatedAt : Instant
  lockVersion : ℕ := 0
  deriving DecidableEq

inductive RecordStatus
  | stored (disposition : Disposition)
  | rejected
  deriving DecidableEq, Repr

structure RecordResult where
  sourceId : String
  kind : Kind
  status : RecordStatus
  code : Option String := none
  deriving DecidableEq

structure BatchResult where
  requestId : String
  results : List RecordResult
  coverageAdvanced : Bool
  serverTime : Instant
  deriving DecidableEq

structure BatchPage where
  scanId : String
  page : ℕ
  contentHash : String
  result : BatchResult
  deriving DecidableEq

def BatchPage.key (p : BatchPage) : String × ℕ := (p.scanId, p.page)

/-- A `reconcile_store` intent in the outbox. -/
structure Intent where
  dedupeKey : String
  storeId : String
  deriving DecidableEq

structure Db where
  lastErrorCode : String := ""
  facts : Facts := {}
  cursors : Table Cursor.objectClass := .empty
  pages : Table BatchPage.key := .empty
  intents : Table Intent.dedupeKey := .empty

def Db.invalidate (db : Db) (c : ObjectClass) : Db :=
  match db.cursors.get c with
  | some cursor => { db with cursors := db.cursors.put { cursor with complete := false } }
  | none => db

/-- `reconcile_later` for a connector with a store of its own. -/
def Db.reconcileLater (db : Db) (connector : Installation) (reason : String) : Db :=
  match connector.storeId with
  | none => db
  | some store =>
    let intent : Intent := ⟨"reconcile:" ++ store ++ ":" ++ reason, store⟩
    if (db.intents.get intent.dedupeKey).isSome then db
    else { db with intents := db.intents.put intent }

section

variable (sha256 : String → String) (connector : Installation) (now : Instant)

def pageHash (e : Envelope) : String := sha256 (canonical e.content)

def storeRecord (r : WooRecord) (facts : Facts) : Except Refusal (Facts × Disposition) :=
  match timestamp r.revision with
  | none => .error (.valueError "UTC timestamp required")
  | some revision =>
    if now + seconds 120 < revision then .error (.valueError "Future revision")
    else match normalizeWoo r with
      | .error message => .error (.valueError message)
      | .ok data => upsert sha256 connector r.kind r.sourceId revision data facts

/-- What the loop over the records of a page leaves: the facts, the result of each record, and
whether one was refused as a conflict. -/
structure Stored where
  facts : Facts
  results : List RecordResult
  conflict : Bool

def Stored.rejected (s : Stored) : Bool := s.results.any (·.status = .rejected)

def storeRecords : List WooRecord → Facts → Stored
  | [], facts => ⟨facts, [], false⟩
  | r :: rs, facts =>
    match storeRecord sha256 connector now r facts with
    | .ok (facts, disposition) =>
      let rest := storeRecords rs facts
      { rest with
        results := ⟨r.sourceId, r.kind, .stored disposition, none⟩ :: rest.results }
    | .error refusal =>
      let rest := storeRecords rs facts
      { rest with
        results :=
          ⟨r.sourceId, r.kind, .rejected, some "INVALID_SOURCE_FACT"⟩ :: rest.results
        conflict := refusal = sourceRevisionConflict || rest.conflict }

def windowDays : ℤ := 36

/-- The window of a scan, which may reach back a bounded time and no more than a clock skew
ahead. -/
def window (e : Envelope) : Except Refusal (Instant × Instant) :=
  match timestamp e.coveredFrom, timestamp e.coveredThrough with
  | some start, some till =>
    if now - minutes (windowDays * 24 * 60) ≤ start ∧ start ≤ till ∧ till ≤ now + seconds 120 then
      .ok (start, till)
    else .error (.problem "INVALID_COVERAGE_WINDOW" 422)
  | _, _ => .error (.valueError "UTC timestamp required")

def sequenceConflict : Refusal := .problem "SCAN_SEQUENCE_CONFLICT" 409

/-- A cursor that still belongs to a scan that is neither failed nor abandoned. -/
def Cursor.busy (cursor : Cursor) : Bool :=
  cursor.scanId.isSome && !cursor.scanFailed && cursor.scanThrough.isSome &&
    now - minutes 30 < cursor.updatedAt

/-- The cursor at the start of a scan. -/
def Cursor.start (cursor : Cursor) (scanId : String) (start till : Instant) : Cursor :=
  { cursor with
    scanId := some scanId, scanFrom := some start, scanThrough := some till, nextPage := 1,
    scanFailed := false, complete := false }

/-- The cursor of the orders, at the place of the page: in its current scan, or at the start of
another one. -/
def Cursor.forPage (cursor : Cursor) (e : Envelope) (start till : Instant) :
    Except Refusal Cursor :=
  if cursor.scanId ≠ some e.scanId ∧ (e.page ≠ 1 ∨ cursor.busy now) then .error sequenceConflict
  else
    let cursor := if cursor.scanId = some e.scanId then cursor
      else cursor.start e.scanId start till
    if cursor.nextPage ≠ e.page ∨ cursor.scanFrom ≠ some start ∨ cursor.scanThrough ≠ some till then
      .error sequenceConflict
    else .ok cursor

def Cursor.extend (cursor : Cursor) (start till : Instant) : Cursor :=
  { cursor with
    coveredFrom := some (min (cursor.coveredFrom.getD start) start)
    coveredThrough := some (max (cursor.coveredThrough.getD till) till)
    observedAt := some now
    complete := true }

def Cursor.contiguous (cursor : Cursor) (start : Instant) : Bool :=
  cursor.coveredThrough.all (start ≤ ·)

/-- A cursor as it is, or as it would be created. -/
def Db.cursor (db : Db) (c : ObjectClass) : Cursor :=
  (db.cursors.get c).getD { objectClass := c, updatedAt := now }

def Cursor.afterRecords (cursor : Cursor) (rejected : Bool) : Cursor :=
  { cursor with
    scanFailed := cursor.scanFailed || rejected
    nextPage := cursor.nextPage + 1
    updatedAt := now }

def Cursor.endScan (cursor : Cursor) (start till : Instant) : Cursor :=
  let cursor :=
    if ¬ cursor.scanFailed ∧ cursor.contiguous start then cursor.extend now start till
    else if cursor.scanFailed then { cursor with complete := false }
    else cursor
  { cursor with scanId := none, scanThrough := none }

/-- The refunds follow the orders: their cursor takes over the covered range of a clean scan. -/
def Db.endScan (db : Db) (cursor : Cursor) (start till : Instant) : Db :=
  if ¬ cursor.scanFailed ∧ cursor.contiguous start then
    let orders := cursor.extend now start till
    let refunds := { db.cursor now .wooRefunds with
      coveredFrom := orders.coveredFrom
      coveredThrough := orders.coveredThrough
      observedAt := some now
      complete := true }
    { db with cursors := db.cursors.put refunds }
  else if cursor.scanFailed then db.invalidate .wooRefunds
  else db

/-- Store the records of a page that has its place in a scan, and move the cursor. -/
def acceptPage (e : Envelope) (start till : Instant) (cursor : Cursor) (db : Db) :
    Db × BatchResult :=
  let stored := storeRecords sha256 connector now e.records db.facts
  let db := if (db.cursor now .wooOrders).scanId = some e.scanId then db
    else db.invalidate .wooRefunds
  let cursor := cursor.afterRecords now stored.rejected
  let result : BatchResult :=
    { requestId := e.requestId
      results := stored.results
      coverageAdvanced := e.finalPage && !cursor.scanFailed && cursor.contiguous start
      serverTime := now }
  let db := if e.finalPage then db.endScan now cursor start till else db
  let cursor := if e.finalPage then cursor.endScan now start till else cursor
  ({ db.reconcileLater connector e.requestId with
    lastErrorCode := if stored.conflict then "SOURCE_REVISION_CONFLICT" else db.lastErrorCode
    facts := stored.facts
    cursors := db.cursors.put cursor
    pages := db.pages.put ⟨e.scanId, e.page, pageHash sha256 e, result⟩ }, result)

/-- Accept one page. A page that was accepted before is answered with its stored result. -/
def acceptWooBatch (e : Envelope) (db : Db) : Except Refusal (Db × BatchResult) :=
  match db.pages.get (e.scanId, e.page) with
  | some prior =>
    if prior.contentHash = pageHash sha256 e then
      .ok (db, { prior.result with requestId := e.requestId, serverTime := now })
    else .error (.problem "SCAN_PAGE_CONTENT_CONFLICT" 409)
  | none => do
    let (start, till) ← window now e
    let cursor ← (db.cursor now .wooOrders).forPage now e start till
    return acceptPage sha256 connector now e start till cursor db

/-- The cursor of one of the two Stripe classes after a finished scan. -/
def advanceStripeCursor (start till : Instant) (db : Db) (c : ObjectClass) : Except Refusal Db :=
  let cursor := db.cursor now c
  if cursor.contiguous start then
    let cursor := { cursor.extend now start till with lockVersion := cursor.lockVersion + 1 }
    .ok { db with cursors := db.cursors.put cursor }
  else .error (.problem "COVERAGE_GAP" 409)

def advanceStripeCoverage (start till : Instant) (db : Db) : Except Refusal Db := do
  let db ← advanceStripeCursor now start till db .stripePayments
  advanceStripeCursor now start till db .stripeRefunds

end

section

variable {sha256 : String → String} {connector : Installation} {now : Instant} {e : Envelope}
  {db db' : Db} {result : BatchResult} {cursor c : Cursor} {start till : Instant}
  {k k' : ObjectClass}

/-- A page that is new and has its place in a scan: its window and the cursor at its place. -/
structure Db.Admits (db : Db) (now : Instant) (e : Envelope) (start till : Instant)
    (cursor : Cursor) : Prop where
  new : db.pages.get (e.scanId, e.page) = none
  window : window now e = .ok (start, till)
  place : (db.cursor now .wooOrders).forPage now e start till = .ok cursor

theorem acceptWooBatch_ok (h : acceptWooBatch sha256 connector now e db = .ok (db', result)) :
    (∃ prior, db.pages.get (e.scanId, e.page) = some prior ∧
      prior.contentHash = pageHash sha256 e ∧ db' = db ∧
      result = { prior.result with requestId := e.requestId, serverTime := now }) ∨
    ∃ start till cursor, db.Admits now e start till cursor ∧
      (db', result) = acceptPage sha256 connector now e start till cursor db := by
  unfold acceptWooBatch at h
  cases hp : db.pages.get (e.scanId, e.page) with
  | some prior =>
    rw [hp] at h
    dsimp only at h
    split at h
    · obtain ⟨rfl, rfl⟩ := Prod.mk.inj (Except.ok.inj h)
      exact Or.inl ⟨prior, rfl, ‹_›, rfl, rfl⟩
    · cases h
  | none =>
    rw [hp] at h
    dsimp only at h
    cases hw : window now e with
    | error r =>
      rw [hw] at h
      cases h
    | ok w =>
      obtain ⟨start, till⟩ := w
      cases hc : (db.cursor now .wooOrders).forPage now e start till with
      | error r =>
        simp only [hw, hc, bind, Except.bind] at h
        cases h
      | ok cursor =>
        simp only [hw, hc, bind, Except.bind] at h
        exact Or.inr ⟨start, till, cursor, ⟨hp, hw, hc⟩, (Except.ok.inj h).symm⟩

theorem acceptWooBatch_of_admits (h : db.Admits now e start till cursor) :
    acceptWooBatch sha256 connector now e db =
      .ok (acceptPage sha256 connector now e start till cursor db) := by
  unfold acceptWooBatch
  rw [h.new]
  simp only [h.window, h.place, bind, Except.bind]
  rfl

theorem window_le (h : window now e = .ok (start, till)) : start ≤ till := by
  unfold window at h
  split at h
  · split at h
    · rename_i hw
      obtain ⟨rfl, rfl⟩ := Prod.mk.inj (Except.ok.inj h)
      exact hw.2.1
    · cases h
  · cases h

theorem window_timestamps (h : window now e = .ok (start, till)) :
    timestamp e.coveredFrom = some start ∧ timestamp e.coveredThrough = some till := by
  unfold window at h
  split at h
  · rename_i hf ht
    split at h
    · obtain ⟨rfl, rfl⟩ := Prod.mk.inj (Except.ok.inj h)
      exact ⟨hf, ht⟩
    · cases h
  · cases h

theorem forPage_ok (h : cursor.forPage now e start till = .ok c) :
    ((cursor.scanId = some e.scanId ∧ c = cursor) ∨
      (cursor.scanId ≠ some e.scanId ∧ e.page = 1 ∧ c = cursor.start e.scanId start till)) ∧
    c.nextPage = e.page := by
  unfold Cursor.forPage at h
  by_cases hs : cursor.scanId = some e.scanId
  · simp only [ne_eq, hs, not_true_eq_false, false_and, if_false, if_true] at h
    split at h
    · cases h
    · rename_i hp
      obtain rfl := Except.ok.inj h
      exact ⟨Or.inl ⟨hs, rfl⟩, not_not.mp (not_or.mp hp).1⟩
  · simp only [ne_eq, hs, not_false_eq_true, true_and, if_false] at h
    split at h
    · cases h
    · rename_i hb
      split at h
      · cases h
      · rename_i hp
        obtain rfl := Except.ok.inj h
        exact ⟨Or.inr ⟨hs, not_not.mp (not_or.mp hb).1, rfl⟩, not_not.mp (not_or.mp hp).1⟩

theorem cursor_objectClass : (db.cursor now k).objectClass = k := by
  unfold Db.cursor
  cases hg : db.cursors.get k with
  | none => rfl
  | some c => exact (Table.get_eq_some.mp hg).2

theorem Db.Admits.objectClass (h : db.Admits now e start till cursor) :
    cursor.objectClass = .wooOrders := by
  rcases (forPage_ok h.place).1 with ⟨-, rfl⟩ | ⟨-, -, rfl⟩
  · exact cursor_objectClass
  · exact cursor_objectClass

theorem get_invalidate : (db.invalidate k).cursors.get k' =
    (db.cursors.get k').map fun c => if k' = k then { c with complete := false } else c := by
  unfold Db.invalidate
  cases hg : db.cursors.get k with
  | none =>
    by_cases hk : k' = k
    · rw [hk, hg]
      rfl
    · simp [hk]
  | some c =>
    obtain ⟨-, hc⟩ := Table.get_eq_some.mp hg
    rw [Table.get_put]
    by_cases hk : k' = k
    · rw [if_pos (hk.trans hc.symm), hk, hg]
      simp
    · rw [if_neg fun h => hk (h.trans hc)]
      simp [hk]

@[simp] theorem invalidate_pages : (db.invalidate k).pages = db.pages := by
  unfold Db.invalidate
  split <;> rfl

@[simp] theorem endScan_pages : (db.endScan now cursor start till).pages = db.pages := by
  unfold Db.endScan
  split
  · rfl
  · split
    · exact invalidate_pages
    · rfl

theorem acceptPage_pages : (acceptPage sha256 connector now e start till cursor db).1.pages =
    db.pages.put ⟨e.scanId, e.page, pageHash sha256 e,
      (acceptPage sha256 connector now e start till cursor db).2⟩ := by
  unfold acceptPage
  split <;> split <;> simp only [endScan_pages, invalidate_pages]

def Cursor.afterPage (cursor : Cursor) (now : Instant) (e : Envelope) (start till : Instant)
    (rejected : Bool) : Cursor :=
  if e.finalPage then (cursor.afterRecords now rejected).endScan now start till
  else cursor.afterRecords now rejected

theorem afterPage_objectClass {rejected : Bool} :
    (cursor.afterPage now e start till rejected).objectClass = cursor.objectClass := by
  unfold Cursor.afterPage Cursor.endScan
  split
  · split
    · rfl
    · split <;> rfl
  · rfl

theorem acceptPage_orders (sha256 : String → String) (connector : Installation)
    (h : db.Admits now e start till cursor) :
    (acceptPage sha256 connector now e start till cursor db).1.cursors.get .wooOrders =
      some (cursor.afterPage now e start till
        (storeRecords sha256 connector now e.records db.facts).rejected) := by
  unfold acceptPage
  rw [Table.get_put]
  exact if_pos (afterPage_objectClass.trans h.objectClass).symm

end

end LedgerGuard.Ingestion
