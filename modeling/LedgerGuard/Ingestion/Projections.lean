import LedgerGuard.Ingestion.Timestamp
import LedgerGuard.Lib.Table

/-! # Observations and projections

`upsert` turns the facts of one connector into immutable observations and one
current projection for each source record. It runs in a savepoint, so a fact it
refuses leaves the tables as they were.
-/

namespace LedgerGuard.Ingestion

inductive Kind
  | order | wooRefund | payment | charge | session | stripeRefund
  deriving DecidableEq, Repr

/-- Normalized data of a source record; what a kind of record lacks is absent. -/
structure SourceData where
  status : String
  amountMinor : ℕ
  currency : String
  exponent : ℕ
  createdAtSource : String
  receivedMinor : Option ℕ := none
  refundedMinor : Option ℕ := none
  capturableMinor : Option ℕ := none
  parentId : Option String := none
  transactionId : Option String := none
  piId : Option String := none
  chargeId : Option String := none
  sessionId : Option String := none
  method : Option String := none
  captureMethod : Option String := none
  storeHint : Option String := none
  orderHint : Option String := none
  /-- Present for orders, where it can be null. -/
  paidAt : Option (Option String) := none
  refundIds : Option (List String) := none
  deriving DecidableEq

/-- A member of a JSON object that can be absent. -/
def member {α : Type} (key : String) (encode : α → Json) (value : Option α) :
    List (String × Json) :=
  value.elim [] fun v => [(key, encode v)]

def SourceData.toJson (d : SourceData) : Json :=
  .obj ([("status", .str d.status), ("amount_minor", .int d.amountMinor),
      ("currency", .str d.currency), ("exponent", .int d.exponent),
      ("created_at_source", .str d.createdAtSource)] ++
    member "received_minor" (fun n : ℕ => .int n) d.receivedMinor ++
    member "refunded_minor" (fun n : ℕ => .int n) d.refundedMinor ++
    member "capturable_minor" (fun n : ℕ => .int n) d.capturableMinor ++
    member "parent_id" .str d.parentId ++
    member "transaction_id" .str d.transactionId ++
    member "pi_id" .str d.piId ++
    member "charge_id" .str d.chargeId ++
    member "session_id" .str d.sessionId ++
    member "method" .str d.method ++
    member "capture_method" .str d.captureMethod ++
    member "store_hint" .str d.storeHint ++
    member "order_hint" .str d.orderHint ++
    member "paid_at" (fun t : Option String => t.elim .null .str) d.paidAt ++
    member "refund_ids" .strings d.refundIds)

def currencyTableVersion : String := "stripe-presentment-2026-09-05"

structure Observation where
  kind : Kind
  sourceId : String
  revision : Instant
  contentHash : String
  data : SourceData
  currencyTableVersion : String
  deriving DecidableEq

def Observation.key (o : Observation) : Kind × String × Instant × String :=
  (o.kind, o.sourceId, o.revision, o.contentHash)

structure Projection where
  kind : Kind
  sourceId : String
  storeId : Option String
  mode : Mode
  status : String
  amountMinor : ℕ
  receivedMinor : ℕ := 0
  refundedMinor : ℕ := 0
  capturableMinor : ℕ := 0
  currency : String
  exponent : ℕ
  parentId : String := ""
  transactionId : String := ""
  piId : String := ""
  chargeId : String := ""
  sessionId : String := ""
  method : String := ""
  captureMethod : String := ""
  storeHint : String := ""
  orderHint : String := ""
  createdAtSource : Instant
  revision : Instant
  paidAt : Option Instant := none
  succeededAt : Option Instant := none
  observation : Observation
  lockVersion : ℕ := 0
  deriving DecidableEq

def Projection.key (p : Projection) : Kind × String := (p.kind, p.sourceId)

/-- The columns of the connector that its facts are stored under. -/
structure Installation where
  id : String
  organizationId : String
  storeId : Option String
  mode : Mode
  deriving DecidableEq

structure Facts where
  observations : Table Observation.key := .empty
  projections : Table Projection.key := .empty

inductive Refusal
  | valueError (message : String)
  | problem (code : String) (status : ℕ)
  deriving DecidableEq, Repr

def sourceRevisionConflict : Refusal := .problem "SOURCE_REVISION_CONFLICT" 409

inductive Disposition
  | accepted | duplicate
  deriving DecidableEq, Repr

/-- The timestamps of a record, read. -/
structure SourceTimes where
  createdAt : Instant
  paidAt : Option (Option Instant)
  deriving DecidableEq

def SourceData.times (d : SourceData) : Option SourceTimes := do
  let createdAt ← timestamp d.createdAtSource
  match d.paidAt with
  | none => return ⟨createdAt, none⟩
  | some none => return ⟨createdAt, some none⟩
  | some (some paid) => return ⟨createdAt, some (some (← timestamp paid))⟩

def Projection.assign (p : Projection) (d : SourceData) (times : SourceTimes) : Projection :=
  { p with
    status := d.status
    amountMinor := d.amountMinor
    currency := d.currency
    exponent := d.exponent
    createdAtSource := times.createdAt
    receivedMinor := d.receivedMinor.getD p.receivedMinor
    refundedMinor := d.refundedMinor.getD p.refundedMinor
    capturableMinor := d.capturableMinor.getD p.capturableMinor
    parentId := d.parentId.getD p.parentId
    transactionId := d.transactionId.getD p.transactionId
    piId := d.piId.getD p.piId
    chargeId := d.chargeId.getD p.chargeId
    sessionId := d.sessionId.getD p.sessionId
    method := d.method.getD p.method
    captureMethod := d.captureMethod.getD p.captureMethod
    storeHint := d.storeHint.getD p.storeHint
    orderHint := d.orderHint.getD p.orderHint
    paidAt := times.paidAt.getD p.paidAt }

/-- The first success of a payment stays; it is the revision that reported it. -/
def Projection.firstSuccess (p : Projection) (revision : Instant) : Option Instant :=
  if p.kind = .payment ∧ p.status = "succeeded" then some (p.succeededAt.getD revision)
  else p.succeededAt

def Projection.save (p : Projection) (connector : Installation) (revision : Instant)
    (data : SourceData) (times : SourceTimes) (observation : Observation) : Projection :=
  let p := p.assign data times
  { p with
    succeededAt := p.firstSuccess revision
    storeId := connector.storeId
    mode := connector.mode
    revision
    observation }

/-- A new row, with the defaults of the columns that the data lacks. -/
def Projection.create (connector : Installation) (kind : Kind) (sourceId : String)
    (revision : Instant) (data : SourceData) (times : SourceTimes) (observation : Observation) :
    Projection :=
  let p : Projection :=
    { kind, sourceId, storeId := connector.storeId, mode := connector.mode, status := data.status,
      amountMinor := data.amountMinor, currency := data.currency, exponent := data.exponent,
      createdAtSource := times.createdAt, revision, observation }
  p.save connector revision data times observation

def Projection.update (p : Projection) (connector : Installation) (revision : Instant)
    (data : SourceData) (times : SourceTimes) (observation : Observation) : Projection :=
  { p.save connector revision data times observation with lockVersion := p.lockVersion + 1 }

section

variable (sha256 : String → String)

def contentHash (d : SourceData) : String := sha256 (canonical d.toJson)

/-- `Observation.objects.get_or_create` under the unique key of observations. -/
def Facts.observe (db : Facts) (o : Observation) : Observation × Facts :=
  match db.observations.get o.key with
  | some existing => (existing, db)
  | none => (o, { db with observations := db.observations.put o })

/-- Store one fact. Content equal to the current one is a duplicate at whatever revision; an
older fact is kept as an observation only; other content at the current revision is refused. -/
def upsert (connector : Installation) (kind : Kind) (sourceId : String) (revision : Instant)
    (data : SourceData) (db : Facts) : Except Refusal (Facts × Disposition) :=
  let hash := contentHash sha256 data
  let current := db.projections.get (kind, sourceId)
  if current.any fun p => p.observation.contentHash = hash then
    .ok (db, .duplicate)
  else
    let (observation, db) :=
      db.observe ⟨kind, sourceId, revision, hash, data, currencyTableVersion⟩
    if current.any fun p => revision < p.revision then
      .ok (db, .duplicate)
    else if current.any fun p => revision = p.revision then
      .error sourceRevisionConflict
    else
      match data.times with
      | none => .error (.valueError "UTC timestamp required")
      | some times =>
        let row := current.elim
          (Projection.create connector kind sourceId revision data times observation)
          (·.update connector revision data times observation)
        .ok ({ db with projections := db.projections.put row }, .accepted)

end

section Assign

variable {p : Projection} {d : SourceData} {times : SourceTimes}

theorem getD_getD {α : Type} (o : Option α) (a : α) : o.getD (o.getD a) = o.getD a := by
  cases o <;> rfl

theorem assign_save {connector : Installation} {r : Instant} {o : Observation} :
    (p.save connector r d times o).assign d times = p.save connector r d times o := by
  simp only [Projection.save, Projection.assign, getD_getD]

theorem observe_projections {db : Facts} {o : Observation} :
    (db.observe o).2.projections = db.projections := by
  unfold Facts.observe
  split <;> rfl

end Assign

section Rows

variable {sha256 : String → String} {connector : Installation} {f f' f'' : Facts}

def Facts.KeepsRows (f f' : Facts) : Prop :=
  ∀ k, (f.projections.get k).isSome → (f'.projections.get k).isSome

theorem Facts.KeepsRows.refl (f : Facts) : f.KeepsRows f := fun _ h => h

theorem Facts.KeepsRows.trans (h : f.KeepsRows f') (h' : f'.KeepsRows f'') : f.KeepsRows f'' :=
  fun k hk => h' k (h k hk)

theorem upsert_keepsRows {kind : Kind} {sourceId : String} {revision : Instant} {data : SourceData}
    {d : Disposition} (h : upsert sha256 connector kind sourceId revision data f = .ok (f', d)) :
    f.KeepsRows f' ∧ (f'.projections.get (kind, sourceId)).isSome := by
  unfold upsert at h
  have hsome : ∀ P : Projection → Bool, (f.projections.get (kind, sourceId)).any P = true →
      (f.projections.get (kind, sourceId)).isSome := by
    intro P hP
    cases hg : f.projections.get (kind, sourceId) with
    | none =>
      rw [hg] at hP
      cases hP
    | some p => rfl
  dsimp only at h
  split at h
  · rename_i hdup
    obtain ⟨rfl, -⟩ := Prod.mk.inj (Except.ok.inj h)
    exact ⟨.refl _, hsome _ hdup⟩
  · split at h
    · rename_i hold
      obtain ⟨rfl, -⟩ := Prod.mk.inj (Except.ok.inj h)
      unfold Facts.KeepsRows
      rw [observe_projections]
      exact ⟨fun _ hk => hk, hsome _ hold⟩
    · split at h
      · cases h
      · split at h
        · cases h
        · rename_i times ht
          obtain ⟨rfl, -⟩ := Prod.mk.inj (Except.ok.inj h)
          generalize hrow : ((f.projections.get (kind, sourceId)).elim _ _ : Projection) = row
          have hkey : row.key = (kind, sourceId) := by
            rw [← hrow]
            cases hg : f.projections.get (kind, sourceId) with
            | none => rfl
            | some p => exact (Table.get_eq_some.mp hg).2
          unfold Facts.KeepsRows
          dsimp only
          rw [observe_projections]
          constructor
          · intro k hk
            rw [Table.get_put]
            split
            · rfl
            · exact hk
          · rw [Table.get_put, if_pos hkey.symm]
            rfl

end Rows

end LedgerGuard.Ingestion
