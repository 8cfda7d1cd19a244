import LedgerGuard.Core.Domain

/-! # Queue work backed by outbox rows

One outbox row and the transactions that touch it: `dispatch`, the attempt and
the failure-recording transaction of `_run_message`, and `replay_work`. What the
other tables answer and what the work itself comes to are inputs of a
transaction.
-/

namespace LedgerGuard.Workers

inductive TaskType
  | stripeReceipt | stripePoll | stripeRepair | reconcileStore | notify | securityNotify | report
  | deleteTenant | retention | stripeScanPage | deliverEmail | notifyDigest
  deriving DecidableEq

inductive Status
  | pending | queued | done | dead
  deriving DecidableEq

structure Outbox where
  id : String
  organizationId : String
  taskType : TaskType
  resourceId : String
  status : Status := .pending
  attempts : ℕ := 0
  availableAt : Instant
  leaseUntil : Option Instant := none
  lastErrorCode : String := ""
  deriving DecidableEq

/-- An exception of an attempt: a `ConnectorFailure` or one of another type. -/
inductive WorkFailure
  | connector (code : String) (permanent : Bool := false) (retryAfter : ℕ := 0)
  | other (typeName : String)
  deriving DecidableEq

def WorkFailure.code : WorkFailure → String
  | .connector code _ _ => code
  | .other typeName => typeName

def WorkFailure.permanent : WorkFailure → Bool
  | .connector _ permanent _ => permanent
  | .other _ => false

/-- The reference that the queue carries. -/
structure Message where
  messageId : String
  taskType : TaskType
  organizationId : String
  resourceId : String
  attemptContext : ℕ
  deriving DecidableEq

def message (row : Outbox) : Message where
  messageId := row.id
  taskType := row.taskType
  organizationId := row.organizationId
  resourceId := row.resourceId
  attemptContext := row.attempts

def TaskType.maintenance : TaskType → Bool
  | .deleteTenant | .retention => true
  | _ => false

/-- The row as `dispatch` leaves it, if its query selects the row and sends its message. -/
def dispatch (now : Instant) (row : Outbox) : Option Outbox :=
  if (row.status = .pending ∨ (row.status = .queued ∧ ∃ t ∈ row.leaseUntil, t < now)) ∧
      row.availableAt ≤ now ∧ ¬ row.taskType.maintenance then
    some { row with status := .queued, leaseUntil := some (now + minutes 20) }
  else none

/-- What an attempt reads from the other tables, and how its work ends. -/
structure Conditions where
  now : Instant
  active : Bool := true
  /-- The audit entry of the row's resource requests the deletion of the organization. -/
  deletionRequested : Bool := false
  /-- The email delivery of the row's resource is about such an entry. -/
  deletionEmail : Bool := false
  credentialConnector : Except WorkFailure (Option String) := .ok none
  refreshAccessToken : Except WorkFailure Unit := .ok ()
  /-- How the handler of the row's task ends. -/
  task : Except WorkFailure Unit := .ok ()

def handle (w : Conditions) (row : Outbox) : Except WorkFailure Unit :=
  if row.taskType.maintenance then .error (.other "ProblemMaintenance") else w.task

/-- Exchange the credential of a connector. A failure of another kind than the connector's own
leaves it open which token is valid. -/
def refresh (w : Conditions) : Option String → Except WorkFailure Unit
  | none => .ok ()
  | some _ =>
    match w.refreshAccessToken with
    | .error (.other _) => .error (.connector "OAUTH_PERSISTENCE_UNCERTAIN" true)
    | r => r

/-- How an attempt ends; a failed one can have suspended its connector, under an error code. -/
inductive Verdict
  | unknown
  | returned (value : Bool)
  | committed
  | failed (failure : WorkFailure) (suspended : Option (String × String))
  deriving DecidableEq

def suspension (failure : WorkFailure) (connector : Option String) : Option (String × String) :=
  if failure.permanent then connector.map (·, failure.code) else none

/-- The first transaction of `_run_message`: the row stays locked from the check of its status
to the commit. -/
def attempt (w : Conditions) (m : Message) (row : Outbox) : Verdict × Outbox :=
  if row.organizationId ≠ m.organizationId ∨ row.id ≠ m.messageId then
    (.unknown, row)
  else if row.taskType ≠ m.taskType ∨ row.resourceId ≠ m.resourceId then
    (.returned false, row)
  else if row.status = .done then
    (.returned true, row)
  else if row.status = .dead then
    (.returned false, row)
  else if w.now < row.availableAt then
    (.returned false, row)
  else if ¬ w.active ∧ ¬ (row.taskType = .securityNotify ∧ w.deletionRequested) ∧
      ¬ (row.taskType = .deliverEmail ∧ w.deletionEmail) then
    (.returned true, { row with status := .done })
  else
    match w.credentialConnector with
    | .error failure => (.failed failure none, row)
    | .ok connector =>
      match (do refresh w connector; handle w row) with
      | .error failure => (.failed failure (suspension failure connector), row)
      | .ok _ => (.committed, { row with status := .done, leaseUntil := none, lastErrorCode := "" })

/-- What the failure-recording transaction reads besides the row. -/
structure Lookups where
  now : Instant
  jitter : Fin 30 := 0
  receiptConnector : Option String := none
  scanConnector : Option String := none

/-- What a recorded failure does to other tables. -/
inductive Consequence
  | reportFailed (report : String)
  | receiptFailed (receipt : String)
  | scanFailed (scan : String)
  | coverageIncomplete (connector : String)
  | connectorSuspended (connector code : String)
  | scansFailed (connector : String)
  | suspensionAudited (connector code : String)
  deriving DecidableEq

def failureDelay (failure : WorkFailure) (attempts jitter : ℕ) : ℕ :=
  let delay := min 900 (2 ^ attempts) + jitter
  match failure with
  | .connector _ _ retryAfter => max delay retryAfter
  | .other _ => delay

def failureConnector (l : Lookups) (row : Outbox) : Option String :=
  match row.taskType with
  | .stripePoll | .stripeRepair => some row.resourceId
  | .stripeReceipt => l.receiptConnector
  | .stripeScanPage => l.scanConnector
  | _ => none

/-- The changes to other tables, in order, for a row whose failure has been counted. -/
def consequences (failure : WorkFailure) (l : Lookups) (row : Outbox) : List Consequence :=
  (if row.status = .dead then
    match row.taskType with
    | .report => [.reportFailed row.resourceId]
    | .stripeReceipt => [.receiptFailed row.resourceId]
    | .stripeScanPage => [.scanFailed row.resourceId]
    | _ => []
  else []) ++
  match failureConnector l row with
  | none => []
  | some connector =>
    (if row.status = .dead then [.coverageIncomplete connector] else []) ++
    (if failure.permanent then
      [.connectorSuspended connector failure.code, .scansFailed connector,
        .suspensionAudited connector failure.code]
    else [])

def maxAttempts : ℕ := 8

/-- The row as the second transaction of `_run_message` leaves it. It locks the row anew and
does not look at its status. -/
def recordFailure (failure : WorkFailure) (l : Lookups) (row : Outbox) :
    Outbox × List Consequence :=
  let attempts := row.attempts + 1
  let row := { row with
    attempts
    lastErrorCode := (failure.code.take 64).toString
    status := if failure.permanent ∨ maxAttempts ≤ attempts then .dead else .pending
    availableAt := l.now + seconds (failureDelay failure attempts l.jitter)
    leaseUntil := none }
  (row, consequences failure l row)

/-- `replay_work` on a dead row, if the reason it gives is accepted. -/
def replayWork (now : Instant) (reason : String) (row : Outbox) : Option Outbox :=
  if 10 ≤ reason.length ∧ reason.length ≤ 500 ∧ row.status = .dead then
    some { row with status := .pending, attempts := 0, availableAt := now, leaseUntil := none }
  else none

/-- The row that `enqueue` creates. -/
def enqueue (id organizationId : String) (taskType : TaskType) (resourceId : String)
    (now : Instant) : Outbox where
  id := id
  organizationId := organizationId
  taskType := taskType
  resourceId := resourceId
  availableAt := now

variable {w : Conditions} {m : Message} {l : Lookups} {row row' : Outbox} {failure : WorkFailure}
  {now : Instant} {reason : String}

/-- Work that may still be attempted. -/
def Outbox.Open (row : Outbox) : Prop := row.status ≠ .done ∧ row.status ≠ .dead

theorem attempt_cases :
    ((attempt w m row).1 ≠ .committed ∧ (attempt w m row).2 = row) ∨
      (row.Open ∧ (attempt w m row).2.status = .done) := by
  unfold attempt
  split
  · exact Or.inl ⟨nofun, rfl⟩
  split
  · exact Or.inl ⟨nofun, rfl⟩
  split
  · exact Or.inl ⟨nofun, rfl⟩
  split
  · exact Or.inl ⟨nofun, rfl⟩
  rename_i hdone hdead
  split
  · exact Or.inl ⟨nofun, rfl⟩
  split
  · exact Or.inr ⟨⟨hdone, hdead⟩, rfl⟩
  split
  · exact Or.inl ⟨nofun, rfl⟩
  split
  · exact Or.inl ⟨nofun, rfl⟩
  · exact Or.inr ⟨⟨hdone, hdead⟩, rfl⟩

theorem dispatch_cases (h : dispatch now row = some row') :
    row.Open ∧ row'.status = .queued := by
  unfold dispatch at h
  split at h
  · rename_i hs
    obtain rfl := Option.some.inj h
    refine ⟨?_, rfl⟩
    rcases hs.1 with hs | ⟨hs, -⟩
    · constructor <;> rw [hs] <;> nofun
    · constructor <;> rw [hs] <;> nofun
  · cases h

def Exhausting (failure : WorkFailure) (row : Outbox) : Prop :=
  failure.permanent ∨ maxAttempts ≤ row.attempts + 1

instance : Decidable (Exhausting failure row) := inferInstanceAs (Decidable (_ ∨ _))

theorem recordFailure_status : (recordFailure failure l row).1.status =
    if Exhausting failure row then .dead else .pending := rfl

theorem consequences_of_retry (h : ¬ Exhausting failure row) :
    (recordFailure failure l row).2 = [] := by
  have hs := @recordFailure_status l row failure
  rw [if_neg h] at hs
  have hp : failure.permanent = false := by
    rw [Exhausting, not_or] at h
    simpa using h.1
  change consequences failure l (recordFailure failure l row).1 = []
  unfold consequences
  rw [hs, hp]
  cases failureConnector l (recordFailure failure l row).1 <;> rfl

theorem replayWork_cases (h : replayWork now reason row = some row') :
    row.status = .dead ∧ row'.status = .pending := by
  unfold replayWork at h
  split at h
  · rename_i hr
    obtain rfl := Option.some.inj h
    exact ⟨hr.2.2, rfl⟩
  · cases h

end LedgerGuard.Workers
