import LedgerGuard.Core.Engine
import LedgerGuard.Lib.Table

/-! # The finding lifecycle

The transaction that turns an evaluation into findings and events, and the
operator actions on a finding. A finding is identified by its key, which is
unique in the database; the evaluation itself is an argument, so every result of
the evaluator is covered.
-/

namespace LedgerGuard

open Ordered

inductive FindingState
  | provisional | opened | acknowledged | suppressed | resolved | reopened
  deriving DecidableEq, Repr

def FindingState.render : FindingState → String
  | .provisional => "provisional"
  | .opened => "open"
  | .acknowledged => "acknowledged"
  | .suppressed => "suppressed"
  | .resolved => "resolved"
  | .reopened => "reopened"

inductive EventType
  | observed | opened | reopened | unsuppressed | resolved
  | acknowledge | suppress | externalResolutionRequested | note
  deriving DecidableEq, Repr

def EventType.render : EventType → String
  | .observed => "observed"
  | .opened => "opened"
  | .reopened => "reopened"
  | .unsuppressed => "unsuppressed"
  | .resolved => "resolved"
  | .acknowledge => "acknowledge"
  | .suppress => "suppress"
  | .externalResolutionRequested => "external_resolution_requested"
  | .note => "note"

/-- The columns of a store that a run reads. -/
structure Store where
  id : String
  mode : Mode
  policyVersion : ℕ := 1
  shadowRules : Bool := false
  deriving DecidableEq

structure Finding where
  storeId : String
  mode : Mode
  findingKey : String
  ruleCode : RuleCode
  ruleVersion : String
  policyVersion : ℕ
  severity : Severity
  state : FindingState := .provisional
  identities : List Identity
  riskAmountMinor : Option ℕ
  currency : String
  exponent : ℕ
  matchConfidence : ℕ
  firstSeen : Instant
  lastSeen : Instant
  eligibleAt : Instant
  occurrenceCount : ℕ := 0
  evidence : Evidence
  evidenceHash : String
  suppressedUntil : Option Instant := none
  cleanSince : Option Instant := none
  cleanCoverageDigest : String := ""
  resolvedAt : Option Instant := none
  lockVersion : ℕ := 0
  updatedAt : Instant
  deriving DecidableEq

structure ReconciliationRun where
  storeId : String
  mode : Mode
  policyVersion : ℕ
  inputDigest : String
  evaluatedAt : Instant
  coverage : List Coverage
  warnings : List Warning
  proposals : List Proposal
  shadow : Bool
  deriving DecidableEq

structure FindingEvent where
  findingKey : String
  eventType : EventType
  actorId : String
  previousState : FindingState
  newState : FindingState
  evidence : Evidence
  /-- The position of the run in the table of runs. -/
  run : Option ℕ := none
  note : String := ""
  deriving DecidableEq

structure AuditLog where
  actorId : String
  action : String
  resourceId : String
  deriving DecidableEq

/-- The tables that runs and actions write. -/
structure Db where
  findings : Table Finding.findingKey := .empty
  events : List FindingEvent := []
  runs : List ReconciliationRun := []
  /-- The positions of the events with a `notify` intent in the outbox. -/
  notifications : List ℕ := []
  audit : List AuditLog := []

/-- `Finding.save`. -/
def Db.save (db : Db) (f : Finding) : Db := { db with findings := db.findings.put f }

/-- `_event`: record an event and, for those that alert, the intent to notify. -/
def Db.event (db : Db) (f : Finding) (eventType : EventType) (previous : FindingState)
    (actor : String) (run : Option ℕ) (note : String) : Db :=
  { db with
    events := db.events ++
      [{ findingKey := f.findingKey, eventType, actorId := actor, previousState := previous
         newState := f.state, evidence := f.evidence, run, note }]
    notifications :=
      if eventType ∈ [EventType.opened, .reopened, .unsuppressed] then
        db.notifications ++ [db.events.length]
      else db.notifications }

section Run

variable (sha256 : String → String) (now : Instant)

def hashEvidence (e : Evidence) : String := sha256 (canonical e.substantive)

def coverageDigest (coverage : List Coverage) : String :=
  sha256 (canonical (.arr ((sortBy Coverage.source coverage).map fun c =>
    .arr [.str c.source, .time c.coveredThrough])))

def Finding.create (store : Store) (p : Proposal) : Finding where
  storeId := store.id
  mode := store.mode
  findingKey := p.key
  ruleCode := p.rule
  ruleVersion := p.ruleVersion
  policyVersion := store.policyVersion
  severity := p.severity
  identities := p.identities
  riskAmountMinor := p.risk.map (·.minor)
  currency := (p.risk.map (·.currency)).getD ""
  exponent := (p.risk.map (·.exponent)).getD 2
  matchConfidence := p.confidence
  firstSeen := now
  lastSeen := now
  eligibleAt := p.eligibleAt
  evidence := p.evidence
  evidenceHash := hashEvidence sha256 p.evidence
  updatedAt := now

/-- The state change of a proposed finding; only a ready proposal causes one. -/
def Finding.advance (ready : Bool) (f : Finding) : Finding × Option EventType :=
  if ready = false then (f, none)
  else
    match f.state with
    | .provisional =>
      ({ f with state := .opened, occurrenceCount := f.occurrenceCount + 1 }, some .opened)
    | .resolved =>
      ({ f with state := .reopened, occurrenceCount := f.occurrenceCount + 1
                resolvedAt := none }, some .reopened)
    | .suppressed =>
      if f.suppressedUntil.any (· ≤ now) then
        ({ f with state := .opened, suppressedUntil := none }, some .unsuppressed)
      else (f, none)
    | _ => (f, none)

/-- Refresh a proposed finding; whatever clean evidence it had is lost. -/
def Finding.observe (p : Proposal) (created : Bool) (f : Finding) : Finding × Option EventType :=
  let hash := hashEvidence sha256 p.evidence
  let changed := f.evidenceHash ≠ hash
  let refreshed : Finding :=
    { f with
      evidence := p.evidence
      evidenceHash := hash
      riskAmountMinor := p.risk.map (·.minor)
      currency := (p.risk.map (·.currency)).getD ""
      exponent := (p.risk.map (·.exponent)).getD 2
      matchConfidence := p.confidence
      lastSeen := now
      eligibleAt := p.eligibleAt
      cleanSince := none
      cleanCoverageDigest := "" }
  let (advanced, event) := refreshed.advance now p.ready
  ({ advanced with updatedAt := now, lockVersion := advanced.lockVersion + 1 },
    event <|> if created ∨ changed then some .observed else none)

def observeProposal (store : Store) (run : ℕ) (db : Db) (p : Proposal) : Db :=
  let existing := db.findings.get p.key
  let f := existing.getD (Finding.create sha256 now store p)
  let (f', event) := f.observe sha256 now p existing.isNone
  match event with
  | none => db.save f'
  | some event => (db.save f').event f' event f.state "system" (some run) ""

/-- What a run does to a finding of its store that is not resolved; the flag says that it
resolves it. -/
def Finding.settle (digest : String) (result : Evaluation) (f : Finding) : Finding × Bool :=
  if f.findingKey ∈ result.proposals.map (·.key) then (f, false)
  else if f.ruleCode ∉ result.evaluatedRules ∨
      f.identities.any (· ∈ result.blockedIdentities) then
    (if f.cleanSince.isSome then
      { f with cleanSince := none, cleanCoverageDigest := ""
               lockVersion := f.lockVersion + 1, updatedAt := now }
    else f, false)
  else
    let (f', resolved) : Finding × Bool :=
      match f.cleanSince with
      | none => ({ f with cleanSince := some now, cleanCoverageDigest := digest }, false)
      | some since =>
        if minutes 5 ≤ now - since ∧ (f.ruleCode ≠ .pi009 ∨ f.cleanCoverageDigest ≠ digest) then
          ({ f with state := .resolved, resolvedAt := some now }, true)
        else (f, false)
    ({ f' with updatedAt := now, lockVersion := f'.lockVersion + 1 }, resolved)

/-- One round of the loop over the unresolved findings of the store. -/
def settleFinding (digest : String) (result : Evaluation) (run : ℕ) (db : Db) (f : Finding) : Db :=
  let (f', resolved) := f.settle now digest result
  if resolved then (db.event f' .resolved f.state "system" (some run) "").save f'
  else db.save f'

def Db.unresolved (db : Db) (storeId : String) : List Finding :=
  db.findings.rows.filter fun f => f.storeId = storeId && f.state ≠ .resolved

/-- The transaction of `reconcile` once the evaluation is there. -/
def recordRun (store : Store) (coverage : List Coverage) (result : Evaluation) (db : Db) : Db :=
  let run := db.runs.length
  let db := { db with
    runs := db.runs ++
      [{ storeId := store.id, mode := store.mode, policyVersion := store.policyVersion
         inputDigest := result.inputDigest, evaluatedAt := now, coverage
         warnings := result.warnings, proposals := result.proposals
         shadow := store.shadowRules }] }
  -- a shadow run leaves every finding as it is, its clean evidence included
  if store.shadowRules then db
  else
    let db := result.proposals.foldl (observeProposal sha256 now store run) db
    (db.unresolved store.id).foldl
      (settleFinding now (coverageDigest sha256 coverage) result run) db

end Run

/-- `reconcile`: evaluate the snapshot of the store and record the run; when the evaluation
raises, the transaction rolls back. -/
def reconcile (sha256 : String → String) (store : Store) (s : Snapshot) (db : Db) :
    Except String Db := do
  let result ← evaluate sha256 s
  .ok (recordRun sha256 s.now store s.coverage result db)

/-- What an action raises. -/
inductive Failure
  | doesNotExist
  | problem (code : String) (status : ℕ) (detail : String)
  deriving DecidableEq, Repr

/-- `Problem` with its default detail. -/
def Failure.refused (code : String) (status : ℕ) : Failure :=
  .problem code status "The request could not be accepted."

/-- The characters that `str.strip` removes. -/
def isSpace (c : Char) : Bool :=
  c.toNat ∈ [0x20, 0x85, 0xa0, 0x1680, 0x2028, 0x2029, 0x202f, 0x205f, 0x3000]
    || (0x09 ≤ c.toNat && c.toNat ≤ 0x0d) || (0x1c ≤ c.toNat && c.toNat ≤ 0x1f)
    || (0x2000 ≤ c.toNat && c.toNat ≤ 0x200a)

/-- `not note.strip()`. -/
def isBlank (note : String) : Bool := note.toList.all isSpace

def Finding.perform (f : Finding) (actionName note : String) (till : Option Instant)
    (clock : Instant) : Except Failure Finding :=
  if actionName = "acknowledge" then
    if f.state ∈ [FindingState.opened, .reopened, .acknowledged] then
      .ok { f with state := .acknowledged }
    else .error (.refused "INVALID_TRANSITION" 409)
  else if actionName = "suppress" then
    if f.state ∉ [FindingState.opened, .reopened, .acknowledged, .suppressed] then
      .error (.refused "INVALID_TRANSITION" 409)
    else
      match till with
      | none => .error (.refused "SUPPRESSION_REASON_AND_EXPIRY_REQUIRED" 422)
      | some t =>
        if isBlank note ∨ ¬ (clock < t ∧ t ≤ clock + minutes (7 * 24 * 60)) then
          .error (.refused "SUPPRESSION_REASON_AND_EXPIRY_REQUIRED" 422)
        else .ok { f with state := .suppressed, suppressedUntil := some t }
  else if isBlank note then .error (.refused "NOTE_REQUIRED" 422)
  -- external resolution records intent: the engine still requires two clean runs
  else if actionName = "resolve" then .ok { f with cleanSince := none }
  else .ok f

def actionEvent : String → EventType
  | "acknowledge" => .acknowledge
  | "suppress" => .suppress
  | "resolve" => .externalResolutionRequested
  | _ => .note

def action (key actor actionName : String) (version : ℕ) (note : String)
    (till : Option Instant) (clock : Instant) (db : Db) : Except Failure Db :=
  match db.findings.get key with
  | none => .error .doesNotExist
  | some f =>
    if f.lockVersion ≠ version then
      .error (.problem "FINDING_VERSION_CONFLICT" 409 "Refresh the finding and retry the action.")
    else if actionName ∉ ["acknowledge", "suppress", "resolve", "note"] then
      .error (.refused "INVALID_ACTION" 400)
    else do
      let performed ← f.perform actionName note till clock
      let f' := { performed with lockVersion := performed.lockVersion + 1, updatedAt := clock }
      let db := (db.save f').event f' (actionEvent actionName) f.state actor none
        (String.ofList (note.toList.take 1000))
      .ok { db with audit := db.audit ++ [⟨actor, "finding." ++ actionName, key⟩] }

end LedgerGuard
