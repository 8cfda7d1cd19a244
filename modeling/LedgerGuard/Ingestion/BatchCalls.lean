import LedgerGuard.Ingestion.Convergence
import LedgerGuard.Ingestion.CoverageRange
import LedgerGuard.Lib.Blocks

/-! # A page statement by statement

The statements of `accept_woo_batch` and `upsert` in the order in which they run. A record
runs in a savepoint of its own, while its result and the state of the scan are kept outside
it, and the request runs in one transaction. What a refused record wrote before it was
refused, also to rows of other tables, is gone with its savepoint.
-/

namespace LedgerGuard.Ingestion

open Block

/-- `Cursor.objects.filter(connector=connector).update(complete=False)`. -/
def Db.invalidateAll (db : Db) : Db :=
  { db with
    cursors :=
      { rows := db.cursors.rows.map fun c => { c with complete := false }
        nodup := by
          rw [List.map_map]
          exact db.cursors.nodup } }

def Db.setError (db : Db) (code : String) : Db := { db with lastErrorCode := code }

def Db.started (db : Db) (now : Instant) (e : Envelope) (start till : Instant) : Cursor :=
  if (db.cursor now .wooOrders).scanId = some e.scanId then db.cursor now .wooOrders
  else (db.cursor now .wooOrders).start e.scanId start till

/-- The page is not the next one of the scan, or it changes the window of the scan. -/
def Cursor.Misplaced (cursor : Cursor) (e : Envelope) (start till : Instant) : Prop :=
  cursor.nextPage ≠ e.page ∨ cursor.scanFrom ≠ some start ∨ cursor.scanThrough ≠ some till

instance (cursor : Cursor) (e : Envelope) (start till : Instant) :
    Decidable (cursor.Misplaced e start till) :=
  inferInstanceAs (Decidable (_ ∨ _))

section

variable (sha256 : String → String) (connector : Installation) (now : Instant)

/-- The statements of `upsert`. -/
def upsertBlock (kind : Kind) (sourceId : String) (revision : Instant) (data : SourceData) :
    Block Db Refusal Disposition := do
  let db ← read
  let hash := contentHash sha256 data
  let current := db.facts.projections.get (kind, sourceId)
  if current.any fun p => p.observation.contentHash = hash then
    return .duplicate
  else
    let (observation, facts) :=
      db.facts.observe ⟨kind, sourceId, revision, hash, data, currencyTableVersion⟩
    write fun db => { db with facts }
    if current.any fun p => revision < p.revision then
      return .duplicate
    else if current.any fun p => revision = p.revision then
      write fun db => db.setError "SOURCE_REVISION_CONFLICT"
      write Db.invalidateAll
      raise sourceRevisionConflict
    else
      match data.times with
      | none => raise (.valueError "UTC timestamp required")
      | some times =>
        let row := current.elim
          (Projection.create connector kind sourceId revision data times observation)
          (·.update connector revision data times observation)
        write fun db => { db with facts.projections := db.facts.projections.put row }
        return .accepted

def recordBlock (r : WooRecord) : Block Db Refusal Disposition :=
  match timestamp r.revision with
  | none => raise (.valueError "UTC timestamp required")
  | some revision =>
    if now + seconds 120 < revision then raise (.valueError "Future revision")
    else
      match normalizeWoo r with
      | .error message => raise (.valueError message)
      | .ok data => upsertBlock sha256 connector r.kind r.sourceId revision data

/-- One record of a page, in its savepoint, and its entry of the results. -/
def resultBlock (r : WooRecord) : Block Db Refusal RecordResult :=
  attempt
    (do
      let disposition ← atomic (recordBlock sha256 connector now r)
      return ⟨r.sourceId, r.kind, .stored disposition, none⟩)
    (fun refusal => do
      write fun db =>
        if refusal = sourceRevisionConflict then db.setError "SOURCE_REVISION_CONFLICT" else db
      return ⟨r.sourceId, r.kind, .rejected, some "INVALID_SOURCE_FACT"⟩)

/-- The loop over the records of a page: the results, and whether one was refused. -/
def recordsBlock : List WooRecord → Block Db Refusal (List RecordResult × Bool)
  | [] => return ([], false)
  | r :: rs => do
    let result ← resultBlock sha256 connector now r
    let (results, failed) ← recordsBlock rs
    return (result :: results, decide (result.status = .rejected) || failed)

/-- The statements of `accept_woo_batch`. -/
def acceptBlock (e : Envelope) : Block Db Refusal BatchResult := do
  let db ← read
  match db.pages.get (e.scanId, e.page) with
  | some prior =>
    if prior.contentHash ≠ pageHash sha256 e then
      raise (.problem "SCAN_PAGE_CONTENT_CONFLICT" 409)
    else return { prior.result with requestId := e.requestId, serverTime := now }
  | none =>
    match window now e with
    | .error refusal => raise refusal
    | .ok (start, till) =>
      let cursor := db.cursor now .wooOrders
      write fun db => { db with cursors := db.cursors.put cursor }
      if cursor.scanId ≠ some e.scanId ∧ (e.page ≠ 1 ∨ cursor.busy now) then
        raise sequenceConflict
      else
        let started := db.started now e start till
        write fun db => if cursor.scanId = some e.scanId then db else db.invalidate .wooRefunds
        if started.Misplaced e start till then raise sequenceConflict
        else
          let (results, failed) ← recordsBlock sha256 connector now e.records
          let moved := started.afterRecords now failed
          write fun db => if e.finalPage then db.endScan now moved start till else db
          let saved := if e.finalPage then moved.endScan now start till else moved
          write fun db => { db with cursors := db.cursors.put saved }
          write fun db => db.reconcileLater connector e.requestId
          let result : BatchResult :=
            { requestId := e.requestId
              results
              coverageAdvanced := e.finalPage && !moved.scanFailed && moved.contiguous start
              serverTime := now }
          write fun db =>
            { db with pages := db.pages.put ⟨e.scanId, e.page, pageHash sha256 e, result⟩ }
          return result

/-- A request with a page: the transaction goes back if the call raises. -/
def batchCall (e : Envelope) : Block Db Refusal BatchResult :=
  atomic (acceptBlock sha256 connector now e)

end

variable {sha256 : String → String} {connector : Installation} {now : Instant} {db : Db}

theorem atomic_upsertBlock {kind : Kind} {sourceId : String} {revision : Instant}
    {data : SourceData} : atomic (upsertBlock sha256 connector kind sourceId revision data) db =
      settle db ((upsert sha256 connector kind sourceId revision data db.facts).map
        fun stored => ({ db with facts := stored.1 }, stored.2)) := by
  unfold upsert
  dsimp only
  split
  case isTrue hsame =>
    refine atomic_ok ?_
    simp only [upsertBlock, read_bind, hsame, if_true]
    rfl
  case isFalse hsame =>
    split
    case isTrue hlate =>
      refine atomic_ok ?_
      simp only [upsertBlock, read_bind, hsame, hlate, if_true, if_false, Bool.false_eq_true]
      rfl
    case isFalse hlate =>
      split
      case isTrue hconflict =>
        refine atomic_error ?_
        simp only [upsertBlock, read_bind, hsame, hlate, hconflict, if_true, if_false,
          Bool.false_eq_true]
        rfl
      case isFalse hconflict =>
        cases htimes : data.times with
        | none =>
          refine atomic_error ?_
          simp only [upsertBlock, read_bind, hsame, hlate, hconflict, htimes, if_false,
            Bool.false_eq_true]
          rfl
        | some times =>
          refine atomic_ok ?_
          simp only [upsertBlock, read_bind, hsame, hlate, hconflict, htimes, if_false,
            Bool.false_eq_true]
          rfl

theorem atomic_recordBlock {r : WooRecord} : atomic (recordBlock sha256 connector now r) db =
    settle db ((storeRecord sha256 connector now r db.facts).map
      fun stored => ({ db with facts := stored.1 }, stored.2)) := by
  unfold recordBlock storeRecord
  cases timestamp r.revision with
  | none => rfl
  | some revision =>
    dsimp only
    split
    · rfl
    · cases normalizeWoo r with
      | error message => rfl
      | ok data => exact atomic_upsertBlock

def Db.withStored (db : Db) (stored : Stored) : Db :=
  { db with
    facts := stored.facts
    lastErrorCode := if stored.conflict then "SOURCE_REVISION_CONFLICT" else db.lastErrorCode }

theorem resultBlock_ok {r : WooRecord} {facts : Facts} {disposition : Disposition}
    (h : storeRecord sha256 connector now r db.facts = .ok (facts, disposition)) :
    resultBlock sha256 connector now r db =
      ⟨.ok ⟨r.sourceId, r.kind, .stored disposition, none⟩, { db with facts }⟩ := by
  have hrecord := @atomic_recordBlock sha256 connector now db r
  rw [h] at hrecord
  exact attempt_ok (Block.bind_ok hrecord)

theorem resultBlock_error {r : WooRecord} {refusal : Refusal}
    (h : storeRecord sha256 connector now r db.facts = .error refusal) :
    resultBlock sha256 connector now r db =
      ⟨.ok ⟨r.sourceId, r.kind, .rejected, some "INVALID_SOURCE_FACT"⟩,
        if refusal = sourceRevisionConflict then db.setError "SOURCE_REVISION_CONFLICT"
          else db⟩ := by
  have hrecord := @atomic_recordBlock sha256 connector now db r
  rw [h] at hrecord
  exact attempt_error (Block.bind_error hrecord)

theorem withStored_setError {stored : Stored} :
    (db.setError "SOURCE_REVISION_CONFLICT").withStored stored =
      db.withStored { stored with conflict := true } := by
  unfold Db.withStored Db.setError
  cases stored.conflict <;> rfl

theorem recordsBlock_eq (rs : List WooRecord) : recordsBlock sha256 connector now rs db =
    ⟨.ok ((storeRecords sha256 connector now rs db.facts).results,
        (storeRecords sha256 connector now rs db.facts).rejected),
      db.withStored (storeRecords sha256 connector now rs db.facts)⟩ := by
  induction rs generalizing db with
  | nil => rfl
  | cons r rs ih =>
    unfold recordsBlock storeRecords
    cases hr : storeRecord sha256 connector now r db.facts with
    | ok stored =>
      rw [Block.bind_ok (resultBlock_ok hr), Block.bind_ok ih]
      rfl
    | error refusal =>
      rw [Block.bind_ok (resultBlock_error hr)]
      by_cases hc : refusal = sourceRevisionConflict
      · rw [if_pos hc, Block.bind_ok ih]
        rw [withStored_setError]
        simp [Db.withStored, Stored.rejected, hc, Db.setError]
      · rw [if_neg hc, Block.bind_ok ih]
        simp [Db.withStored, Stored.rejected, hc]

/-- The tables hold the same rows. -/
structure Db.Same (db db' : Db) : Prop where
  lastErrorCode : db.lastErrorCode = db'.lastErrorCode
  facts : db.facts = db'.facts
  cursors : ∀ k, db.cursors.get k = db'.cursors.get k
  pages : db.pages = db'.pages
  intents : db.intents = db'.intents

/-- The tables that the end of a scan changes hold the same, but for the orders' cursor. -/
structure Db.Beside (db db' : Db) : Prop where
  cursors : ∀ k ≠ .wooOrders, db.cursors.get k = db'.cursors.get k
  pages : db.pages = db'.pages
  intents : db.intents = db'.intents

section Beside

variable {db' : Db} {cursor : Cursor} {start till : Instant} {k : ObjectClass}

@[simp] theorem invalidate_facts : (db.invalidate k).facts = db.facts := by
  unfold Db.invalidate
  split <;> rfl

@[simp] theorem invalidate_lastErrorCode :
    (db.invalidate k).lastErrorCode = db.lastErrorCode := by
  unfold Db.invalidate
  split <;> rfl

@[simp] theorem invalidate_intents : (db.invalidate k).intents = db.intents := by
  unfold Db.invalidate
  split <;> rfl

@[simp] theorem endScan_facts : (db.endScan now cursor start till).facts = db.facts := by
  unfold Db.endScan
  split_ifs <;> simp

@[simp] theorem endScan_lastErrorCode :
    (db.endScan now cursor start till).lastErrorCode = db.lastErrorCode := by
  unfold Db.endScan
  split_ifs <;> simp

@[simp] theorem endScan_intents : (db.endScan now cursor start till).intents = db.intents := by
  unfold Db.endScan
  split_ifs <;> simp

theorem reconcileLater_eq (reason : String) : db.reconcileLater connector reason =
    { db with intents := (db.reconcileLater connector reason).intents } := by
  unfold Db.reconcileLater
  cases connector.storeId with
  | none => rfl
  | some store =>
    dsimp only
    split <;> rfl

theorem reconcileLater_intents {reason : String} (h : db.intents = db'.intents) :
    (db.reconcileLater connector reason).intents =
      (db'.reconcileLater connector reason).intents := by
  unfold Db.reconcileLater
  cases connector.storeId with
  | none => exact h
  | some store =>
    dsimp only
    rw [h]
    split
    · exact h
    · rfl

theorem Db.Beside.invalidate (h : db.Beside db') :
    (db.invalidate k).Beside (db'.invalidate k) where
  cursors k' hk := by rw [get_invalidate, get_invalidate, h.cursors k' hk]
  pages := by simp only [invalidate_pages, h.pages]
  intents := by simp only [invalidate_intents, h.intents]

theorem Db.Beside.endScan (h : db.Beside db') :
    (db.endScan now cursor start till).Beside (db'.endScan now cursor start till) := by
  unfold Db.endScan
  split_ifs
  · refine ⟨fun k hk => ?_, h.pages, h.intents⟩
    have hrefunds : db.cursor now .wooRefunds = db'.cursor now .wooRefunds := by
      rw [Db.cursor, Db.cursor, h.cursors _ (by decide)]
    rw [Table.get_put, Table.get_put, h.cursors k hk, hrefunds]
  · exact h.invalidate
  · exact h

theorem endScan_withStored {stored : Stored} :
    (db.withStored stored).endScan now cursor start till =
      (db.endScan now cursor start till).withStored stored := by
  have hinvalidate : (db.withStored stored).invalidate .wooRefunds =
      (db.invalidate .wooRefunds).withStored stored := by
    unfold Db.invalidate
    cases hg : db.cursors.get .wooRefunds with
    | none =>
      simp only [Db.withStored, hg]
    | some c =>
      simp only [Db.withStored, hg]
  unfold Db.endScan
  split_ifs
  · rfl
  · exact hinvalidate
  · rfl

theorem Db.Beside.finish (h : db.Beside db') (he : db.lastErrorCode = db'.lastErrorCode)
    {saved : Cursor} (hs : saved.objectClass = .wooOrders) (stored : Stored) (reason : String)
    (page : BatchPage) {enqueued : Db} (hq : enqueued = ({ db.withStored stored with
      cursors := db.cursors.put saved } : Db).reconcileLater connector reason) :
    ({ enqueued with pages := enqueued.pages.put page } : Db).Same
      { db'.reconcileLater connector reason with
        lastErrorCode := if stored.conflict then "SOURCE_REVISION_CONFLICT" else db'.lastErrorCode
        facts := stored.facts
        cursors := db'.cursors.put saved
        pages := db'.pages.put page } := by
  have hintents : enqueued.intents = (db'.reconcileLater connector reason).intents :=
    hq ▸ reconcileLater_intents h.intents
  rw [reconcileLater_eq] at hq
  subst hq
  refine ⟨?_, rfl, fun k => ?_, ?_, hintents⟩
  · simp only [Db.withStored, he]
  · change (db.cursors.put saved).get k = (db'.cursors.put saved).get k
    rw [Table.get_put, Table.get_put, hs]
    split
    · rfl
    case isFalse hk => exact h.cursors k hk
  · change db.pages.put page = db'.pages.put page
    rw [h.pages]

end Beside

section Call

variable {e : Envelope} {start till : Instant} {cursor : Cursor} {refusal : Refusal}

theorem forPage_started : (db.cursor now .wooOrders).forPage now e start till =
    if (db.cursor now .wooOrders).scanId ≠ some e.scanId ∧
        (e.page ≠ 1 ∨ (db.cursor now .wooOrders).busy now) then .error sequenceConflict
    else if (db.started now e start till).Misplaced e start till then .error sequenceConflict
    else .ok (db.started now e start till) := rfl

theorem batchCall_refused (hnew : db.pages.get (e.scanId, e.page) = none)
    (hw : window now e = .ok (start, till))
    (h : (db.cursor now .wooOrders).forPage now e start till = .error refusal) :
    batchCall sha256 connector now e db = ⟨.error refusal, db⟩ := by
  rw [forPage_started] at h
  refine atomic_error ?_
  split_ifs at h with hs hplace
  · obtain rfl := Except.error.inj h
    simp only [acceptBlock, read_bind, write_bind, hnew, hw, if_pos hs]
    rfl
  · obtain rfl := Except.error.inj h
    simp only [acceptBlock, read_bind, write_bind, hnew, hw, if_neg hs, if_pos hplace]
    rfl

theorem batchCall_repeated {prior : BatchPage} (hp : db.pages.get (e.scanId, e.page) = some prior)
    (hh : prior.contentHash = pageHash sha256 e) : batchCall sha256 connector now e db =
      ⟨.ok { prior.result with requestId := e.requestId, serverTime := now }, db⟩ := by
  refine atomic_ok ?_
  simp only [acceptBlock, read_bind, hp, hh, ne_eq, not_true_eq_false, if_false]
  rfl

theorem acceptPage_facts : (acceptPage sha256 connector now e start till cursor db).1.facts =
    (storeRecords sha256 connector now e.records db.facts).facts := rfl

theorem acceptPage_results : (acceptPage sha256 connector now e start till cursor db).2.results =
    (storeRecords sha256 connector now e.records db.facts).results := rfl

theorem batchCall_admitted (ha : db.Admits now e start till cursor) : ∃ db',
    batchCall sha256 connector now e db =
        ⟨.ok (acceptPage sha256 connector now e start till cursor db).2, db'⟩ ∧
      db'.Same (acceptPage sha256 connector now e start till cursor db).1 := by
  have hplace := ha.place
  rw [forPage_started] at hplace
  split_ifs at hplace with hs hp
  obtain rfl := Except.ok.inj hplace
  have hrun : ∃ db', acceptBlock sha256 connector now e db =
      ⟨.ok (acceptPage sha256 connector now e start till (db.started now e start till) db).2, db'⟩ ∧
        db'.Same (acceptPage sha256 connector now e start till
          (db.started now e start till) db).1 := by
    simp only [acceptBlock, read_bind, write_bind, ha.new, ha.window, if_neg hs, if_neg hp]
    -- the tables before the records, in the statements and in the function
    generalize hopened : (if (db.cursor now .wooOrders).scanId = some e.scanId then
      ({ db with cursors := db.cursors.put (db.cursor now .wooOrders) } : Db)
      else ({ db with cursors := db.cursors.put (db.cursor now .wooOrders) } : Db).invalidate
        .wooRefunds) = opened
    have hbeside : opened.Beside (if (db.cursor now .wooOrders).scanId = some e.scanId then db
        else db.invalidate .wooRefunds) := by
      have hput : ({ db with cursors := db.cursors.put (db.cursor now .wooOrders) } : Db).Beside
          db := by
        refine ⟨fun k hk => ?_, rfl, rfl⟩
        rw [Table.get_put, cursor_objectClass, if_neg hk]
      rw [← hopened]
      split
      · exact hput
      · exact hput.invalidate
    have hfacts : opened.facts = db.facts := by
      rw [← hopened]
      split <;> simp
    have herror : opened.lastErrorCode = db.lastErrorCode := by
      rw [← hopened]
      split <;> simp
    rw [Block.bind_ok (recordsBlock_eq _), hfacts]
    simp only [write_bind, pure_apply]
    refine ⟨_, rfl, ?_⟩
    have hclass : ((db.started now e start till).afterPage now e start till
        (storeRecords sha256 connector now e.records db.facts).rejected).objectClass =
          .wooOrders := afterPage_objectClass.trans ha.objectClass
    unfold Cursor.afterPage at hclass
    unfold acceptPage
    dsimp only
    by_cases hfinal : e.finalPage = true
    · simp only [if_pos hfinal, endScan_withStored] at hclass ⊢
      have hends := @Db.Beside.endScan now _ _ ((db.started now e start till).afterRecords now
        (storeRecords sha256 connector now e.records db.facts).rejected) start till hbeside
      have hcode : ∀ c : Cursor, (opened.endScan now c start till).lastErrorCode =
          (Db.endScan now (if (db.cursor now .wooOrders).scanId = some e.scanId then db
            else db.invalidate .wooRefunds) c start till).lastErrorCode := by
        intro c
        rw [endScan_lastErrorCode, endScan_lastErrorCode, herror]
        split <;> simp
      exact hends.finish (hcode _) hclass (storeRecords sha256 connector now e.records db.facts)
        e.requestId _ rfl
    · simp only [if_neg hfinal] at hclass ⊢
      have hcode : opened.lastErrorCode = (if (db.cursor now .wooOrders).scanId = some e.scanId
          then db else db.invalidate .wooRefunds).lastErrorCode := by
        rw [herror]
        split <;> simp
      exact hbeside.finish hcode hclass (storeRecords sha256 connector now e.records db.facts)
        e.requestId _ rfl
  obtain ⟨db', hrun, hsame⟩ := hrun
  exact ⟨db', atomic_ok hrun, hsame⟩

/-- A call returns what the function returns, with the same rows, or raises what it raises and
leaves every table as it was. -/
theorem batchCall_eq (sha256 : String → String) (connector : Installation) (now : Instant)
    (e : Envelope) (db : Db) :
    (∃ refusal, acceptWooBatch sha256 connector now e db = .error refusal ∧
      batchCall sha256 connector now e db = ⟨.error refusal, db⟩) ∨
    ∃ db' result db'', acceptWooBatch sha256 connector now e db = .ok (db', result) ∧
      batchCall sha256 connector now e db = ⟨.ok result, db''⟩ ∧ db''.Same db' := by
  cases hp : db.pages.get (e.scanId, e.page) with
  | some prior =>
    by_cases hh : prior.contentHash = pageHash sha256 e
    · refine Or.inr ⟨db, _, db, ?_, batchCall_repeated hp hh, ⟨rfl, rfl, fun _ => rfl, rfl, rfl⟩⟩
      simp only [acceptWooBatch, hp, if_pos hh]
    · refine Or.inl ⟨.problem "SCAN_PAGE_CONTENT_CONFLICT" 409, ?_, atomic_error ?_⟩
      · simp only [acceptWooBatch, hp, if_neg hh]
      · simp only [acceptBlock, read_bind, hp, hh, ne_eq, not_false_eq_true, if_true]
        rfl
  | none =>
    cases hw : window now e with
    | error refusal =>
      refine Or.inl ⟨refusal, ?_, atomic_error ?_⟩
      · simp only [acceptWooBatch, hp, hw]
        rfl
      · simp only [acceptBlock, read_bind, hp, hw]
        rfl
    | ok w =>
      obtain ⟨start, till⟩ := w
      cases hc : (db.cursor now .wooOrders).forPage now e start till with
      | error refusal =>
        refine Or.inl ⟨refusal, ?_, batchCall_refused hp hw hc⟩
        simp only [acceptWooBatch, hp, hw]
        change ((db.cursor now .wooOrders).forPage now e start till >>= _) = _
        rw [hc]
        rfl
      | ok cursor =>
        have ha : db.Admits now e start till cursor := ⟨hp, hw, hc⟩
        obtain ⟨db'', hrun, hsame⟩ :=
          @batchCall_admitted sha256 connector now db e start till cursor ha
        exact Or.inr ⟨_, _, db'', acceptWooBatch_of_admits ha, hrun, hsame⟩

end Call

/-- `upsert` with the revision and the data of a record. -/
def upsertRecord (sha256 : String → String) (connector : Installation) (r : WooRecord)
    (facts : Facts) : Except Refusal (Facts × Disposition) :=
  match timestamp r.revision, normalizeWoo r with
  | some revision, .ok data => upsert sha256 connector r.kind r.sourceId revision data facts
  | none, _ => .error (.valueError "UTC timestamp required")
  | _, .error message => .error (.valueError message)

/-- Apply `upsert` to records in order, with what it reports for each. -/
def upsertAll (sha256 : String → String) (connector : Installation) :
    List WooRecord → Facts → Except Refusal (Facts × List Disposition)
  | [], facts => .ok (facts, [])
  | r :: rs, facts => do
    let (facts, disposition) ← upsertRecord sha256 connector r facts
    let (facts, dispositions) ← upsertAll sha256 connector rs facts
    .ok (facts, disposition :: dispositions)

/-- The records that their results report as accepted or duplicate. -/
def keptRecords (rs : List WooRecord) (results : List RecordResult) : List WooRecord :=
  ((rs.zip results).filter (·.2.status ≠ .rejected)).map Prod.fst

def RecordStatus.disposition : RecordStatus → Option Disposition
  | .stored disposition => some disposition
  | .rejected => none

def dispositions (results : List RecordResult) : List Disposition :=
  results.filterMap (·.status.disposition)

/-- The results tell the records one by one, and the facts are those of the kept records alone. -/
structure StoresKept (sha256 : String → String) (connector : Installation) (rs : List WooRecord)
    (facts facts' : Facts) (results : List RecordResult) : Prop where
  listed : results.map (fun x => (x.sourceId, x.kind)) = rs.map fun r => (r.sourceId, r.kind)
  stored : upsertAll sha256 connector (keptRecords rs results) facts =
    .ok (facts', dispositions results)

theorem upsertRecord_of_storeRecord {r : WooRecord} {facts : Facts} {x : Facts × Disposition}
    (h : storeRecord sha256 connector now r facts = .ok x) :
    upsertRecord sha256 connector r facts = .ok x := by
  unfold storeRecord at h
  unfold upsertRecord
  cases ht : timestamp r.revision with
  | none =>
    rw [ht] at h
    cases h
  | some revision =>
    rw [ht] at h
    dsimp only at h
    split_ifs at h
    cases hn : normalizeWoo r with
    | error message =>
      rw [hn] at h
      cases h
    | ok data =>
      rw [hn] at h
      exact h

theorem storeRecords_kept (sha256 : String → String) (connector : Installation) (now : Instant)
    (rs : List WooRecord) (facts : Facts) :
    StoresKept sha256 connector rs facts (storeRecords sha256 connector now rs facts).facts
      (storeRecords sha256 connector now rs facts).results := by
  induction rs generalizing facts with
  | nil => exact ⟨rfl, rfl⟩
  | cons r rs ih =>
    unfold storeRecords
    cases hr : storeRecord sha256 connector now r facts with
    | ok stored =>
      obtain ⟨facts', disposition⟩ := stored
      obtain ⟨hresults, hfacts⟩ := ih facts'
      refine ⟨?_, ?_⟩
      · rw [List.map_cons, List.map_cons, ← hresults]
      · change (upsertRecord sha256 connector r facts >>= _) = _
        rw [upsertRecord_of_storeRecord hr]
        change (upsertAll sha256 connector (keptRecords rs _) facts' >>= _) = _
        rw [hfacts]
        rfl
    | error refusal =>
      obtain ⟨hresults, hfacts⟩ := ih facts
      refine ⟨?_, hfacts⟩
      rw [List.map_cons, List.map_cons, ← hresults]

/-- A call with a page of a scan raises and leaves every table alone, repeats the answer to a page
that was accepted before, or accepts the page for the first time and stores exactly the records
that it reports as accepted or duplicate. -/
theorem page_stores_kept (sha256 : String → String) (connector : Installation) (now : Instant)
    (e : Envelope) (db : Db) :
    (∃ refusal, batchCall sha256 connector now e db = ⟨.error refusal, db⟩) ∨
    (∃ prior, db.pages.get (e.scanId, e.page) = some prior ∧
      prior.contentHash = pageHash sha256 e ∧ batchCall sha256 connector now e db =
        ⟨.ok { prior.result with requestId := e.requestId, serverTime := now }, db⟩) ∨
    ∃ result db', db.pages.get (e.scanId, e.page) = none ∧
      batchCall sha256 connector now e db = ⟨.ok result, db'⟩ ∧
      StoresKept sha256 connector e.records db.facts db'.facts result.results := by
  rcases batchCall_eq sha256 connector now e db with ⟨refusal, -, hcall⟩ |
    ⟨db', result, db'', haccept, hcall, hsame⟩
  · exact Or.inl ⟨refusal, hcall⟩
  · rcases acceptWooBatch_ok haccept with ⟨prior, hp, hh, -, -⟩ | ⟨start, till, cursor, ha, heq⟩
    · exact Or.inr (Or.inl ⟨prior, hp, hh, batchCall_repeated hp hh⟩)
    · refine Or.inr (Or.inr ⟨result, db'', ha.1, hcall, ?_⟩)
      obtain ⟨rfl, rfl⟩ := Prod.mk.inj heq
      rw [hsame.facts]
      exact storeRecords_kept sha256 connector now e.records db.facts

def orderVersion (revision status : String) : WooRecord := .order
  { sourceId := "1", revision, createdAt := "2026-09-05T10:00:00Z", status, amount := "129.95"
    totalRefunded := "0.00", currency := "EUR", paymentMethod := "stripe", transactionId := "pi_1"
    stripeIds := { paymentIntent := some "pi_1" } }

/-- The order goes back to an earlier content, and the version between arrives late. -/
def returningPage : Envelope :=
  { recentPage with
    records := [orderVersion "2026-09-05T11:01:00Z" "processing",
      orderVersion "2026-09-05T11:03:00Z" "processing",
      orderVersion "2026-09-05T11:02:00Z" "on-hold"] }

def returningCursor : Cursor :=
  ({} : Db).started noon returningPage (noon - minutes 60) noon

def returningStored (sha256 : String → String) : Stored :=
  storeRecords sha256 shop noon returningPage.records {}

section Returning

variable {facts : Facts} {revision status : String} {t : Instant}

theorem normalize_orderVersion :
    normalizeWoo (orderVersion revision status) = .ok (orderData status) := by
  have hamount : parseWoo "129.95" "EUR" =
      .ok ⟨12995, "EUR", 2, by decide, by decide +kernel⟩ := by decide +kernel
  have hzero : parseWoo "0.00" "EUR" = .ok ⟨0, "EUR", 2, by decide, by decide +kernel⟩ := by
    decide +kernel
  simp only [orderVersion, normalizeWoo, hamount, hzero]
  rfl

theorem storeRecord_orderVersion (ht : timestamp revision = some t)
    (hle : ¬ noon + seconds 120 < t) :
    storeRecord sha256 shop noon (orderVersion revision status) facts =
      upsert sha256 shop .order "1" t (orderData status) facts := by
  change (match timestamp revision with | none => _ | some revision => _) = _
  rw [ht]
  simp only [if_neg hle, normalize_orderVersion]
  rfl

theorem upsertRecord_orderVersion (ht : timestamp revision = some t) :
    upsertRecord sha256 shop (orderVersion revision status) facts =
      upsert sha256 shop .order "1" t (orderData status) facts := by
  change (match timestamp revision, normalizeWoo _ with
    | some revision, .ok data => _ | none, _ => _ | _, .error _ => _) = _
  rw [ht, normalize_orderVersion]
  rfl

theorem timestamp_versions : timestamp "2026-09-05T11:01:00Z" = some (noon - minutes 59) ∧
    timestamp "2026-09-05T11:02:00Z" = some (noon - minutes 58) ∧
    timestamp "2026-09-05T11:03:00Z" = some (noon - minutes 57) := by
  decide +kernel

variable (hne : contentHash sha256 (orderData "on-hold") ≠
  contentHash sha256 (orderData "processing"))

include hne

theorem returning_stored : (returningStored sha256).results =
      [⟨"1", .order, .stored .accepted, none⟩, ⟨"1", .order, .stored .duplicate, none⟩,
        ⟨"1", .order, .stored .accepted, none⟩] ∧
    ((returningStored sha256).facts.projections.get (.order, "1")).map Projection.status =
      some "on-hold" := by
  have hearlier : ¬ noon - minutes 58 < noon - minutes 59 := by decide
  have hother : noon - minutes 58 ≠ noon - minutes 59 := by decide
  obtain ⟨htime, htime', htime''⟩ := timestamp_versions
  have hstored := fun facts status => @storeRecord_orderVersion sha256 facts _ status _
    htime (by decide)
  have hstored' := fun facts status => @storeRecord_orderVersion sha256 facts _ status _
    htime' (by decide)
  have hstored'' := fun facts status => @storeRecord_orderVersion sha256 facts _ status _
    htime'' (by decide)
  unfold returningStored returningPage
  constructor
  · simp [storeRecords, hstored, hstored', hstored'', upsert, orderData_times,
      Facts.observe, Projection.create, Projection.save, Projection.update, Projection.assign,
      Table.get_put, Table.get_empty, Observation.key, Projection.key, hne, hne.symm, hearlier,
      hother]
    exact ⟨⟨rfl, rfl⟩, ⟨rfl, rfl⟩, rfl, rfl⟩
  · simp [storeRecords, hstored, hstored', hstored'', upsert, orderData_times,
      Facts.observe, Projection.create, Projection.save, Projection.update, Projection.assign,
      Table.get_put, Table.get_empty, Observation.key, Projection.key, hne, hne.symm, hearlier,
      hother]
    rfl

theorem returning_again : (upsertAll sha256 shop returningPage.records
      (returningStored sha256).facts).map
      (fun x => (x.1.projections.get (.order, "1")).map Projection.status) =
    .ok (some "processing") := by
  have hearlier : ¬ noon - minutes 58 < noon - minutes 59 := by decide
  have hother : noon - minutes 58 ≠ noon - minutes 59 := by decide
  have hfirst : noon - minutes 59 < noon - minutes 58 := by decide
  have hlast : noon - minutes 58 < noon - minutes 57 := by decide
  have hnewer : ¬ noon - minutes 57 < noon - minutes 58 := by decide
  obtain ⟨htime, htime', htime''⟩ := timestamp_versions
  have hstored := fun facts status => @storeRecord_orderVersion sha256 facts _ status _
    htime (by decide)
  have hstored' := fun facts status => @storeRecord_orderVersion sha256 facts _ status _
    htime' (by decide)
  have hstored'' := fun facts status => @storeRecord_orderVersion sha256 facts _ status _
    htime'' (by decide)
  have hupsert := fun facts status => @upsertRecord_orderVersion sha256 facts _ status _
    htime
  have hupsert' := fun facts status => @upsertRecord_orderVersion sha256 facts _ status _
    htime'
  have hupsert'' := fun facts status => @upsertRecord_orderVersion sha256 facts _ status _
    htime''
  unfold returningStored returningPage
  simp [storeRecords, hstored, hstored', hstored'', upsertAll, Bind.bind, Except.bind, Except.map,
    hupsert, hupsert', hupsert'', upsert, orderData_times, Facts.observe, Projection.create,
    Projection.save, Projection.update, Projection.assign, Table.get_put, Table.get_empty,
    Observation.key, Projection.key, hne, hne.symm, hearlier, hother, hfirst, hlast, hlast.ne',
    hnewer]
  rfl

end Returning

/-- A page that is sent again stores nothing, while its records, all of them kept, would now be
stored with another outcome. -/
theorem repeated_page_not_stored : ∃ first db result,
    batchCall Sha256.hexdigest shop noon returningPage {} = ⟨.ok first, db⟩ ∧
    batchCall Sha256.hexdigest shop noon returningPage db = ⟨.ok result, db⟩ ∧
    keptRecords returningPage.records result.results = returningPage.records ∧
    (db.facts.projections.get (.order, "1")).map Projection.status = some "on-hold" ∧
    (upsertAll Sha256.hexdigest shop returningPage.records db.facts).map
        (fun x => (x.1.projections.get (.order, "1")).map Projection.status) =
      .ok (some "processing") := by
  have hadmits : ({} : Db).Admits noon returningPage (noon - minutes 60) noon returningCursor :=
    ⟨rfl, by decide +kernel, by decide +kernel⟩
  obtain ⟨db, hfirst, hsame⟩ :=
    @batchCall_admitted Sha256.hexdigest shop noon {} _ _ _ _ hadmits
  have hprior : ∃ prior, db.pages.get (returningPage.scanId, returningPage.page) = some prior ∧
      prior.contentHash = pageHash Sha256.hexdigest returningPage ∧
      prior.result.results = (returningStored Sha256.hexdigest).results := by
    rw [hsame.pages, acceptPage_pages]
    exact ⟨_, Table.get_put.trans (if_pos rfl), rfl,
      @acceptPage_results Sha256.hexdigest shop noon {} returningPage _ noon returningCursor⟩
  obtain ⟨prior, hp, hh, hresults⟩ := hprior
  obtain ⟨hkept, hstatus⟩ := returning_stored contentHash_orderData
  have hfacts : db.facts = (returningStored Sha256.hexdigest).facts :=
    hsame.facts.trans acceptPage_facts
  refine ⟨_, db, _, hfirst, batchCall_repeated hp hh, ?_, ?_, ?_⟩
  · change keptRecords returningPage.records prior.result.results = _
    rw [hresults, hkept]
    decide
  · rw [hfacts]
    exact hstatus
  · rw [hfacts]
    exact returning_again contentHash_orderData

end LedgerGuard.Ingestion
