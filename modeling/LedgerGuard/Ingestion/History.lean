import LedgerGuard.Ingestion.Batch
import LedgerGuard.Lib.Transition

/-! # The pages a server accepted

Any sequence of calls of `accept_woo_batch` for one connector, with the pages it
accepted for the first time. A scan has a first page, no page after its last,
and a cursor that fails with the first rejected record.
-/

namespace LedgerGuard.Ingestion

open Transition

structure Accepted where
  envelope : Envelope
  result : BatchResult
  deriving DecidableEq

def Accepted.rejected (a : Accepted) : Bool := a.result.results.any (·.status = .rejected)

/-- The tables of a connector and the pages it accepted, oldest first; a replay is not one. -/
structure Server where
  db : Db := {}
  accepted : List Accepted := []

section

variable (sha256 : String → String) (connector : Installation)

def Server.receive (s : Server) (now : Instant) (e : Envelope) :
    Except Refusal (Server × BatchResult) :=
  (acceptWooBatch sha256 connector now e s.db).map fun (db, result) =>
    (⟨db, if (s.db.pages.get (e.scanId, e.page)).isSome then s.accepted
      else s.accepted ++ [⟨e, result⟩]⟩, result)

/-- The server after a call; one that raises leaves the tables as they were. -/
def Server.next (s : Server) (call : Instant × Envelope) : Server :=
  (s.receive sha256 connector call.1 call.2).toOption.elim s Prod.fst

def batchStep (s : Server) (call : Instant × Envelope) (s' : Server) : Prop :=
  s' = s.next sha256 connector call

end

variable {sha256 : String → String} {connector : Installation} {now : Instant} {e : Envelope}
  {s s' : Server} {cursor c : Cursor} {start till : Instant}

def Server.withPage (s : Server) (sha256 : String → String) (connector : Installation)
    (now : Instant) (e : Envelope) (start till : Instant) (cursor : Cursor) : Server :=
  ⟨(acceptPage sha256 connector now e start till cursor s.db).1,
    s.accepted ++ [⟨e, (acceptPage sha256 connector now e start till cursor s.db).2⟩]⟩

theorem batchStep_cases (h : batchStep sha256 connector s (now, e) s') :
    (s' = s ∧ ∀ start till cursor, ¬ s.db.Admits now e start till cursor) ∨
    ∃ start till cursor, s.db.Admits now e start till cursor ∧
      s' = s.withPage sha256 connector now e start till cursor := by
  unfold batchStep Server.next Server.receive at h
  cases hr : acceptWooBatch sha256 connector now e s.db with
  | error r =>
    rw [hr] at h
    refine Or.inl ⟨h, fun start till cursor ha => ?_⟩
    rw [acceptWooBatch_of_admits ha] at hr
    cases hr
  | ok r =>
    obtain ⟨db, result⟩ := r
    rw [hr] at h
    rcases acceptWooBatch_ok hr with ⟨prior, hp, -, rfl, -⟩ | ⟨start, till, cursor, ha, he⟩
    · rw [hp] at h
      refine Or.inl ⟨h, fun start till cursor ha => ?_⟩
      rw [ha.new] at hp
      cases hp
    · rw [ha.new] at h
      refine Or.inr ⟨start, till, cursor, ha, ?_⟩
      unfold Server.withPage
      rw [← he]
      exact h

/-- The cursor is in a scan whose pages it accounts for: its failure is a rejected record, and
none of its pages was the last. -/
structure Server.Tracks (s : Server) (scanId : String) (scanFailed : Bool) : Prop where
  failed : scanFailed = true ↔ ∃ a ∈ s.accepted, a.envelope.scanId = scanId ∧ a.rejected = true
  unfinished : ∀ a ∈ s.accepted, a.envelope.scanId = scanId → a.envelope.finalPage = false

/-- Every scan has its first page, and the current scan is tracked. -/
structure Server.Consistent (s : Server) : Prop where
  first : ∀ a ∈ s.accepted, (s.db.pages.get (a.envelope.scanId, 1)).isSome
  started : ∀ c scan, s.db.cursors.get .wooOrders = some c → c.scanId = some scan →
    (s.db.pages.get (scan, 1)).isSome
  current : ∀ c scan, s.db.cursors.get .wooOrders = some c → c.scanId = some scan →
    s.Tracks scan c.scanFailed

theorem consistent_empty : ({} : Server).Consistent := by
  refine ⟨fun _ ha => absurd ha List.not_mem_nil, fun c scan hc => ?_, fun c scan hc => ?_⟩
  · cases hc
  · cases hc

theorem mem_withPage {a : Accepted} :
    a ∈ (s.withPage sha256 connector now e start till cursor).accepted ↔ a ∈ s.accepted ∨
      a = ⟨e, (acceptPage sha256 connector now e start till cursor s.db).2⟩ := by
  simp [Server.withPage]

theorem Server.Consistent.tracks (hs : s.Consistent) (ha : s.db.Admits now e start till cursor) :
    cursor.scanId = some e.scanId ∧ s.Tracks e.scanId cursor.scanFailed := by
  rcases (forPage_ok ha.place).1 with ⟨hid, rfl⟩ | ⟨hid, hp, rfl⟩
  · cases hg : s.db.cursors.get .wooOrders with
    | none =>
      simp only [Db.cursor, hg, Option.getD_none] at hid
      cases hid
    | some c =>
      have hc : s.db.cursor now .wooOrders = c := by rw [Db.cursor, hg, Option.getD_some]
      rw [hc] at hid ⊢
      exact ⟨hid, hs.current c _ hg hid⟩
  · -- The first page of this scan is new, so the server has none of its pages.
    have hnone : ∀ a ∈ s.accepted, a.envelope.scanId ≠ e.scanId := by
      intro a ham hae
      have hf := hs.first a ham
      rw [hae, ← hp, ha.new] at hf
      cases hf
    refine ⟨rfl, ⟨?_, fun a ham hae => absurd hae (hnone a ham)⟩⟩
    refine iff_of_false Bool.false_ne_true ?_
    rintro ⟨a, ham, hae, -⟩
    exact hnone a ham hae

theorem Server.Consistent.failed_withPage (hs : s.Consistent) (sha256 : String → String)
    (connector : Installation) (ha : s.db.Admits now e start till cursor) :
    (cursor.scanFailed || (storeRecords sha256 connector now e.records s.db.facts).rejected) =
        true ↔
      ∃ a ∈ (s.withPage sha256 connector now e start till cursor).accepted,
        a.envelope.scanId = e.scanId ∧ a.rejected = true := by
  rw [Bool.or_eq_true, (hs.tracks ha).2.failed]
  constructor
  · rintro (⟨a, ham, h⟩ | h)
    · exact ⟨a, mem_withPage.mpr (Or.inl ham), h⟩
    · exact ⟨_, mem_withPage.mpr (Or.inr rfl), rfl, h⟩
  · rintro ⟨a, ham, hae, hr⟩
    rcases mem_withPage.mp ham with ham | rfl
    · exact Or.inl ⟨a, ham, hae, hr⟩
    · exact Or.inr hr

theorem withPage_pages (k : String × ℕ) :
    (s.withPage sha256 connector now e start till cursor).db.pages.get k =
      if k = (e.scanId, e.page) then
        some ⟨e.scanId, e.page, pageHash sha256 e,
          (acceptPage sha256 connector now e start till cursor s.db).2⟩
      else s.db.pages.get k := by
  unfold Server.withPage
  rw [acceptPage_pages, Table.get_put]
  rfl

theorem first_withPage (hs : s.Consistent) (ha : s.db.Admits now e start till cursor)
    {scan : String} (h : (s.db.pages.get (scan, 1)).isSome ∨ scan = e.scanId) :
    ((s.withPage sha256 connector now e start till cursor).db.pages.get (scan, 1)).isSome := by
  rw [withPage_pages]
  split
  · rfl
  · rename_i hk
    rcases h with h | rfl
    · exact h
    · rcases (forPage_ok ha.place).1 with ⟨hid, -⟩ | ⟨-, hp, -⟩
      · cases hg : s.db.cursors.get .wooOrders with
        | none =>
          simp only [Db.cursor, hg, Option.getD_none] at hid
          cases hid
        | some c =>
          rw [Db.cursor, hg, Option.getD_some] at hid
          exact hs.started c _ hg hid
      · exact absurd (by rw [hp]) hk

theorem afterPage_scanId {rejected : Bool} {scan : String}
    (h : (cursor.afterPage now e start till rejected).scanId = some scan) :
    e.finalPage = false ∧ cursor.scanId = some scan := by
  unfold Cursor.afterPage at h
  split at h
  · cases h
  · exact ⟨by simpa using ‹¬ e.finalPage = true›, h⟩

theorem afterPage_scanFailed {rejected : Bool} :
    (cursor.afterPage now e start till rejected).scanFailed = (cursor.scanFailed || rejected) := by
  unfold Cursor.afterPage Cursor.endScan
  split
  · split
    · rfl
    · split <;> rfl
  · rfl

theorem Server.Consistent.withPage (hs : s.Consistent)
    (ha : s.db.Admits now e start till cursor) :
    (s.withPage sha256 connector now e start till cursor).Consistent := by
  have hget := acceptPage_orders sha256 connector ha
  obtain ⟨hid, ht⟩ := hs.tracks ha
  refine ⟨fun a ham => ?_, fun c scan hc hsc => ?_, fun c scan hc hsc => ?_⟩
  · rcases mem_withPage.mp ham with ham | rfl
    · exact first_withPage hs ha (Or.inl (hs.first a ham))
    · exact first_withPage hs ha (Or.inr rfl)
  · obtain rfl := Option.some.inj (hget.symm.trans hc)
    have hscan := Option.some.inj (hid.symm.trans (afterPage_scanId hsc).2)
    exact first_withPage hs ha (Or.inr hscan.symm)
  · obtain rfl := Option.some.inj (hget.symm.trans hc)
    obtain ⟨hfin, hscan⟩ := afterPage_scanId hsc
    obtain rfl := Option.some.inj (hid.symm.trans hscan)
    refine ⟨?_, fun a ham hae => ?_⟩
    · rw [afterPage_scanFailed]
      exact hs.failed_withPage _ _ ha
    · rcases mem_withPage.mp ham with ham | rfl
      · exact ht.unfinished a ham hae
      · exact hfin

theorem consistent_step {call : Instant × Envelope} (hs : s.Consistent)
    (h : batchStep sha256 connector s call s') : s'.Consistent := by
  rcases batchStep_cases h with ⟨rfl, -⟩ | ⟨start, till, cursor, ha, rfl⟩
  · exact hs
  · exact hs.withPage ha

end LedgerGuard.Ingestion
