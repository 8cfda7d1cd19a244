import LedgerGuard.Access.Retention
import LedgerGuard.Core.Fixtures
import LedgerGuard.Lib.Raising
import LedgerGuard.Lib.Transition

/-! # Cleanups that are rolled back

Rows are written at the time of the clock and refer to rows that are there; cleanups
run in between. Of all the deletions of a cleanup only that of the audit rows can be
refused: by an alert about an old audit row that is itself not old enough to have
been deleted before.
-/

namespace LedgerGuard.Retention

open References Transition

/-- Writes of the application at one time: rows are inserted under new ids, refer to rows that
exist, and are deleted by cleanups only. -/
inductive Write (now : Instant) (db : Db) : Db → Prop
  | audit (id : ℕ) (hid : ∀ a ∈ db.auditLogs, a.id ≠ id) :
      Write now db { db with auditLogs := db.auditLogs ++ [⟨id, now⟩] }
  /-- A delivery of `security`. -/
  | security (a : AuditLog) (ha : a ∈ db.auditLogs) :
      Write now db { db with deliveries := db.deliveries ++ [⟨now, .securityEvent a.id⟩] }
  /-- A delivery of `prepare`. -/
  | prepare (e : FindingEvent) (he : e ∈ db.events) :
      Write now db { db with deliveries := db.deliveries ++ [⟨now, .event e.id⟩] }
  /-- A delivery of `digest`. -/
  | digest (key : String) :
      Write now db { db with deliveries := db.deliveries ++ [⟨now, .digest key⟩] }
  | run (id : ℕ) (hid : ∀ r ∈ db.runs, r.id ≠ id) :
      Write now db { db with runs := db.runs ++ [⟨id, now⟩] }
  | event (e : FindingEvent) (hid : ∀ e' ∈ db.events, e'.id ≠ e.id)
      (hfinding : ∃ f ∈ db.findings, f.findingKey = e.finding)
      (hrun : ∀ k, e.run = some k → ∃ r ∈ db.runs, r.id = k) :
      Write now db { db with events := db.events ++ [e] }
  /-- Findings are created and updated, under the keys they have. -/
  | findings (saved : List Finding)
      (hkeys : ∀ f ∈ db.findings, ∃ g ∈ saved, g.findingKey = f.findingKey) :
      Write now db { db with findings := saved }
  | observation (id : ℕ) (hid : ∀ o ∈ db.observations, o.id ≠ id) :
      Write now db { db with observations := db.observations ++ [⟨id, now⟩] }
  | projections (saved : List Projection)
      (hobservation : ∀ p ∈ saved, ∃ o ∈ db.observations, o.id = p.observation) :
      Write now db { db with projections := saved }
  /-- Whatever happens to the settings and to the tables that nothing refers to. -/
  | other (db' : Db) (hdeliveries : db'.deliveries = db.deliveries)
      (hfindings : db'.findings = db.findings) (hevents : db'.events = db.events)
      (hruns : db'.runs = db.runs) (hprojections : db'.projections = db.projections)
      (hobservations : db'.observations = db.observations)
      (haudit : db'.auditLogs = db.auditLogs) : Write now db db'

/-- The tables, and the last time that the clock showed. -/
structure World where
  clock : Instant
  db : Db

inductive Act
  | wrote
  | retained (now : Instant)
  | rolledBack (now : Instant)

inductive Step (bucket : Bool) (w : World) : Act → World → Prop
  | wrote {now db'} (hclock : w.clock ≤ now) (h : Write now w.db db') :
      Step bucket w .wrote ⟨now, db'⟩
  | retained {now db'} (hclock : w.clock ≤ now) (h : retain bucket now w.db = .ok db') :
      Step bucket w (.retained now) ⟨now, db'⟩
  | rolledBack {now e} (hclock : w.clock ≤ now) (h : retain bucket now w.db = .error e) :
      Step bucket w (.rolledBack now) ⟨now, w.db⟩

/-- The organization of a run when it is created. -/
def World.initial (clock : Instant) (organization : Organization) : World :=
  ⟨clock, { organization }⟩

section Runs

variable {now clock : Instant} {organization : Organization} {bucket : Bool} {db db' : Db}
  {w w' : World} {act : Act} {acts : List Act}

theorem append_subset {α : Type} {rows : List α} {r : α} : rows ⊆ rows ++ [r] :=
  List.subset_append_left _ _

theorem Write.intact (hdb : db.Intact) (h : Write now db db') : db'.Intact := by
  obtain ⟨hfinding, hrun, hevent, haudit, hobservation⟩ := hdb
  cases h with
  | audit => exact ⟨hfinding, hrun, hevent, haudit.mono append_subset (List.Subset.refl _),
      hobservation⟩
  | security a ha =>
    refine ⟨hfinding, hrun, hevent.append nofun, haudit.append ?_, hobservation⟩
    intro k hk
    exact ⟨a, ha, Option.some.inj hk⟩
  | prepare e he =>
    refine ⟨hfinding, hrun, hevent.append ?_, haudit.append nofun, hobservation⟩
    intro k hk
    exact ⟨e, he, Option.some.inj hk⟩
  | digest => exact ⟨hfinding, hrun, hevent.append nofun, haudit.append nofun, hobservation⟩
  | run => exact ⟨hfinding, hrun.mono append_subset (List.Subset.refl _), hevent, haudit,
      hobservation⟩
  | event e _ hf hr =>
    refine ⟨hfinding.append ?_, hrun.append hr,
      hevent.mono append_subset (List.Subset.refl _), haudit, hobservation⟩
    intro k hk
    exact Option.some.inj hk ▸ hf
  | findings saved hkeys =>
    refine ⟨?_, hrun, hevent, haudit, hobservation⟩
    intro e he k hk
    obtain ⟨f, hf, rfl⟩ := hfinding e he k hk
    exact hkeys f hf
  | observation => exact ⟨hfinding, hrun, hevent, haudit,
      hobservation.mono append_subset (List.Subset.refl _)⟩
  | projections saved ho =>
    refine ⟨hfinding, hrun, hevent, haudit, ?_⟩
    intro p hp k hk
    exact Option.some.inj hk ▸ ho p hp
  | other _ h₁ h₂ h₃ h₄ h₅ h₆ h₇ =>
    constructor <;> simp only [h₁, h₂, h₃, h₄, h₅, h₆, h₇] <;> assumption

theorem intact_of_run (h : Run (Step bucket) (World.initial clock organization) acts w) :
    w.db.Intact := by
  apply h.invariant_state (I := fun w => w.db.Intact)
  · constructor <;> exact nofun
  · intro w act w' hw hstep
    cases hstep with
    | wrote _ h => exact h.intact hw
    | retained _ h => exact retain_intact hw h
    | rolledBack => exact hw

/-- No alert about an audit row of more than 400 days is younger than the retention period. -/
def Clear (now : Instant) (db : Db) : Prop :=
  ∀ a ∈ db.auditLogs, ∀ d ∈ db.deliveries, d.subject = .securityEvent a.id →
    a.createdAt < now - days 400 → d.createdAt < db.cutoff now

theorem securityEvent_eq_some {d : EmailDelivery} {id : ℕ} :
    d.securityEvent = some id ↔ d.subject = .securityEvent id := by
  unfold EmailDelivery.securityEvent
  cases d.subject <;> simp

theorem mem_beforeAudit_deliveries {d : EmailDelivery} {id : ℕ}
    (hd : d.subject = .securityEvent id) : d ∈ (db.beforeAudit now).deliveries ↔
      d ∈ db.deliveries ∧ ¬ d.createdAt < db.cutoff now := by
  have hevent : d.event = none := by rw [EmailDelivery.event, hd]
  change d ∈ cascade FindingEvent.id EmailDelivery.event _ db.events
    (delete (fun d => d.event = none && d.createdAt < db.cutoff now) db.deliveries) ↔ _
  rw [mem_cascade, mem_delete]
  simp [hevent]

theorem retain_completes_iff : (∃ db', retain bucket now db = .ok db') ↔ Clear now db := by
  have hfree : (∀ a ∈ db.auditLogs, a.createdAt < now - days 400 →
      referenced AuditLog.id EmailDelivery.securityEvent (db.beforeAudit now).deliveries a =
        false) ↔ Clear now db := by
    simp only [Clear, ← Bool.not_eq_true, referenced_iff, not_exists, not_and,
      securityEvent_eq_some]
    constructor
    · intro h a ha d hd hs hold
      by_contra hnew
      exact h a ha hold d ((mem_beforeAudit_deliveries hs).mpr ⟨hd, hnew⟩) hs
    · intro h a ha hold d hd hs
      obtain ⟨hd, hnew⟩ := (mem_beforeAudit_deliveries hs).mp hd
      exact hnew (h a ha d hd hs hold)
  rw [← hfree]
  constructor
  · rintro ⟨db', h⟩
    exact (retain_ok h).1
  · intro h
    rw [retain_eq, expireAudit_ok.mpr ⟨h, rfl⟩]
    exact ⟨_, rfl⟩

/-- The cleanups that a step starts find a clear state. -/
def Clears (w : World) (act : Act) : Prop :=
  ∀ now, act = .retained now ∨ act = .rolledBack now → Clear now w.db

/-- In the states of a run a cleanup completes exactly if no alert that is still in its retention
period is about an audit row of more than 400 days; runs of such cleanups roll none back. -/
theorem cleanups_complete_iff (bucket : Bool) (clock : Instant) (organization : Organization) :
    (∀ acts w, Run (Step bucket) (World.initial clock organization) acts w → ∀ now,
      w.clock ≤ now → ((∃ db', retain bucket now w.db = .ok db') ↔ Clear now w.db)) ∧
    ∀ acts w, Run (Guarded (Step bucket) Clears) (World.initial clock organization) acts w →
      ∀ now, .rolledBack now ∉ acts := by
  constructor
  · intro acts w _ now _
    exact retain_completes_iff
  · intro acts w h
    apply h.invariant (I := fun acts _ => ∀ now, .rolledBack now ∉ acts)
    · exact nofun
    · rintro acts w act w' hacts ⟨hclear, hstep⟩ now hmem
      rcases List.mem_append.mp hmem with hmem | hmem
      · exact hacts now hmem
      · obtain rfl := List.mem_singleton.mp hmem
        cases hstep with
        | rolledBack hclock h =>
          obtain ⟨db', hok⟩ := (@retain_completes_iff now bucket w.db).mpr
            (hclear now (Or.inr rfl))
          rw [hok] at h
          cases h

end Runs

def alertedDb : Db where
  auditLogs := [⟨1, noon⟩]
  deliveries := [⟨noon + seconds 1, .securityEvent 1⟩]

/-- For a second, four hundred days later, the alert keeps the cleanup from completing. -/
theorem alert_blocks_cleanup : ∃ acts w, Run (Step true) (World.initial noon {}) acts w ∧
    ∃ now, w.clock ≤ now ∧ ¬ ∃ db', retain true now w.db = .ok db' := by
  have haudit : Step true (World.initial noon {}) .wrote ⟨noon, { auditLogs := [⟨1, noon⟩] }⟩ :=
    .wrote (le_refl _) (.audit 1 nofun)
  have halert : Step true ⟨noon, { auditLogs := [⟨1, noon⟩] }⟩ .wrote
      ⟨noon + seconds 1, alertedDb⟩ :=
    .wrote (by decide) (.security ⟨1, noon⟩ (by simp))
  refine ⟨_, _, (Run.nil.snoc haudit).snoc halert, noon + seconds 1 + days 400, by decide, ?_⟩
  rintro ⟨db', h⟩
  have hraises : (retain true (noon + seconds 1 + days 400) alertedDb).isOk = false := by
    decide +kernel
  rw [h] at hraises
  cases hraises

end LedgerGuard.Retention
