import LedgerGuard.Core.CleanEvidence
import LedgerGuard.Findings.Completion
import LedgerGuard.Findings.Resolution

/-! # Runs between other transactions

A call reads its clock, waits for the rows that it locks, and then works on what is
committed. A run that waited judges newer cursors and findings with its older clock;
a run that nothing overtook judges as it would at the moment it reads.
-/

namespace LedgerGuard

open Ingestion Transition Raising

inductive World.Call
  | reconcile
  | acceptWooBatch (envelope : Envelope)
  | advanceStripeCoverage (start till : Instant)
  deriving DecidableEq

/-- The rows beside cursors and findings that a run reads; other transactions write them. -/
structure World.Rows where
  storeActive : Bool := true
  settings : Settings := {}
  shopActive : Bool := true
  shopOffset : ℤ := 0
  /-- The link with the row and the facts of its account; the cursors are a table of their own. -/
  link : Option StoreLink := none
  linkedOrders : List (String × String) := []

/-- The clock, the calls that wait with the clock they read, and the tables. -/
structure World where
  time : Instant
  waiting : List (World.Call × Instant) := []
  rows : World.Rows := {}
  shop : Ingestion.Db := {}
  stripe : Ingestion.Db := {}
  db : Db := {}

namespace World

def sources (w : World) : Sources where
  link := w.rows.link.map fun l => { l with stripe.cursors := w.stripe.cursors }
  woo :=
    if w.rows.shopActive then
      some { clockOffsetSeconds := w.rows.shopOffset
             cursors := w.shop.cursors
             projections := w.shop.facts.projections }
    else none
  linkedOrders := w.rows.linkedOrders

def coverage (w : World) : List Coverage :=
  w.sources.woo.elim [] Connector.coverage ++ w.sources.stripe.elim [] Connector.coverage

end World

/-- The columns of a store that the run records. -/
def StoreRow.columns (store : StoreRow) : Store where
  id := store.id
  mode := store.mode
  policyVersion := store.settings.policyVersion
  shadowRules := store.settings.shadowRules

namespace World

section

variable (sha256 : String → String) (observationId : Observation → String)
  (connector : Installation) (store : StoreRow)

def storeRow (w : World) : StoreRow := { store with settings := w.rows.settings }

/-- `reconcile` once it has the lock, with the clock that it read before. -/
def reconcile (w : World) (clock : Instant) : Except String Db := do
  if w.rows.storeActive then
    let snapshot ← buildSnapshot observationId (w.storeRow store) w.sources clock
    let result ← evaluateInRange sha256 snapshot
    return recordRun sha256 clock (w.storeRow store).columns snapshot.coverage result w.db
  else .error "Store matching query does not exist."

def execute (w : World) (clock : Instant) : Call → World
  | .reconcile =>
    { w with db := (w.reconcile sha256 observationId store clock).toOption.getD w.db }
  | .acceptWooBatch e =>
    { w with
      shop := (acceptWooBatch sha256 connector clock e w.shop).toOption.elim w.shop Prod.fst }
  | .advanceStripeCoverage start till =>
    { w with stripe := (advanceStripeCoverage clock start till w.stripe).toOption.getD w.stripe }

inductive Event
  | tick (time : Instant)
  | call (call : Call)
  | commit (call : Call) (clock : Instant)
  | write (rows : Rows)

/-- Time goes on, a call reads the clock, a waiting call gets its locks and commits, or another
transaction writes. -/
def step (w : World) : Event → World → Prop
  | .tick time, w' => w.time ≤ time ∧ w' = { w with time }
  | .call call, w' => w' = { w with waiting := (call, w.time) :: w.waiting }
  | .commit call clock, w' =>
    (call, clock) ∈ w.waiting ∧
      w' = { w.execute sha256 observationId connector store clock call with
        waiting := w.waiting.erase (call, clock) }
  | .write rows, w' => w' = { w with rows }

end

/-- At this moment all sources are complete, cover the window of the run, and were observed and
covered within the freshness limit. -/
def Covered (w : World) (clock : Instant) : Prop :=
  ∀ k ∈ requiredSources, ∃ c ∈ w.coverage, c.source = k ∧
    c.fresh w.time (clock - minutes (30 * 24 * 60)) w.rows.settings.policy.freshness = true

/-- The run that a step commits does not call covered sources stale, and every finding stays, last
seen no earlier than before. -/
structure JudgesInTime (w : World) (event : Event) (w' : World) : Prop where
  coverage : ∀ clock run, event = .commit .reconcile clock → w'.db.runs = w.db.runs ++ [run] →
    w.Covered clock → ∀ p ∈ run.proposals, p.rule ≠ .pi009
  lastSeen : ∀ f ∈ w.db.findings, ∃ f' ∈ w'.db.findings, f'.findingKey = f.findingKey ∧
    f.lastSeen ≤ f'.lastSeen

/-- No required cursor ends or was observed after the clock and up to now, and no run that proposed
anything was evaluated after the clock. -/
structure Unovertaken (w : World) (clock : Instant) : Prop where
  coverage : ∀ c ∈ w.coverage, c.source ∈ requiredSources →
    ∀ t ∈ [c.observedAt, c.coveredThrough], t ≤ w.time → t ≤ clock
  runs : ∀ r ∈ w.db.runs, r.shadow = false → r.proposals ≠ [] → r.evaluatedAt ≤ clock

/-- Nothing overtakes a run between its clock and its lock. -/
def Timely (w : World) : Event → Prop
  | .commit .reconcile clock => w.Unovertaken clock
  | _ => True

end World

section Writes

variable {sha256 : String → String} {now : Instant} {p : Proposal} {created : Bool} {f f' : Finding}
  {store : Store} {run : ℕ} {db : Db} {ps : List Proposal} {digest : String} {result : Evaluation}
  {coverage : List Coverage}

theorem advance_lastSeen (ready : Bool) : (f.advance now ready).1.lastSeen = f.lastSeen := by
  unfold Finding.advance
  split
  · rfl
  · split
    · rfl
    · rfl
    · split <;> rfl
    · rfl

theorem observedFinding_lastSeen : (observedFinding sha256 now store db p).lastSeen = now := by
  unfold observedFinding Finding.observe
  exact advance_lastSeen p.ready

theorem settle_lastSeen : (f.settle now digest result).1.lastSeen = f.lastSeen := by
  unfold Finding.settle
  split
  · rfl
  · split
    · split <;> rfl
    · cases f.cleanSince with
      | none => rfl
      | some since =>
        dsimp only
        split <;> rfl

theorem observeLoop_runs : (ps.foldl (observeProposal sha256 now store run) db).runs = db.runs := by
  induction ps generalizing db with
  | nil => rfl
  | cons p ps ih =>
    have hone : (observeProposal sha256 now store run db p).runs = db.runs := by
      simp only [observeProposal]
      split <;> rfl
    rw [List.foldl_cons, ih, hone]

theorem settleLoop_runs {fs : List Finding} :
    (fs.foldl (settleFinding now digest result run) db).runs = db.runs := by
  induction fs generalizing db with
  | nil => rfl
  | cons f fs ih =>
    have hone : (settleFinding now digest result run db f).runs = db.runs := by
      simp only [settleFinding]
      split <;> rfl
    rw [List.foldl_cons, ih, hone]

theorem exists_observeLoop (hf : f ∈ db.findings) :
    ∃ f' ∈ (ps.foldl (observeProposal sha256 now store run) db).findings,
      f'.findingKey = f.findingKey := by
  induction ps generalizing db f with
  | nil => exact ⟨f, hf, rfl⟩
  | cons p ps ih =>
    have hone : ∃ f' ∈ (observeProposal sha256 now store run db p).findings,
        f'.findingKey = f.findingKey := by
      rw [observeProposal_findings]
      by_cases hk : f.findingKey = (observedFinding sha256 now store db p).findingKey
      · exact ⟨_, Table.mem_put.mpr (Or.inl rfl), hk.symm⟩
      · exact ⟨f, Table.mem_put.mpr (Or.inr ⟨hf, hk⟩), rfl⟩
    obtain ⟨f', hf', hk⟩ := hone
    obtain ⟨f'', hf'', hk'⟩ := ih hf'
    exact ⟨f'', hf'', hk'.trans hk⟩

theorem mem_observeLoop (sha256 : String → String) (now : Instant) (store : Store) (run : ℕ)
    (db : Db) {k : String} (h : k ∈ ps.map (·.key)) :
    ∃ f ∈ (ps.foldl (observeProposal sha256 now store run) db).findings, f.findingKey = k := by
  induction ps generalizing db with
  | nil => exact absurd h List.not_mem_nil
  | cons p ps ih =>
    rcases List.mem_cons.mp h with rfl | h
    · have hone : observedFinding sha256 now store db p ∈
          (observeProposal sha256 now store run db p).findings := by
        rw [observeProposal_findings]
        exact Table.mem_put.mpr (Or.inl rfl)
      obtain ⟨f, hf, hk⟩ := @exists_observeLoop sha256 now _ store run _ ps hone
      exact ⟨f, hf, hk.trans observedFinding_spec.1⟩
    · exact ih _ h

theorem lastSeen_observeLoop
    (hf : f ∈ (ps.foldl (observeProposal sha256 now store run) db).findings) :
    (ps ≠ [] ∧ f.lastSeen = now) ∨ f ∈ db.findings := by
  have hget := Table.get_eq_some.mpr ⟨hf, rfl⟩
  by_cases hk : f.findingKey ∈ ps.map (·.key)
  · obtain ⟨db', p, rfl⟩ := observed_of_observeLoop hk hget
    refine Or.inl ⟨?_, observedFinding_lastSeen⟩
    rintro rfl
    exact absurd hk List.not_mem_nil
  · rw [get_observeLoop hk] at hget
    exact Or.inr (Table.get_eq_some.mp hget).1

def runRow (now : Instant) (store : Store) (coverage : List Coverage) (result : Evaluation) :
    ReconciliationRun where
  storeId := store.id
  mode := store.mode
  policyVersion := store.policyVersion
  inputDigest := result.inputDigest
  evaluatedAt := now
  coverage := coverage
  warnings := result.warnings
  proposals := result.proposals
  shadow := store.shadowRules

theorem recordRun_runs : (recordRun sha256 now store coverage result db).runs =
    db.runs ++ [runRow now store coverage result] := by
  unfold recordRun
  dsimp only
  split
  · rfl
  · rw [settleLoop_runs, observeLoop_runs]
    rfl

theorem lastSeen_recordRun (hf : f ∈ (recordRun sha256 now store coverage result db).findings) :
    (store.shadowRules = false ∧ result.proposals ≠ [] ∧ f.lastSeen = now) ∨
      ∃ g ∈ db.findings, g.findingKey = f.findingKey ∧ f.lastSeen = g.lastSeen := by
  unfold recordRun at hf
  dsimp only at hf
  split at hf
  · exact Or.inr ⟨f, hf, rfl, rfl⟩
  · rename_i hs
    have hkept : ∀ g : Finding, g ∈ (result.proposals.foldl
        (observeProposal sha256 now store db.runs.length)
        { db with runs := db.runs ++ [runRow now store coverage result] }).findings →
        g.findingKey = f.findingKey → f.lastSeen = g.lastSeen →
        (store.shadowRules = false ∧ result.proposals ≠ [] ∧ f.lastSeen = now) ∨
          ∃ g ∈ db.findings, g.findingKey = f.findingKey ∧ f.lastSeen = g.lastSeen := by
      intro g hg hk hl
      rcases lastSeen_observeLoop hg with ⟨hps, hnow⟩ | hg
      · exact Or.inl ⟨Bool.not_eq_true _ ▸ hs, hps, hl.trans hnow⟩
      · exact Or.inr ⟨g, hg, hk, hl⟩
    rcases mem_settleLoop.mp hf with ⟨g, hg, -, -, rfl⟩ | ⟨hg, -⟩
    · exact hkept g hg (settle_key now _ result g).symm settle_lastSeen
    · exact hkept f hg rfl rfl

theorem seen_recordRun (hs : store.shadowRules = false) (hp : p ∈ result.proposals) :
    ∃ f ∈ (recordRun sha256 now store coverage result db).findings,
      f.findingKey = p.key ∧ f.lastSeen = now := by
  have hmem : p.key ∈ result.proposals.map (·.key) := List.mem_map_of_mem hp
  unfold recordRun
  dsimp only
  rw [if_neg (by simp [hs])]
  obtain ⟨g, hg, hk⟩ := mem_observeLoop sha256 now store db.runs.length
    { db with runs := db.runs ++ [runRow now store coverage result] } hmem
  have hseen : g.lastSeen = now := by
    obtain ⟨db', p', rfl⟩ := observed_of_observeLoop hmem (Table.get_eq_some.mpr ⟨hg, hk⟩)
    exact observedFinding_lastSeen
  by_cases hu : g.storeId = store.id ∧ g.state ≠ .resolved
  · exact ⟨_, mem_settleLoop.mpr (Or.inl ⟨g, hg, hu.1, hu.2, rfl⟩),
      (settle_key now _ result g).trans hk, settle_lastSeen.trans hseen⟩
  · exact ⟨g, mem_settleLoop.mpr (Or.inr ⟨hg, hu⟩), hk, hseen⟩

theorem exists_recordRun (sha256 : String → String) (now : Instant) (store : Store)
    (coverage : List Coverage) (result : Evaluation) (hf : f ∈ db.findings) :
    ∃ f' ∈ (recordRun sha256 now store coverage result db).findings,
      f'.findingKey = f.findingKey := by
  unfold recordRun
  dsimp only
  split
  · exact ⟨f, hf, rfl⟩
  · obtain ⟨g, hg, hk⟩ := @exists_observeLoop sha256 now f store db.runs.length
      { db with runs := db.runs ++ [runRow now store coverage result] } result.proposals hf
    by_cases hu : g.storeId = store.id ∧ g.state ≠ .resolved
    · exact ⟨_, mem_settleLoop.mpr (Or.inl ⟨g, hg, hu.1, hu.2, rfl⟩),
        (settle_key now _ result g).trans hk⟩
    · exact ⟨g, mem_settleLoop.mpr (Or.inr ⟨hg, hu⟩), hk⟩

end Writes

theorem fresh_iff_of_le {c : Coverage} {clock time start : Instant} {limit : Duration}
    (h : clock ≤ time) (hf : c.fresh time start limit = true) :
    c.fresh clock start limit = true ↔ c.observedAt ≤ clock ∧ c.coveredThrough ≤ clock := by
  unfold Coverage.fresh at hf ⊢
  simp only [Bool.and_eq_true, decide_eq_true_eq, Int.sub_nonneg] at hf ⊢
  obtain ⟨⟨⟨⟨hcomplete, ⟨hstart, hthrough⟩, -⟩, -, hcovered⟩, -, hobserved⟩, hoffset⟩ := hf
  constructor
  · rintro ⟨⟨⟨-, hc, -⟩, ho, -⟩, -⟩
    exact ⟨ho, hc⟩
  · rintro ⟨ho, hc⟩
    have hage : ∀ t : Instant, clock - t ≤ time - t := fun t => Int.sub_le_sub_right h t
    exact ⟨⟨⟨⟨hcomplete, ⟨hstart, hthrough⟩, hc⟩, hc, (hage _).trans hcovered⟩, ho,
      (hage _).trans hobserved⟩, hoffset⟩

namespace World

variable {sha256 : String → String} {observationId : Observation → String}
  {connector : Installation} {store : StoreRow} {w w' : World} {clock : Instant} {event : Event}
  {db : Db} {s : Snapshot} {e : Evaluation}

theorem reconcile_ok (h : w.reconcile sha256 observationId store clock = .ok db) :
    ∃ s e, buildSnapshot observationId (w.storeRow store) w.sources clock = .ok s ∧
      evaluate sha256 s = .ok e ∧
      db = recordRun sha256 clock (w.storeRow store).columns s.coverage e w.db := by
  unfold reconcile at h
  split at h
  · obtain ⟨s, hs, h⟩ := bind_eq_ok.mp h
    obtain ⟨e, he, h⟩ := bind_eq_ok.mp h
    exact ⟨s, e, hs, evaluateInRange_ok he, (Except.ok.inj h).symm⟩
  · cases h

/-- When the sources are covered at the moment, a run proposes PI-009 exactly if the rule is on and
a required cursor was observed or ends after the clock of the run, up to the moment. -/
theorem proposes_pi009_iff_overtaken
    (hs : buildSnapshot observationId (w.storeRow store) w.sources clock = .ok s)
    (he : evaluate sha256 s = .ok e) (hle : clock ≤ w.time) (hc : w.Covered clock) :
    (∃ p ∈ e.proposals, p.rule = .pi009) ↔
      (∃ c ∈ w.coverage, c.source ∈ requiredSources ∧
        ∃ t ∈ [c.observedAt, c.coveredThrough], t ≤ w.time ∧ clock < t) ∧
      RuleCode.pi009 ∉ w.rows.settings.disabledRules := by
  obtain ⟨-, -, -, -, -, -, hnow, hwindow, hcoverage⟩ := buildSnapshot_ok hs
  have hpolicy := (buildSnapshot_store hs).2.2.2
  have hn : (s.coverage.map (·.source)).Nodup := Snapshot.coverage_nodup_of_valid (evaluate_valid he)
  have hfind : ∀ k ∈ requiredSources, ∀ c ∈ w.coverage, c.source = k →
      s.coverageBySource k = some c ∧
        c.fresh w.time s.windowFrom s.policy.freshness = true := by
    intro k hk c hm hck
    obtain ⟨c', hm', hck', hf⟩ := hc k hk
    obtain rfl : c' = c := List.inj_on_of_nodup_map hn (hcoverage ▸ hm') (hcoverage ▸ hm)
      (hck'.trans hck.symm)
    rw [← hck, hwindow, hpolicy]
    exact ⟨Snapshot.coverageBySource_eq hn (hcoverage ▸ hm), hf⟩
  rw [proposes_pi009_iff he, mem_rules, hpolicy]
  refine and_congr ?_ Iff.rfl
  rw [ne_eq, Snapshot.stale, List.filter_eq_nil_iff]
  push Not
  constructor
  · rintro ⟨k, hk, hstale⟩
    obtain ⟨c, hm, hck, -⟩ := hc k hk
    obtain ⟨hget, hf⟩ := hfind k hk c hm hck
    refine ⟨c, hm, hck ▸ hk, ?_⟩
    have hlate : ¬ (c.observedAt ≤ clock ∧ c.coveredThrough ≤ clock) := by
      intro hno
      have hfresh := (fresh_iff_of_le hle hf).mpr hno
      rw [hget, hnow] at hstale
      simp [hfresh] at hstale
    obtain ⟨ho, ht⟩ := (fresh_iff_of_le le_rfl hf).mp hf
    rw [not_and_or, not_le, not_le] at hlate
    rcases hlate with hlate | hlate
    · exact ⟨_, List.mem_cons_self, ho, hlate⟩
    · exact ⟨_, List.mem_cons_of_mem _ List.mem_cons_self, ht, hlate⟩
  · rintro ⟨c, hm, hk, t, ht, -, hlate⟩
    obtain ⟨hget, hf⟩ := hfind _ hk c hm rfl
    refine ⟨c.source, hk, ?_⟩
    have hnot : ¬ c.fresh clock s.windowFrom s.policy.freshness = true := by
      rw [fresh_iff_of_le hle hf]
      rintro ⟨ho, hthrough⟩
      rcases List.mem_cons.mp ht with rfl | ht
      · exact absurd ho (not_le.mpr hlate)
      · exact absurd hthrough (not_le.mpr (List.mem_singleton.mp ht ▸ hlate))
    rw [hget, hnow]
    simp [hnot]

/-- A finding was last seen by a run that proposed something, and a clock that a waiting call read
has passed. -/
structure Coherent (w : World) : Prop where
  seen : ∀ f ∈ w.db.findings, ∃ r ∈ w.db.runs, r.shadow = false ∧ r.proposals ≠ [] ∧
    f.lastSeen = r.evaluatedAt
  passed : ∀ x ∈ w.waiting, x.2 ≤ w.time

theorem step_cases (h : step sha256 observationId connector store w event w') :
    w'.db = w.db ∨ ∃ clock, event = .commit .reconcile clock ∧ (.reconcile, clock) ∈ w.waiting ∧
      w.reconcile sha256 observationId store clock = .ok w'.db := by
  cases event with
  | tick time =>
    obtain ⟨-, rfl⟩ := h
    exact Or.inl rfl
  | call call =>
    obtain rfl := h
    exact Or.inl rfl
  | write rows =>
    obtain rfl := h
    exact Or.inl rfl
  | commit call clock =>
    obtain ⟨hw, rfl⟩ := h
    cases call with
    | acceptWooBatch e => exact Or.inl rfl
    | advanceStripeCoverage start till => exact Or.inl rfl
    | reconcile =>
      cases hr : w.reconcile sha256 observationId store clock with
      | error _ =>
        simp only [execute, hr]
        exact Or.inl rfl
      | ok db =>
        simp only [execute, hr]
        exact Or.inr ⟨clock, rfl, hw, hr⟩

theorem db_of_commit
    (h : step sha256 observationId connector store w (.commit .reconcile clock) w')
    (hr : w.reconcile sha256 observationId store clock = .ok db) : w'.db = db := by
  obtain ⟨-, rfl⟩ := h
  simp only [execute, hr]
  rfl

theorem passed_step (h : ∀ x ∈ w.waiting, x.2 ≤ w.time)
    (hstep : step sha256 observationId connector store w event w') :
    ∀ x ∈ w'.waiting, x.2 ≤ w'.time := by
  cases event with
  | tick time =>
    obtain ⟨hle, rfl⟩ := hstep
    exact fun x hx => (h x hx).trans hle
  | call call =>
    obtain rfl := hstep
    intro x hx
    rcases List.mem_cons.mp hx with rfl | hx
    · exact le_refl _
    · exact h x hx
  | write rows =>
    obtain rfl := hstep
    exact h
  | commit call clock =>
    obtain ⟨-, rfl⟩ := hstep
    intro x hx
    have hle := h x (List.mem_of_mem_erase hx)
    cases call <;> exact hle

theorem coherent_step (h : w.Coherent)
    (hstep : step sha256 observationId connector store w event w') : w'.Coherent := by
  refine ⟨?_, passed_step h.passed hstep⟩
  rcases step_cases hstep with hdb | ⟨clock, -, -, hr⟩
  · rw [hdb]
    exact h.seen
  · obtain ⟨s, e, -, -, hdb⟩ := reconcile_ok hr
    rw [hdb, recordRun_runs]
    intro f hf
    rcases lastSeen_recordRun hf with ⟨hs, hp, hl⟩ | ⟨g, hg, -, hl⟩
    · exact ⟨_, List.mem_append_right _ (List.mem_singleton_self _), hs, hp, hl⟩
    · obtain ⟨r, hr, hs, hp, hl'⟩ := h.seen g hg
      exact ⟨r, List.mem_append_left _ hr, hs, hp, hl.trans hl'⟩

theorem judges_in_time_of_unovertaken (h : w.Coherent)
    (hstep : step sha256 observationId connector store w event w') (hok : w.Timely event) :
    JudgesInTime w event w' := by
  rcases step_cases hstep with hdb | ⟨clock, rfl, hw, hr⟩
  · constructor
    · intro clock run _ hruns
      rw [hdb] at hruns
      exact absurd hruns (by simp)
    · intro f hf
      rw [hdb]
      exact ⟨f, hf, rfl, le_refl _⟩
  · have hle : clock ≤ w.time := h.passed _ hw
    obtain ⟨s, e, hs, he, hdb⟩ := reconcile_ok hr
    constructor
    · intro clock' run heq hruns hc p hp hrule
      obtain ⟨-, rfl⟩ := Event.commit.inj heq
      rw [hdb, recordRun_runs] at hruns
      obtain rfl := List.singleton_inj.mp (List.append_cancel_left hruns)
      obtain ⟨⟨c, hm, hk, t, ht, htime, hlate⟩, -⟩ :=
        (proposes_pi009_iff_overtaken hs he hle hc).mp ⟨p, hp, hrule⟩
      exact absurd (hok.coverage c hm hk t ht htime) (not_le.mpr hlate)
    · intro f hf
      rw [hdb]
      obtain ⟨f', hf', hk⟩ := exists_recordRun sha256 clock (w.storeRow store).columns s.coverage e hf
      refine ⟨f', hf', hk, ?_⟩
      rcases lastSeen_recordRun hf' with ⟨-, -, hl⟩ | ⟨g, hg, hgk, hl⟩
      · obtain ⟨r, hr, hs, hp, hlast⟩ := h.seen f hf
        rw [hl, hlast]
        exact hok.runs r hr hs hp
      · rw [hl, Table.eq_of_key hg hf (hgk.trans hk)]

/-- A world that starts with empty tables. -/
def start (time : Instant) (rows : Rows) : World := { time, rows }

/-- In every run whose reconcile calls nothing overtakes, every step judges in time. -/
theorem run_judges_in_time {events : List Event} {time : Instant} {rows : Rows}
    (hrun : Run (Guarded (step sha256 observationId connector store) Timely) (start time rows)
      events w)
    (hstep : Guarded (step sha256 observationId connector store) Timely w event w') :
    JudgesInTime w event w' := by
  have hcoherent : w.Coherent := by
    refine hrun.invariant_state (I := Coherent) ⟨?_, ?_⟩ fun _ _ _ hc hs => coherent_step hc hs.2
    · exact fun f hf => absurd hf Table.not_mem_empty
    · exact fun x hx => absurd hx List.not_mem_nil
  exact judges_in_time_of_unovertaken hcoherent hstep.2 hstep.1

/-- The key of the finding that the sources of a store are stale. -/
def coverageKey (sha256 : String → String) (store : StoreRow) : String :=
  sha256 (canonical (.arr [.str store.organizationId, .str store.id, .str store.mode.render,
    .str RuleCode.pi009.render, .strings [(Identity.store store.id).render]]))

theorem coverageKey_seen
    (hs : buildSnapshot observationId (w.storeRow store) w.sources clock = .ok s)
    (he : evaluate sha256 s = .ok e) (hp : ∃ p ∈ e.proposals, p.rule = .pi009)
    (hshadow : w.rows.settings.shadowRules = false) :
    ∃ f ∈ (recordRun sha256 clock (w.storeRow store).columns s.coverage e w.db).findings,
      f.findingKey = coverageKey sha256 store ∧ f.lastSeen = clock := by
  obtain ⟨horganization, hid, hmode, -⟩ := buildSnapshot_store hs
  obtain ⟨hstale, hon⟩ := (proposes_pi009_iff he).mp hp
  obtain ⟨p, hp, -⟩ := hp
  have hseen : ∃ f ∈ (recordRun sha256 clock (w.storeRow store).columns s.coverage e
      w.db).findings, f.findingKey = p.key ∧ f.lastSeen = clock := seen_recordRun hshadow hp
  obtain ⟨f, hf, hk, hl⟩ := hseen
  refine ⟨f, hf, hk.trans ?_, hl⟩
  rw [proposals_of_stale hstale he, emit, if_neg (not_not.mpr hon), List.mem_singleton] at hp
  rw [hp]
  simp only [findingKey, horganization, hid, hmode]
  rfl

theorem run_transact {init : World} {events : List Event} {ok : World → Event → Prop}
    (h : Run (Guarded (step sha256 observationId connector store) ok) init events w) (call : Call)
    (hok : ∀ w' event, event = .call call ∨ event = .commit call w.time → ok w' event) :
    Run (Guarded (step sha256 observationId connector store) ok) init
      (events ++ [.call call] ++ [.commit call w.time])
      (w.execute sha256 observationId connector store w.time call) := by
  have hcall : step sha256 observationId connector store w (.call call)
      { w with waiting := (call, w.time) :: w.waiting } := rfl
  refine (h.snoc ⟨hok _ _ (Or.inl rfl), hcall⟩).snoc
    ⟨hok _ _ (Or.inr rfl), List.mem_cons_self, ?_⟩
  rw [List.erase_cons_head]
  cases call <;> rfl

end World

namespace Fixture

open World Sha256

def linkedRows : World.Rows := { settings := liveStore.settings, link := some freshLink }

def monthPage : Envelope := scanPage "month" "2026-08-05T12:00:00Z" "2026-09-05T12:00:00Z"

def second : Duration := 1000000

/-- The steps of one store. -/
def storeStep : World → Event → World → Prop := step hexdigest (fun _ => "") shop liveStore

def transact (w : World) (call : Call) : World :=
  w.execute hexdigest (fun _ => "") shop liveStore w.time call

def finishScans (w : World) : World :=
  transact (transact w (.acceptWooBatch monthPage)) (.advanceStripeCoverage (noon - days 31) noon)

/-- A run waits while both connectors finish their scans, and no time passes. -/
def punctualRun : World :=
  finishScans { start noon linkedRows with waiting := [(.reconcile, noon)] }

def waitingRun : World :=
  { start noon linkedRows with time := noon + second, waiting := [(.reconcile, noon)] }

/-- Then another run commits, and both connectors finish their scans. -/
def overtakenRun : World := finishScans (transact waitingRun .reconcile)

theorem run_finishScans {init w : World} {events : List Event} {ok : World → Event → Prop}
    (h : Run (Guarded storeStep ok) init events w)
    (hok : ∀ w event, (∀ clock, event ≠ .commit .reconcile clock) → ok w event) :
    ∃ events', Run (Guarded storeStep ok) init events' (finishScans w) := by
  have hother : ∀ (call : Call) (time : Instant), call ≠ .reconcile → ∀ w event,
      event = .call call ∨ event = .commit call time → ok w event := by
    rintro call time hcall w event (rfl | rfl)
    · exact hok _ _ nofun
    · exact hok _ _ fun clock h => hcall (Event.commit.inj h).1
  have hshop := run_transact h (.acceptWooBatch monthPage)
    (hother (.acceptWooBatch monthPage) _ nofun)
  have hstripe := run_transact hshop (.advanceStripeCoverage (noon - days 31) noon)
    (hother (.advanceStripeCoverage _ _) _ nofun)
  exact ⟨_, hstripe⟩

theorem run_overtakenRun : ∃ events, Run storeStep (start noon linkedRows) events overtakenRun := by
  have hcall : storeStep (start noon linkedRows) (.call .reconcile)
      { start noon linkedRows with waiting := [(.reconcile, noon)] } := rfl
  have hle : noon ≤ noon + second := by decide
  have hwait : Run (Guarded storeStep fun _ _ => True) (start noon linkedRows)
      [.call .reconcile, .tick (noon + second)] waitingRun :=
    (Run.nil.snoc ⟨trivial, hcall⟩).snoc ⟨trivial, hle, rfl⟩
  have hrun := run_transact hwait .reconcile fun _ _ _ => trivial
  obtain ⟨events, hscans⟩ := run_finishScans hrun fun _ _ _ => trivial
  exact ⟨events, hscans.mono fun _ _ _ h => h.2⟩

end Fixture

open Fixture World Sha256

theorem run_judges_in_time_covered : ∃ w w', w.Covered noon ∧
    storeStep w (.commit .reconcile noon) w' ∧ JudgesInTime w (.commit .reconcile noon) w' := by
  have htimely : ∀ (w : World) (event : Event), (∀ clock, event ≠ .commit .reconcile clock) →
      w.Timely event := by
    intro w event h
    cases event with
    | commit call clock =>
      cases call with
      | reconcile => exact absurd rfl (h clock)
      | acceptWooBatch e => trivial
      | advanceStripeCoverage start till => trivial
    | tick time => trivial
    | call call => trivial
    | write rows => trivial
  have hcall : storeStep (start noon linkedRows) (.call .reconcile)
      { start noon linkedRows with waiting := [(.reconcile, noon)] } := rfl
  obtain ⟨events, hrun⟩ := run_finishScans
    (Run.nil.snoc ⟨htimely _ (.call .reconcile) nofun, hcall⟩) htimely
  have hwaits : (Call.reconcile, noon) ∈ punctualRun.waiting := by decide +kernel
  have hcovered : punctualRun.Covered noon := by
    unfold World.Covered
    decide +kernel
  obtain ⟨w', hstep⟩ : ∃ w', storeStep punctualRun (.commit .reconcile noon) w' := ⟨_, hwaits, rfl⟩
  have hcurrent : punctualRun.Unovertaken noon :=
    ⟨fun _ _ _ _ _ h => h, fun _ h => absurd h List.not_mem_nil⟩
  exact ⟨punctualRun, w', hcovered, hstep, run_judges_in_time hrun ⟨hcurrent, hstep⟩⟩

/-- The overtaken run calls sources stale that are covered, and sets a finding back. -/
theorem overtaken_run_misjudges : ∃ events w w' run,
    Run storeStep (start noon linkedRows) events w ∧
    storeStep w (.commit .reconcile noon) w' ∧
    w'.db.runs = w.db.runs ++ [run] ∧ w.Covered noon ∧ (∃ p ∈ run.proposals, p.rule = .pi009) ∧
    ∃ f ∈ w.db.findings, ∃ f' ∈ w'.db.findings, f'.findingKey = f.findingKey ∧
      f'.lastSeen < f.lastSeen := by
  obtain ⟨events, hrun⟩ := run_overtakenRun
  have hwaits : (Call.reconcile, noon) ∈ overtakenRun.waiting := by decide +kernel
  have hcovered : overtakenRun.Covered noon := by
    unfold World.Covered
    decide +kernel
  have hlate : ∃ c ∈ overtakenRun.coverage, c.source ∈ requiredSources ∧
      ∃ t ∈ [c.observedAt, c.coveredThrough], t ≤ overtakenRun.time ∧ noon < t := by
    decide +kernel
  obtain ⟨before, hbefore⟩ : ∃ db, waitingRun.reconcile hexdigest (fun _ => "") liveStore
      waitingRun.time = .ok db := exists_of_isOk (by decide +kernel)
  obtain ⟨after, hafter⟩ : ∃ db, overtakenRun.reconcile hexdigest (fun _ => "") liveStore
      noon = .ok db := exists_of_isOk (by decide +kernel)
  have hdb : overtakenRun.db = before := by
    simp only [overtakenRun, finishScans, transact, execute, hbefore]
    rfl
  obtain ⟨w', hstep⟩ : ∃ w', storeStep overtakenRun (.commit .reconcile noon) w' := ⟨_, hwaits, rfl⟩
  have hdb' : w'.db = after := db_of_commit hstep hafter
  obtain ⟨s, e, hs, he, rfl⟩ := reconcile_ok hafter
  obtain ⟨s₁, e₁, hs₁, he₁, rfl⟩ := reconcile_ok hbefore
  have hpi009 : ∃ p ∈ e.proposals, p.rule = .pi009 :=
    (proposes_pi009_iff_overtaken hs he (by decide) hcovered).mpr ⟨hlate, List.not_mem_nil⟩
  have hpi009₁ : ∃ p ∈ e₁.proposals, p.rule = .pi009 := by
    refine (proposes_pi009_iff he₁).mpr ⟨?_, ?_⟩
    · have hnone : s₁.coverage = [] := (buildSnapshot_ok hs₁).2.2.2.2.2.2.2.2
      simp [Snapshot.stale, Snapshot.coverageBySource, hnone, requiredSources]
    · rw [mem_rules, (buildSnapshot_store hs₁).2.2.2]
      exact List.not_mem_nil
  obtain ⟨f, hf, hk, hl⟩ := coverageKey_seen hs₁ he₁ hpi009₁ rfl
  obtain ⟨f', hf', hk', hl'⟩ := coverageKey_seen hs he hpi009 rfl
  have hback : f'.lastSeen < f.lastSeen := by
    rw [hl, hl']
    decide
  have hruns : w'.db.runs = overtakenRun.db.runs ++
      [runRow noon (overtakenRun.storeRow liveStore).columns s.coverage e] := by
    rw [hdb']
    exact recordRun_runs
  exact ⟨events, overtakenRun, w', runRow noon (overtakenRun.storeRow liveStore).columns s.coverage e,
    hrun, hstep, hruns, hcovered, hpi009, f, hdb ▸ hf, f', hdb' ▸ hf', hk'.trans hk.symm, hback⟩

end LedgerGuard
