import LedgerGuard.Findings.RowSteps

/-! # What precedes a resolution

The events of a finding are a path through its states, from provisional on. A path leaves
provisional by opening the finding, or by resolving it after two clean runs as it would
any other.
-/

namespace LedgerGuard

open Transition

variable {sha256 : String → String}

def lifecycleStep (s : FindingState) (e : FindingEvent) (s' : FindingState) : Prop :=
  e.previousState = s ∧ e.newState = s' ∧ Moves s e.eventType s'

def FindingEvent.Lapses (e : FindingEvent) : Prop :=
  e.eventType = .resolved ∧ e.previousState = .provisional

/-- A finding was opened before the event resolves or reopens it. -/
def OpenedBefore (before : List FindingEvent) (e : FindingEvent) : Prop :=
  e.eventType ∈ [EventType.resolved, .reopened] → ∃ e' ∈ before, e'.eventType = .opened

/-- A finding was opened, or resolved while provisional, before the event reopens or resolves it. -/
def LeftProvisional (before : List FindingEvent) (e : FindingEvent) : Prop :=
  e.eventType ∈ [EventType.resolved, .reopened] →
    (∃ e' ∈ before, e'.eventType = .opened) ∨ ∃ e' ∈ before ++ [e], e'.Lapses

/-- The first alert of a finding that only ever was provisional opens it. -/
def AlertsAsOpened (before : List FindingEvent) (e : FindingEvent) : Prop :=
  e.alerts = true → (∀ e' ∈ before, e'.newState = .provisional) → e.eventType = .opened

section Path

variable {es before after : List FindingEvent} {e : FindingEvent} {s s' : FindingState}

theorem provisional_of_path (h : Run lifecycleStep .provisional es s)
    (hes : ∀ e ∈ es, e.newState = .provisional) : s = .provisional := by
  cases h with
  | nil => rfl
  | snoc _ hstep => exact hstep.2.1.symm.trans (hes _ (by simp))

theorem left_of_path (h : Run lifecycleStep .provisional es s) (hs : s ≠ .provisional) :
    (∃ e ∈ es, e.eventType = .opened) ∨ ∃ e ∈ es, e.Lapses := by
  induction h with
  | nil => exact absurd rfl hs
  | @snoc es s e s' _ hstep ih =>
    obtain ⟨hprev, -, hmoves⟩ := hstep
    by_cases hp : s = .provisional
    · subst hp
      generalize ht : e.eventType = event at hmoves
      cases hmoves with
      | opened => exact Or.inl ⟨e, by simp, ht⟩
      | resolved => exact Or.inr ⟨e, by simp, ht, hprev⟩
      | acknowledge h => exact absurd h (by decide)
      | suppress h => exact absurd h (by decide)
      | observed | externalResolutionRequested | note => exact absurd rfl hs
    · rcases ih hp with ⟨e', he', hopened⟩ | ⟨e', he', hlapses⟩
      · exact Or.inl ⟨e', List.mem_append_left _ he', hopened⟩
      · exact Or.inr ⟨e', List.mem_append_left _ he', hlapses⟩

theorem path_split (h : Run lifecycleStep .provisional es s) (hes : es = before ++ e :: after) :
    ∃ s₁ s₂, Run lifecycleStep .provisional before s₁ ∧ lifecycleStep s₁ e s₂ := by
  induction h generalizing after with
  | nil => exact absurd hes (by simp)
  | @snoc es s₁ e' s₂ hrun hstep ih =>
    rcases List.eq_nil_or_concat after with rfl | ⟨after, x, rfl⟩
    · obtain ⟨rfl, hlast⟩ := List.append_inj' hes rfl
      obtain rfl := (List.cons.inj hlast).1
      exact ⟨s₁, s₂, hrun, hstep⟩
    · refine @ih after ?_
      rw [List.concat_eq_append, ← List.cons_append, ← List.append_assoc] at hes
      exact (List.append_inj' hes rfl).1

theorem leftProvisional_of_path (h : Run lifecycleStep .provisional es s)
    (hes : es = before ++ e :: after) : LeftProvisional before e := by
  intro he
  obtain ⟨s₁, s₂, hrun, hprev, -, hmoves⟩ := path_split h hes
  by_cases hp : s₁ = .provisional
  · subst hp
    refine Or.inr ⟨e, by simp, ?_, hprev⟩
    simp only [List.mem_cons, List.not_mem_nil, or_false] at he
    refine he.resolve_right fun hreopened => ?_
    rw [hreopened] at hmoves
    cases hmoves
  · refine (left_of_path hrun hp).imp_right ?_
    rintro ⟨e', he', hlapses⟩
    exact ⟨e', List.mem_append_left _ he', hlapses⟩

theorem alertsAsOpened_of_path (h : Run lifecycleStep .provisional es s)
    (hes : es = before ++ e :: after) : AlertsAsOpened before e := by
  intro halerts hbefore
  obtain ⟨s₁, s₂, hrun, -, -, hmoves⟩ := path_split h hes
  obtain rfl := provisional_of_path hrun hbefore
  simp only [FindingEvent.alerts, decide_eq_true_eq, List.mem_cons, List.not_mem_nil,
    or_false] at halerts
  rcases halerts with he | he | he
  · exact he
  · rw [he] at hmoves
    cases hmoves
  · rw [he] at hmoves
    cases hmoves

end Path

structure Db.Lived (db : Db) : Prop where
  path : ∀ key f, db.findings.get key = some f →
    Run lifecycleStep .provisional (db.eventsOf key) f.state
  unknown : ∀ key, db.findings.get key = none → db.eventsOf key = []

theorem lived_apply {db : Db} (h : db.Lived) (a : RowStep) : (a.apply sha256 db).Lived := by
  rcases writes_or_passes sha256 db a with ⟨f, event, f', hw⟩ | hp
  · obtain ⟨actor, run, note, hevents⟩ := hw.events
    have heventsOf : ∀ key, (a.apply sha256 db).eventsOf key =
        (db.write f event f' actor run note).eventsOf key := by
      intro key
      rw [Db.eventsOf, Db.eventsOf, hevents]
    have hbefore : Run lifecycleStep .provisional (db.eventsOf f.findingKey) f.state := by
      rcases hw.current with hf | ⟨hnone, hst⟩
      · exact h.path _ f hf
      · rw [h.unknown _ hnone, hst]
        exact .nil
    have hafter : Run lifecycleStep .provisional
        ((db.write f event f' actor run note).eventsOf f'.findingKey) f'.state := by
      cases event with
      | none =>
        rw [hw.written.silent rfl, hw.written.findingKey]
        exact hbefore
      | some event =>
        rw [eventsOf_write, hw.written.findingKey]
        exact hbefore.snoc ⟨rfl, rfl, hw.written.moves event rfl⟩
    refine ⟨fun key g hg => ?_, fun key hg => ?_⟩
    · rw [hw.findings, Table.get_put] at hg
      rw [heventsOf]
      by_cases hk : key = f'.findingKey
      · rw [if_pos hk] at hg
        obtain rfl := Option.some.inj hg
        rw [hk]
        exact hafter
      · rw [if_neg hk] at hg
        rw [eventsOf_write_ne hk]
        exact h.path key g hg
    · rw [hw.findings, Table.get_put] at hg
      rw [heventsOf]
      by_cases hk : key = f'.findingKey
      · rw [if_pos hk] at hg
        cases hg
      · rw [if_neg hk] at hg
        rw [eventsOf_write_ne hk]
        exact h.unknown key hg
  · have heventsOf : ∀ key, (a.apply sha256 db).eventsOf key = db.eventsOf key := by
      intro key
      rw [Db.eventsOf, Db.eventsOf, hp.events]
    refine ⟨fun key g hg => ?_, fun key hg => ?_⟩
    · rw [hp.findings] at hg
      rw [heventsOf]
      exact h.path key g hg
    · rw [hp.findings] at hg
      rw [heventsOf]
      exact h.unknown key hg

theorem lived_of_run {h : List FindingStep} {db : Db} (hrun : Run (findingStep sha256) {} h db) :
    db.Lived := by
  obtain ⟨steps, rfl⟩ := exists_rows hrun
  have hstart : Db.Lived {} := ⟨fun _ _ hf => (nomatch hf), fun _ _ => rfl⟩
  refine (@run_after sha256 {} steps).invariant_state hstart fun db a db' hdb hstep => ?_
  exact hstep ▸ lived_apply hdb a

theorem path_of_events {db : Db} (h : db.Lived) (key : String) :
    ∃ s, Run lifecycleStep .provisional (db.eventsOf key) s := by
  cases hg : db.findings.get key with
  | none => exact ⟨.provisional, h.unknown key hg ▸ .nil⟩
  | some f => exact ⟨f.state, h.path key f hg⟩

/-- In every history of runs and actions a finding is opened before it is resolved or reopened, or
it was resolved while provisional, and the first alert of one that only ever was provisional opens
it. -/
theorem resolved_after_opened {h : List FindingStep} {db : Db}
    (hrun : Run (findingStep sha256) {} h db) (key : String) {before after : List FindingEvent}
    {e : FindingEvent} (hes : db.eventsOf key = before ++ e :: after) :
    LeftProvisional before e ∧ AlertsAsOpened before e := by
  obtain ⟨s, hpath⟩ := path_of_events (lived_of_run hrun) key
  exact ⟨leftProvisional_of_path hpath hes, alertsAsOpened_of_path hpath hes⟩

namespace Fixture

/-- The payment without its order came two minutes ago, so that PI-002 is in its grace. -/
def youngSnapshot : Snapshot :=
  { missingOrder with
    payments := [{ payment with changedAt := now - minutes 2, succeededAt := some (now - minutes 2) }] }

def dueSnapshot : Snapshot :=
  { youngSnapshot with
    now := now + minutes 20
    coverage := youngSnapshot.coverage.map fun c =>
      { c with coveredThrough := now + minutes 19, observedAt := now + minutes 20 } }

/-- PI-002 is provisional, clean in two runs, and then due. -/
def lapsedHistory : List FindingStep :=
  [.run (runOn false youngSnapshot), .run (runOn false (quiet 1)), .run (runOn false (quiet 7)),
    .run (runOn false dueSnapshot)]

end Fixture

open Fixture Sha256

theorem resolved_after_opened_quiet : ∃ key e before,
    (dbAfter (quietHistory ++ [.run (runOn false (quiet 7))])).eventsOf key = before ++ [e] ∧
      e.eventType = .resolved ∧ LeftProvisional before e := by
  have hrun : Run (findingStep hexdigest) {} (quietHistory ++ [.run (runOn false (quiet 7))])
      (dbAfter (quietHistory ++ [.run (runOn false (quiet 7))])) := Run.foldl fun _ _ _ => rfl
  obtain ⟨e, he, f, hf, hes, htype⟩ : ∃ e ∈ (dbAfter (quietHistory ++
      [.run (runOn false (quiet 7))])).events, ∃ e₀ ∈ (dbAfter (quietHistory ++
        [.run (runOn false (quiet 7))])).events, (dbAfter (quietHistory ++
          [.run (runOn false (quiet 7))])).eventsOf e.findingKey = [e₀] ++ [e] ∧
            e.eventType = .resolved := by
    decide +kernel
  exact ⟨e.findingKey, e, [f], hes, htype, (resolved_after_opened hrun e.findingKey hes).1⟩

/-- A finding that never was opened is resolved and then reopened. -/
theorem provisional_resolved : ∃ key e e' e'', Run (findingStep hexdigest) {} lapsedHistory
    (dbAfter lapsedHistory) ∧ (dbAfter lapsedHistory).eventsOf key = [e, e', e''] ∧
      ¬ OpenedBefore [e] e' ∧ ¬ OpenedBefore [e, e'] e'' := by
  obtain ⟨e, he, e', he', e'', he'', hes, htypes⟩ : ∃ e ∈ (dbAfter lapsedHistory).events,
      ∃ e' ∈ (dbAfter lapsedHistory).events, ∃ e'' ∈ (dbAfter lapsedHistory).events,
        (dbAfter lapsedHistory).eventsOf e.findingKey = [e, e', e''] ∧
          [e, e', e''].map (·.eventType) = [EventType.observed, .resolved, .reopened] := by
    decide +kernel
  simp only [List.map_cons, List.map_nil, List.cons.injEq, and_true] at htypes
  obtain ⟨h, h', h''⟩ := htypes
  refine ⟨e.findingKey, e, e', e'', Run.foldl fun _ _ _ => rfl, hes, fun hb => ?_, fun hb => ?_⟩
  · obtain ⟨x, hx, hopened⟩ := hb (by simp [h'])
    obtain rfl := List.mem_singleton.mp hx
    rw [h] at hopened
    cases hopened
  · obtain ⟨x, hx, hopened⟩ := hb (by simp [h''])
    simp only [List.mem_cons, List.not_mem_nil, or_false] at hx
    rcases hx with rfl | rfl
    · rw [h] at hopened
      cases hopened
    · rw [h'] at hopened
      cases hopened

end LedgerGuard
