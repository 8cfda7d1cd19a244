import Mathlib.Data.List.Chain
import LedgerGuard.Findings.Resolution

/-! # The event log of a finding

Every write of a finding comes with the event that tells it, or leaves the state,
the occurrence count and the resolution time alone. So the events of a finding
retell its life, and the outbox alerts on exactly the events that call for it.
-/

namespace LedgerGuard

open Transition

variable {sha256 : String → String}

/-- The events that `_event` enqueues a notification for. -/
def FindingEvent.alerts (e : FindingEvent) : Bool :=
  e.eventType ∈ [EventType.opened, .reopened, .unsuppressed]

/-- The events of a finding in order of creation. -/
def Db.eventsOf (db : Db) (key : String) : List FindingEvent :=
  db.events.filter (·.findingKey = key)

/-- The events retell the finding from its creation to its present state. -/
structure Finding.ToldBy (f : Finding) (events : List FindingEvent) : Prop where
  first : ∀ e ∈ events.head?, e.previousState = .provisional
  linked : events.IsChain fun e e' => e'.previousState = e.newState
  last : ∀ e ∈ events.getLast?, f.state = e.newState
  unwritten : events = [] → f.state = .provisional
  occurrences : f.occurrenceCount = events.countP (·.eventType ∈ [EventType.opened, .reopened])
  resolved : f.resolvedAt.isSome ↔ f.state = .resolved

structure Db.Faithful (db : Db) : Prop where
  told : ∀ f ∈ db.findings, db.eventsOf f.findingKey ≠ [] ∧ f.ToldBy (db.eventsOf f.findingKey)
  /-- The outbox has one row for each event that alerts and none for any other. -/
  notified : ∀ i, db.notifications.count i = if (db.events[i]?).any (·.alerts) then 1 else 0

/-- What the event of a write, if there is one, accounts for. -/
structure Finding.Change (f : Finding) (event : Option EventType) (f' : Finding) : Prop where
  findingKey : f'.findingKey = f.findingKey
  state : event = none → f'.state = f.state
  occurrences : f'.occurrenceCount =
    f.occurrenceCount + if event.any (· ∈ [EventType.opened, .reopened]) then 1 else 0
  resolved : (f.resolvedAt.isSome ↔ f.state = .resolved) →
    (f'.resolvedAt.isSome ↔ f'.state = .resolved)

section Told

variable {f f' : Finding} {es : List FindingEvent} {e : FindingEvent}

theorem Finding.ToldBy.silent (h : f.ToldBy es) (hc : f.Change none f') : f'.ToldBy es where
  first := h.first
  linked := h.linked
  last e he := (hc.state rfl).trans (h.last e he)
  unwritten he := (hc.state rfl).trans (h.unwritten he)
  occurrences := hc.occurrences.trans h.occurrences
  resolved := hc.resolved h.resolved

theorem Finding.ToldBy.snoc (h : f.ToldBy es) (hc : f.Change (some e.eventType) f')
    (hp : e.previousState = f.state) (hn : e.newState = f'.state) : f'.ToldBy (es ++ [e]) where
  first x hx := by
    rcases List.eq_nil_or_concat es with rfl | ⟨es, y, rfl⟩
    · obtain rfl : e = x := by simpa using hx
      exact hp.trans (h.unwritten rfl)
    · refine h.first x ?_
      rwa [List.head?_append_of_ne_nil _ (by simp)] at hx
  linked := by
    refine List.isChain_append.mpr ⟨h.linked, List.isChain_singleton e, fun x hx y hy => ?_⟩
    obtain rfl : e = y := by simpa using hy
    exact hp.trans (h.last x hx)
  last x hx := by
    obtain rfl : e = x := by simpa using hx
    exact hn.symm
  unwritten he := by simp at he
  occurrences := by
    rw [hc.occurrences, h.occurrences, List.countP_append, List.countP_singleton]
    simp
  resolved := hc.resolved h.resolved

end Told

theorem Finding.ToldBy.nil {f : Finding} (hst : f.state = .provisional)
    (ho : f.occurrenceCount = 0) (hr : f.resolvedAt = none) : f.ToldBy [] where
  first _ he := nomatch he
  linked := List.isChain_nil
  last _ he := nomatch he
  unwritten _ := hst
  occurrences := ho
  resolved := by simp [hst, hr]

def writtenEvent (f : Finding) (event : EventType) (f' : Finding) (actor : String)
    (run : Option ℕ) (note : String) : FindingEvent where
  findingKey := f'.findingKey
  eventType := event
  actorId := actor
  previousState := f.state
  newState := f'.state
  evidence := f'.evidence
  run := run
  note := note

/-- Save the new version of a finding and record its event, if there is one. -/
def Db.write (db : Db) (f : Finding) (event : Option EventType) (f' : Finding) (actor : String)
    (run : Option ℕ) (note : String) : Db :=
  match event with
  | none => db.save f'
  | some event => (db.save f').event f' event f.state actor run note

/-- The log tells every finding and has no events of unknown findings. -/
structure Db.Consistent (db : Db) : Prop extends db.Faithful where
  known : ∀ e ∈ db.events, ∃ f ∈ db.findings, f.findingKey = e.findingKey

section Write

variable {db : Db} {f f' g : Finding} {event : Option EventType} {actor note key : String}
  {run : Option ℕ}

theorem write_findings : (db.write f event f' actor run note).findings = db.findings.put f' := by
  cases event <;> rfl

theorem write_events {event : EventType} :
    (db.write f (some event) f' actor run note).events =
      db.events ++ [writtenEvent f event f' actor run note] := rfl

theorem write_notifications {event : EventType} :
    (db.write f (some event) f' actor run note).notifications =
      if (writtenEvent f event f' actor run note).alerts then
        db.notifications ++ [db.events.length] else db.notifications := by
  by_cases h : event ∈ [EventType.opened, .reopened, .unsuppressed]
  · simp only [Db.write, Db.event, Db.save, FindingEvent.alerts, writtenEvent, h, decide_true,
      if_true]
  · simp only [Db.write, Db.event, Db.save, FindingEvent.alerts, writtenEvent, h, decide_false,
      if_false, Bool.false_eq_true]

theorem eventsOf_write_ne (h : key ≠ f'.findingKey) :
    (db.write f event f' actor run note).eventsOf key = db.eventsOf key := by
  cases event with
  | none => rfl
  | some event =>
    have hnil : [writtenEvent f event f' actor run note].filter (·.findingKey = key) = [] := by
      refine List.filter_eq_nil_iff.mpr fun e he hk => h ?_
      obtain rfl := List.mem_singleton.mp he
      exact (of_decide_eq_true hk).symm
    rw [Db.eventsOf, write_events, List.filter_append, hnil, List.append_nil]
    rfl

theorem eventsOf_write {event : EventType} :
    (db.write f (some event) f' actor run note).eventsOf f'.findingKey =
      db.eventsOf f'.findingKey ++ [writtenEvent f event f' actor run note] := by
  rw [Db.eventsOf, write_events, List.filter_append,
    List.filter_cons_of_pos (by simp [writtenEvent]), List.filter_nil]
  rfl

theorem told_write (h : f.ToldBy (db.eventsOf f.findingKey)) (hc : f.Change event f') :
    f'.ToldBy ((db.write f event f' actor run note).eventsOf f'.findingKey) := by
  rw [← hc.findingKey] at h
  cases event with
  | none => exact h.silent hc
  | some event =>
    rw [eventsOf_write]
    exact h.snoc hc rfl rfl

theorem notified_write
    (h : ∀ i, db.notifications.count i = if (db.events[i]?).any (·.alerts) then 1 else 0) (i : ℕ) :
    (db.write f event f' actor run note).notifications.count i =
      if ((db.write f event f' actor run note).events[i]?).any (·.alerts) then 1 else 0 := by
  cases event with
  | none => exact h i
  | some event =>
    have hnew : ∀ j, db.events.length ≤ j → db.notifications.count j = 0 := by
      intro j hj
      rw [h, List.getElem?_eq_none hj]
      rfl
    have hcount : (db.write f (some event) f' actor run note).notifications.count i =
        db.notifications.count i + if db.events.length = i ∧
          (writtenEvent f event f' actor run note).alerts then 1 else 0 := by
      rw [write_notifications]
      by_cases ha : (writtenEvent f event f' actor run note).alerts <;> simp [ha, List.count_singleton]
    rw [hcount, write_events]
    rcases Nat.lt_trichotomy i db.events.length with hi | rfl | hi
    · rw [List.getElem?_append_left hi, ← h, if_neg (by omega), Nat.add_zero]
    · rw [List.getElem?_concat_length, hnew _ le_rfl]
      simp
    · rw [List.getElem?_eq_none (by simp; omega), hnew i hi.le, if_neg (by omega)]
      rfl

/-- A write keeps the log in order when it is told by its event, and a finding without events
gets its first one. -/
theorem Db.Consistent.write (h : db.Consistent) (hf : f.ToldBy (db.eventsOf f.findingKey))
    (hc : f.Change event f') (he : event ≠ none ∨ db.eventsOf f.findingKey ≠ []) :
    (db.write f event f' actor run note).Consistent where
  told g hg := by
    rw [write_findings] at hg
    rcases Table.mem_put.mp hg with rfl | ⟨hg, hk⟩
    · refine ⟨?_, told_write hf hc⟩
      rw [← hc.findingKey] at he
      cases event with
      | none => exact he.resolve_left (absurd rfl)
      | some event =>
        rw [eventsOf_write]
        exact List.append_ne_nil_of_right_ne_nil _ (List.cons_ne_nil _ _)
    · rw [eventsOf_write_ne hk]
      exact h.told g hg
  notified := notified_write h.notified
  known e hem := by
    have hput : ∀ k, (k = f'.findingKey ∨ ∃ g ∈ db.findings, g.findingKey = k) →
        ∃ g ∈ (db.write f event f' actor run note).findings, g.findingKey = k := by
      rintro k hk
      rw [write_findings]
      by_cases hk' : k = f'.findingKey
      · exact ⟨f', Table.mem_put.mpr (Or.inl rfl), hk'.symm⟩
      · obtain ⟨g, hg, rfl⟩ := hk.resolve_left hk'
        exact ⟨g, Table.mem_put.mpr (Or.inr ⟨hg, hk'⟩), rfl⟩
    refine hput _ ?_
    cases event with
    | none => exact Or.inr (h.known e hem)
    | some event =>
      rcases List.mem_append.mp hem with hm | hm
      · exact Or.inr (h.known e hm)
      · obtain rfl := List.mem_singleton.mp hm
        exact Or.inl rfl

theorem Db.Consistent.rewrite (h : db.Consistent) (hf : f ∈ db.findings)
    (hc : f.Change event f') : (db.write f event f' actor run note).Consistent :=
  h.write (h.told f hf).2 hc (Or.inr (h.told f hf).1)

theorem eventsOf_unknown (h : db.Consistent) (hk : db.findings.get key = none) :
    db.eventsOf key = [] := by
  refine List.filter_eq_nil_iff.mpr fun e he hke => ?_
  obtain ⟨f, hf, hfk⟩ := h.known e he
  exact Table.get_eq_none.mp hk f hf (hfk.trans (by simpa using hke))

end Write

section Writes

variable {now : Instant} {p : Proposal} {created : Bool} {f : Finding} {store : Store} {run : ℕ}
  {db : Db}

theorem advance_change (ready : Bool) :
    f.Change (f.advance now ready).2 (f.advance now ready).1 := by
  unfold Finding.advance
  split
  · exact ⟨rfl, fun _ => rfl, rfl, id⟩
  · split
    case h_1 hst => exact ⟨rfl, nofun, rfl, fun h => by simp_all⟩
    case h_2 hst => exact ⟨rfl, nofun, rfl, fun _ => by simp⟩
    case h_3 hst =>
      split
      · exact ⟨rfl, nofun, rfl, fun h => by simp_all⟩
      · exact ⟨rfl, fun _ => rfl, rfl, id⟩
    · exact ⟨rfl, fun _ => rfl, rfl, id⟩

theorem Finding.Change.orElse {f f' : Finding} {event x : Option EventType}
    (h : f.Change event f') (hx : x = none ∨ x = some .observed) : f.Change (event <|> x) f' := by
  cases event with
  | some event => exact h
  | none =>
    refine ⟨h.findingKey, fun _ => h.state rfl, h.occurrences.trans ?_, h.resolved⟩
    rcases hx with rfl | rfl <;> rfl

theorem observe_change :
    f.Change (f.observe sha256 now p created).2 (f.observe sha256 now p created).1 := by
  unfold Finding.observe
  generalize hr : Finding.mk _ _ _ _ _ _ _ _ _ _ _ _ _ _ _ _ _ _ _ _ _ _ _ _ _ = refreshed
  obtain ⟨hk, hs, ho, hres⟩ := @advance_change now refreshed p.ready
  subst hr
  refine Finding.Change.orElse ⟨hk, hs, ho, hres⟩ ?_
  split
  · exact Or.inr rfl
  · exact Or.inl rfl

theorem observe_created : (f.observe sha256 now p true).2 ≠ none := by
  unfold Finding.observe
  simp only [true_or, if_true]
  generalize (Finding.advance _ _ _).2 = event
  cases event <;> exact nofun

theorem observeProposal_eq : observeProposal sha256 now store run db p =
    db.write ((db.findings.get p.key).getD (Finding.create sha256 now store p))
      (((db.findings.get p.key).getD (Finding.create sha256 now store p)).observe sha256 now p
        (db.findings.get p.key).isNone).2
      (observedFinding sha256 now store db p) "system" (some run) "" := by
  simp only [observeProposal, observedFinding]
  split
  case h_1 h => rw [h]; rfl
  case h_2 event h => rw [h]; rfl

theorem consistent_observeProposal (h : db.Consistent) :
    (observeProposal sha256 now store run db p).Consistent := by
  rw [observeProposal_eq, observedFinding]
  cases hg : db.findings.get p.key with
  | some f => exact h.rewrite (Table.get_eq_some.mp hg).1 observe_change
  | none =>
    have htold : (Finding.create sha256 now store p).ToldBy
        (db.eventsOf (Finding.create sha256 now store p).findingKey) :=
      (eventsOf_unknown h hg).symm ▸ .nil rfl rfl rfl
    exact h.write htold observe_change (Or.inl observe_created)

def settledEvent (resolved : Bool) : Option EventType := if resolved then some .resolved else none

theorem settle_change {digest : String} {result : Evaluation} :
    f.Change (settledEvent (f.settle now digest result).2) (f.settle now digest result).1 := by
  unfold Finding.settle
  split
  · exact ⟨rfl, fun _ => rfl, rfl, id⟩
  · split
    · split <;> exact ⟨rfl, fun _ => rfl, rfl, id⟩
    · cases f.cleanSince with
      | none => exact ⟨rfl, fun _ => rfl, rfl, id⟩
      | some since =>
        by_cases hd : minutes 5 ≤ now - since ∧ (f.ruleCode ≠ .pi009 ∨ f.cleanCoverageDigest ≠ digest)
        · simp only [if_pos hd]
          exact ⟨rfl, nofun, rfl, fun _ => ⟨fun _ => rfl, fun _ => rfl⟩⟩
        · simp only [if_neg hd]
          exact ⟨rfl, fun _ => rfl, rfl, id⟩

theorem settleFinding_eq {digest : String} {result : Evaluation} :
    settleFinding now digest result run db f =
      db.write f (settledEvent (f.settle now digest result).2) (f.settle now digest result).1
        "system" (some run) "" := by
  simp only [settleFinding, settledEvent]
  split <;> rfl

end Writes

section Steps

variable {now : Instant} {store : Store} {run : ℕ} {db db' : Db}

theorem consistent_observeLoop {ps : List Proposal} (h : db.Consistent) :
    (ps.foldl (observeProposal sha256 now store run) db).Consistent := by
  induction ps generalizing db with
  | nil => exact h
  | cons p ps ih => exact ih (consistent_observeProposal h)

theorem consistent_settleLoop {digest : String} {result : Evaluation} {fs : List Finding}
    (h : db.Consistent) (hfs : ∀ f ∈ fs, f ∈ db.findings) (hn : (fs.map (·.findingKey)).Nodup) :
    (fs.foldl (settleFinding now digest result run) db).Consistent := by
  induction fs generalizing db with
  | nil => exact h
  | cons f fs ih =>
    obtain ⟨hk, hn⟩ := List.nodup_cons.mp hn
    rw [List.foldl_cons, settleFinding_eq]
    refine ih (h.rewrite (hfs f List.mem_cons_self) settle_change) (fun g hg => ?_) hn
    rw [write_findings]
    refine Table.mem_put.mpr (Or.inr ⟨hfs g (List.mem_cons_of_mem _ hg), fun he => hk ?_⟩)
    exact List.mem_map.mpr ⟨g, hg, he.trans (settle_key ..)⟩

theorem consistent_recordRun {r : RunInput} (h : db.Consistent) :
    ((FindingStep.run r).apply sha256 db).Consistent := by
  have hrun : ({ db with runs := db.runs ++
      [{ storeId := r.store.id, mode := r.store.mode, policyVersion := r.store.policyVersion
         inputDigest := r.result.inputDigest, evaluatedAt := r.now, coverage := r.coverage
         warnings := r.result.warnings, proposals := r.result.proposals
         shadow := r.store.shadowRules }] } : Db).Consistent :=
    ⟨⟨h.told, h.notified⟩, h.known⟩
  simp only [FindingStep.apply, recordRun]
  split
  · exact hrun
  · refine consistent_settleLoop (consistent_observeLoop hrun) (fun f hf => ?_) ?_
    · exact (List.mem_filter.mp hf).1
    · exact (Table.nodup _).sublist (List.filter_sublist.map _)

theorem perform_change {f f' : Finding} {actionName note : String} {till : Option Instant}
    {clock : Instant} {event : EventType} (h : f.perform actionName note till clock = .ok f')
    (he : event ∉ [EventType.opened, .reopened]) : f.Change (some event) f' := by
  have hst := (perform_spec h).2.1
  have hkept : f'.findingKey = f.findingKey ∧ f'.occurrenceCount = f.occurrenceCount ∧
      f'.resolvedAt = f.resolvedAt := by
    rcases perform_cases h with ⟨-, rfl⟩ | ⟨-, t, -, -, rfl⟩ | ⟨-, rfl | rfl⟩ <;>
      exact ⟨rfl, rfl, rfl⟩
  obtain ⟨hk, ho, hr⟩ := hkept
  refine ⟨hk, nofun, ?_, fun h => ?_⟩
  · rw [ho, if_neg (by simpa using he), Nat.add_zero]
  · rw [hr, hst, h]

theorem actionEvent_silent (actionName : String) :
    actionEvent actionName ∉ [EventType.opened, .reopened] := by
  unfold actionEvent
  split <;> decide

theorem consistent_action {key actor actionName : String} {version : ℕ} {note : String}
    {till : Option Instant} {clock : Instant} (h : db.Consistent)
    (ha : action key actor actionName version note till clock db = .ok db') : db'.Consistent := by
  obtain ⟨f, hf, performed, hp, rfl⟩ := action_cases ha
  obtain ⟨hk, hst, ho, hr⟩ := perform_change hp (actionEvent_silent actionName)
  let f' : Finding := { performed with lockVersion := performed.lockVersion + 1, updatedAt := clock }
  have hw : (db.write f (some (actionEvent actionName)) f' actor none
      (String.ofList (note.toList.take 1000))).Consistent := h.rewrite hf ⟨hk, hst, ho, hr⟩
  exact ⟨⟨hw.told, hw.notified⟩, hw.known⟩

theorem consistent_apply (h : db.Consistent) (a : FindingStep) : (a.apply sha256 db).Consistent := by
  cases a with
  | run r => exact consistent_recordRun h
  | action key actor actionName version note till clock =>
    simp only [FindingStep.apply]
    split
    case h_1 db' ha => exact consistent_action h ha
    case h_2 => exact h

end Steps

/-- After any history of runs and actions the events retell every finding, and the outbox
notifies of exactly the events that alert. -/
theorem event_log_faithful {h : List FindingStep} {db : Db}
    (hrun : Run (findingStep sha256) {} h db) : db.Faithful := by
  have hstart : Db.Consistent {} :=
    ⟨⟨fun _ hf => absurd hf Table.not_mem_empty, fun _ => rfl⟩,
      fun _ he => absurd he List.not_mem_nil⟩
  refine Db.Consistent.toFaithful (hrun.invariant_state hstart fun db a db' hdb hstep => ?_)
  exact hstep ▸ consistent_apply hdb a

open Fixture Sha256

theorem event_log_faithful_quiet :
    (∃ e ∈ (dbAfter quietHistory).events, e.alerts) ∧ (dbAfter quietHistory).Faithful := by
  have hrun : ∀ h, Run (findingStep hexdigest) {} h (dbAfter h) :=
    fun h => Run.foldl (f := FindingStep.apply hexdigest) fun _ _ _ => rfl
  exact ⟨by decide +kernel, event_log_faithful (hrun quietHistory)⟩

end LedgerGuard
