import LedgerGuard.Findings.EventLog

/-! # Runs and actions row by row

A run locks the findings that it writes one after the other, and an action on a finding
that is not locked yet may commit in between. So a history is a sequence of row steps:
each reads one row under its lock, writes it and records the event. A run is a sequence
of them.
-/

namespace LedgerGuard

open Transition

variable {sha256 : String → String}

inductive RowStep
  /-- The row of the run itself. -/
  | record (run : ReconciliationRun)
  | observe (store : Store) (now : Instant) (run : ℕ) (p : Proposal)
  | settle (now : Instant) (digest : String) (result : Evaluation) (run : ℕ)
      (storeId key : String)
  | action (key actor actionName : String) (version : ℕ) (note : String) (till : Option Instant)
      (clock : Instant)
  deriving DecidableEq

/-- A row step; an action that raises leaves the database as it is. -/
def RowStep.apply (sha256 : String → String) (db : Db) : RowStep → Db
  | .record run => { db with runs := db.runs ++ [run] }
  | .observe store now run p => observeProposal sha256 now store run db p
  | .settle now digest result run storeId key =>
    match db.findings.get key with
    | none => db
    | some f =>
      if f.storeId = storeId ∧ f.state ≠ .resolved then settleFinding now digest result run db f
      else db
  | .action key actor actionName version note till clock =>
    match LedgerGuard.action key actor actionName version note till clock db with
    | .ok db' => db'
    | .error _ => db

def rowStep (sha256 : String → String) (db : Db) (a : RowStep) (db' : Db) : Prop :=
  db' = a.apply sha256 db

/-- The database after some row steps. -/
def Db.after (sha256 : String → String) (db : Db) (steps : List RowStep) : Db :=
  steps.foldl (RowStep.apply sha256) db

/-- The row steps of a run: its own row, the proposals, the unresolved findings. -/
def RunInput.rows (sha256 : String → String) (db : Db) (r : RunInput) : List RowStep :=
  let run := db.runs.length
  let record : RowStep := .record
    { storeId := r.store.id, mode := r.store.mode, policyVersion := r.store.policyVersion
      inputDigest := r.result.inputDigest, evaluatedAt := r.now, coverage := r.coverage
      warnings := r.result.warnings, proposals := r.result.proposals
      shadow := r.store.shadowRules }
  if r.store.shadowRules then [record]
  else
    let observed := record :: r.result.proposals.map (.observe r.store r.now run)
    observed ++ ((db.after sha256 observed).unresolved r.store.id).map fun f =>
      .settle r.now (coverageDigest sha256 r.coverage) r.result run r.store.id f.findingKey

def FindingStep.rows (sha256 : String → String) (db : Db) : FindingStep → List RowStep
  | .run r => r.rows sha256 db
  | .action key actor actionName version note till clock =>
    [.action key actor actionName version note till clock]

theorem observeLoop_eq {store : Store} {now : Instant} {run : ℕ} {db : Db} {ps : List Proposal} :
    ps.foldl (observeProposal sha256 now store run) db =
      db.after sha256 (ps.map (.observe store now run)) := by
  rw [Db.after, List.foldl_map]
  rfl

theorem settleLoop_eq {storeId : String} {now : Instant} {digest : String} {result : Evaluation}
    {run : ℕ} {db : Db} {fs : List Finding} (hn : (fs.map (·.findingKey)).Nodup)
    (h : ∀ f ∈ fs, f ∈ db.findings ∧ f.storeId = storeId ∧ f.state ≠ .resolved) :
    fs.foldl (settleFinding now digest result run) db =
      db.after sha256 (fs.map fun f => .settle now digest result run storeId f.findingKey) := by
  induction fs generalizing db with
  | nil => rfl
  | cons f fs ih =>
    obtain ⟨hk, hn⟩ := List.nodup_cons.mp hn
    obtain ⟨⟨hf, hopen⟩, hfs⟩ := List.forall_mem_cons.mp h
    have hone : (RowStep.settle now digest result run storeId f.findingKey).apply sha256 db =
        settleFinding now digest result run db f := by
      simp only [RowStep.apply, Table.get_eq_some.mpr ⟨hf, rfl⟩, if_pos hopen]
    rw [List.foldl_cons, List.map_cons, Db.after, List.foldl_cons, hone]
    refine ih hn fun g hg => ⟨?_, (hfs g hg).2⟩
    rw [settleFinding_eq, write_findings]
    refine Table.mem_put.mpr (Or.inr ⟨(hfs g hg).1, fun he => hk ?_⟩)
    exact List.mem_map.mpr ⟨g, hg, he.trans (settle_key ..)⟩

theorem apply_eq_after (db : Db) (a : FindingStep) :
    a.apply sha256 db = db.after sha256 (a.rows sha256 db) := by
  cases a with
  | action => rfl
  | run r =>
    simp only [FindingStep.apply, recordRun, FindingStep.rows, RunInput.rows]
    split
    · rfl
    · rw [Db.after, List.foldl_append]
      have hloop := @observeLoop_eq sha256 r.store r.now db.runs.length
        { db with runs := db.runs ++
          [{ storeId := r.store.id, mode := r.store.mode, policyVersion := r.store.policyVersion
             inputDigest := r.result.inputDigest, evaluatedAt := r.now, coverage := r.coverage
             warnings := r.result.warnings, proposals := r.result.proposals
             shadow := r.store.shadowRules }] } r.result.proposals
      rw [hloop]
      refine settleLoop_eq ((Table.nodup _).sublist (List.filter_sublist.map _)) fun f hf => ?_
      obtain ⟨hmem, hopen⟩ := List.mem_filter.mp hf
      exact ⟨hmem, by simpa using hopen⟩

theorem exists_rows {h : List FindingStep} {db : Db} (hrun : Run (findingStep sha256) {} h db) :
    ∃ steps, db = Db.after sha256 {} steps := by
  induction hrun with
  | nil => exact ⟨[], rfl⟩
  | @snoc _ db a db' _ hstep ih =>
    obtain ⟨steps, rfl⟩ := ih
    refine ⟨steps ++ a.rows sha256 (Db.after sha256 {} steps), ?_⟩
    rw [hstep, apply_eq_after]
    exact (List.foldl_append ..).symm

theorem run_after (db : Db) (steps : List RowStep) :
    Run (rowStep sha256) db steps (db.after sha256 steps) :=
  Run.foldl fun _ _ _ => rfl

/-- The states that an event leads from and to. -/
inductive Moves : FindingState → EventType → FindingState → Prop
  | observed (s) : Moves s .observed s
  | opened : Moves .provisional .opened .opened
  | reopened : Moves .resolved .reopened .reopened
  | unsuppressed : Moves .suppressed .unsuppressed .opened
  | resolved {s} (h : s ≠ .resolved) : Moves s .resolved .resolved
  | acknowledge {s} (h : s ∈ [FindingState.opened, .reopened, .acknowledged]) :
      Moves s .acknowledge .acknowledged
  | suppress {s} (h : s ∈ [FindingState.opened, .reopened, .acknowledged, .suppressed]) :
      Moves s .suppress .suppressed
  | externalResolutionRequested (s) : Moves s .externalResolutionRequested s
  | note (s) : Moves s .note s

/-- One write of a finding with the event that tells it. -/
structure Finding.Written (f : Finding) (event : Option EventType) (f' : Finding) : Prop where
  findingKey : f'.findingKey = f.findingKey
  lockVersion : f'.lockVersion = f.lockVersion + 1
  silent : event = none → f'.state = f.state
  moves : ∀ e, event = some e → Moves f.state e f'.state

section Written

variable {now : Instant} {p : Proposal} {created : Bool} {f : Finding}

theorem advance_moves (ready : Bool) :
    (f.advance now ready).1.lockVersion = f.lockVersion ∧
      ((f.advance now ready).2 = none → (f.advance now ready).1.state = f.state) ∧
      ∀ e, (f.advance now ready).2 = some e → Moves f.state e (f.advance now ready).1.state := by
  unfold Finding.advance
  split
  · exact ⟨rfl, fun _ => rfl, nofun⟩
  · split
    case h_1 hst =>
      refine ⟨rfl, nofun, fun e he => ?_⟩
      obtain rfl := Option.some.inj he
      rw [hst]
      exact .opened
    case h_2 hst =>
      refine ⟨rfl, nofun, fun e he => ?_⟩
      obtain rfl := Option.some.inj he
      rw [hst]
      exact .reopened
    case h_3 hst =>
      split
      · refine ⟨rfl, nofun, fun e he => ?_⟩
        obtain rfl := Option.some.inj he
        rw [hst]
        exact .unsuppressed
      · exact ⟨rfl, fun _ => rfl, nofun⟩
    · exact ⟨rfl, fun _ => rfl, nofun⟩

theorem observe_advances : ∃ g : Finding,
    f.observe sha256 now p created =
      ({ (g.advance now p.ready).1 with
          updatedAt := now, lockVersion := (g.advance now p.ready).1.lockVersion + 1 },
        (g.advance now p.ready).2 <|>
          if created ∨ f.evidenceHash ≠ hashEvidence sha256 p.evidence then some .observed
          else none) ∧
      g.findingKey = f.findingKey ∧ g.state = f.state ∧ g.lockVersion = f.lockVersion :=
  ⟨_, rfl, rfl, rfl, rfl⟩

theorem observe_written : f.Written (f.observe sha256 now p created).2
    (f.observe sha256 now p created).1 := by
  obtain ⟨g, hg, hk, hst, hlv⟩ := @observe_advances sha256 now p created f
  obtain ⟨hv, hs, hm⟩ := @advance_moves now g p.ready
  have hkey := (@advance_spec now g p.ready).1.findingKey
  rw [hst] at hs hm
  rw [hg]
  cases ha : (g.advance now p.ready).2 with
  | some event =>
    refine ⟨hkey.trans hk, congrArg (· + 1) (hv.trans hlv), nofun, fun e he => ?_⟩
    obtain rfl := Option.some.inj he
    exact hm event ha
  | none =>
    refine ⟨hkey.trans hk, congrArg (· + 1) (hv.trans hlv), fun _ => hs ha, fun e he => ?_⟩
    dsimp only at he ⊢
    rw [hs ha]
    split at he
    · obtain rfl := Option.some.inj he
      exact .observed _
    · cases he

/-- The resolution loop saves the finding; it passes over one that the run proposed, and over one
without clean evidence that the run cannot judge. -/
def Finding.Settles (f : Finding) (result : Evaluation) : Prop :=
  f.findingKey ∉ result.proposals.map (·.key) ∧ (f.cleanSince.isSome ∨
    f.ruleCode ∈ result.evaluatedRules ∧ ∀ x ∈ f.identities, x ∉ result.blockedIdentities)

variable {digest : String} {result : Evaluation}

theorem settle_written (hst : f.state ≠ .resolved) (h : f.Settles result) :
    f.Written (settledEvent (f.settle now digest result).2) (f.settle now digest result).1 := by
  have hkept : ∀ {f' : Finding}, f'.findingKey = f.findingKey → f'.lockVersion = f.lockVersion + 1 →
      f'.state = f.state → f.Written (settledEvent false) f' :=
    fun hk hv hs => ⟨hk, hv, fun _ => hs, nofun⟩
  unfold Finding.settle
  rw [if_neg h.1]
  split
  case isTrue hu =>
    have hc : f.cleanSince.isSome = true := by
      refine h.2.resolve_right fun ⟨hrule, hids⟩ => ?_
      rcases hu with hu | hu
      · exact hu hrule
      · obtain ⟨x, hx, hb⟩ := List.any_eq_true.mp hu
        exact hids x hx (of_decide_eq_true hb)
    rw [if_pos hc]
    exact hkept rfl rfl rfl
  case isFalse =>
    cases f.cleanSince with
    | none => exact hkept rfl rfl rfl
    | some since =>
      by_cases hd : minutes 5 ≤ now - since ∧
          (f.ruleCode ≠ .pi009 ∨ f.cleanCoverageDigest ≠ digest)
      · simp only [if_pos hd]
        refine ⟨rfl, rfl, nofun, fun e he => ?_⟩
        obtain rfl := Option.some.inj he
        exact .resolved hst
      · simp only [if_neg hd]
        exact hkept rfl rfl rfl

theorem settle_of_not (h : ¬ f.Settles result) : f.settle now digest result = (f, false) := by
  unfold Finding.settle
  split
  · rfl
  case isFalse hp =>
    have hjudged : ¬ (f.cleanSince.isSome ∨ f.ruleCode ∈ result.evaluatedRules ∧
        ∀ x ∈ f.identities, x ∉ result.blockedIdentities) := fun hx => h ⟨hp, hx⟩
    obtain ⟨hc, hu⟩ := not_or.mp hjudged
    rw [if_pos, if_neg hc]
    by_contra hn
    simp only [not_or, not_not, List.any_eq_true, decide_eq_true_eq, not_exists, not_and] at hn
    exact hu hn

theorem perform_written {f' : Finding} {actionName note : String} {till : Option Instant}
    {clock : Instant} (ha : actionName ∈ ["acknowledge", "suppress", "resolve", "note"])
    (h : f.perform actionName note till clock = .ok f') : f.Written (some (actionEvent actionName))
      { f' with lockVersion := f'.lockVersion + 1, updatedAt := clock } := by
  simp only [List.mem_cons, List.not_mem_nil, or_false] at ha
  have hkept : f'.findingKey = f.findingKey ∧ f'.lockVersion = f.lockVersion := by
    rcases perform_cases h with ⟨-, rfl⟩ | ⟨-, t, -, -, rfl⟩ | ⟨-, rfl | rfl⟩ <;> exact ⟨rfl, rfl⟩
  refine ⟨hkept.1, congrArg (· + 1) hkept.2, nofun, fun e he => ?_⟩
  obtain rfl := Option.some.inj he
  rcases ha with rfl | rfl | rfl | rfl
  · simp only [Finding.perform, if_true] at h
    split at h
    case isTrue hm =>
      obtain rfl := Except.ok.inj h
      exact .acknowledge hm
    · cases h
  · simp only [Finding.perform, String.reduceEq, if_false, if_true] at h
    split at h
    · cases h
    case isFalse hm =>
      split at h
      · cases h
      · split at h
        · cases h
        · obtain rfl := Except.ok.inj h
          exact .suppress (not_not.mp hm)
  · simp only [Finding.perform, String.reduceEq, if_false, if_true] at h
    split at h
    · cases h
    · obtain rfl := Except.ok.inj h
      exact .externalResolutionRequested _
  · simp only [Finding.perform, String.reduceEq, if_false] at h
    split at h
    · cases h
    · obtain rfl := Except.ok.inj h
      exact .note _

end Written

def RowStep.Saves (db : Db) (key : String) : RowStep → Prop
  | .record _ => False
  | .observe _ _ _ p => p.key = key
  | .settle _ _ result _ storeId k => k = key ∧ ∃ f, db.findings.get key = some f ∧
      f.storeId = storeId ∧ f.state ≠ .resolved ∧ f.Settles result
  | .action k actor actionName version note till clock => k = key ∧
      ∃ db', LedgerGuard.action k actor actionName version note till clock db = .ok db'

/-- The row step saves the version `f'` of the finding `f` and records the event. -/
structure RowStep.Writes (sha256 : String → String) (db : Db) (a : RowStep) (f : Finding)
    (event : Option EventType) (f' : Finding) : Prop where
  saves : ∀ key, a.Saves db key ↔ key = f.findingKey
  current : db.findings.get f.findingKey = some f ∨
    db.findings.get f.findingKey = none ∧ f.state = .provisional
  written : f.Written event f'
  findings : (a.apply sha256 db).findings = db.findings.put f'
  events : ∃ actor run note,
    (a.apply sha256 db).events = (db.write f event f' actor run note).events

/-- The row step saves nothing. -/
structure RowStep.Passes (sha256 : String → String) (db : Db) (a : RowStep) : Prop where
  saves : ∀ key, ¬ a.Saves db key
  findings : ∀ key, (a.apply sha256 db).findings.get key = db.findings.get key
  events : (a.apply sha256 db).events = db.events

theorem action_accepted {key actor actionName : String} {version : ℕ} {note : String}
    {till : Option Instant} {clock : Instant} {db db' : Db}
    (h : action key actor actionName version note till clock db = .ok db') :
    ∃ f, db.findings.get key = some f ∧ f.lockVersion = version ∧
      actionName ∈ ["acknowledge", "suppress", "resolve", "note"] ∧ ∃ performed,
        f.perform actionName note till clock = .ok performed ∧
          db' = { db.write f (some (actionEvent actionName))
              { performed with lockVersion := performed.lockVersion + 1, updatedAt := clock } actor
              none (String.ofList (note.toList.take 1000)) with
            audit := db.audit ++ [⟨actor, "finding." ++ actionName, key⟩] } := by
  unfold action at h
  cases hg : db.findings.get key with
  | none =>
    rw [hg] at h
    cases h
  | some f =>
    rw [hg] at h
    dsimp only at h
    split_ifs at h with hv hn
    cases hp : f.perform actionName note till clock with
    | error e =>
      rw [hp] at h
      cases h
    | ok performed =>
      rw [hp] at h
      exact ⟨f, rfl, not_not.mp hv, hn, performed, hp, (Except.ok.inj h).symm⟩

section Cases

variable {db : Db} {now : Instant} {run : ℕ}

theorem observe_writes {store : Store} {p : Proposal} : ∃ f event f',
    (RowStep.observe store now run p).Writes sha256 db f event f' := by
  have heq : (RowStep.observe store now run p).apply sha256 db = _ := observeProposal_eq
  have hkey : ((db.findings.get p.key).getD (Finding.create sha256 now store p)).findingKey =
      p.key := by
    cases hg : db.findings.get p.key with
    | none => rfl
    | some f => exact (Table.get_eq_some.mp hg).2
  refine ⟨(db.findings.get p.key).getD (Finding.create sha256 now store p), _, _,
    fun key => ?_, ?_, @observe_written sha256 now p (db.findings.get p.key).isNone _, ?_, "system",
    some run, "", ?_⟩
  · rw [hkey]
    exact eq_comm
  · rw [hkey]
    cases db.findings.get p.key with
    | none => exact Or.inr ⟨rfl, rfl⟩
    | some f => exact Or.inl rfl
  · rw [heq, write_findings]
    rfl
  · rw [heq]
    rfl

theorem settle_writes_or_passes {digest : String} {result : Evaluation} {storeId k : String} :
    (∃ f event f', (RowStep.settle now digest result run storeId k).Writes sha256 db f event f') ∨
      (RowStep.settle now digest result run storeId k).Passes sha256 db := by
  cases hf : db.findings.get k with
  | none =>
    have heq : (RowStep.settle now digest result run storeId k).apply sha256 db = db := by
      simp only [RowStep.apply, hf]
    refine Or.inr ⟨?_, fun _ => by rw [heq], by rw [heq]⟩
    rintro key ⟨rfl, f, hg, -⟩
    rw [hf] at hg
    cases hg
  | some f =>
    obtain rfl := (Table.get_eq_some.mp hf).2
    by_cases hopen : f.storeId = storeId ∧ f.state ≠ .resolved
    · have heq : (RowStep.settle now digest result run storeId f.findingKey).apply sha256 db =
          settleFinding now digest result run db f := by
        simp only [RowStep.apply, hf, if_pos hopen]
      by_cases hs : f.Settles result
      · refine Or.inl ⟨f, _, _, fun key => ⟨fun h => h.1.symm, ?_⟩, Or.inl hf,
          @settle_written now f digest result hopen.2 hs, ?_, "system", some run, "", ?_⟩
        · rintro rfl
          exact ⟨rfl, f, hf, hopen.1, hopen.2, hs⟩
        · rw [heq, settleFinding_eq, write_findings]
        · rw [heq, settleFinding_eq]
      · have hsaved : settleFinding now digest result run db f = db.save f := by
          simp only [settleFinding, settle_of_not hs, Bool.false_eq_true, if_false]
        refine Or.inr ⟨?_, fun key => ?_, ?_⟩
        · rintro key ⟨rfl, g, hg, -, -, hsettles⟩
          obtain rfl := Option.some.inj (hf.symm.trans hg)
          exact hs hsettles
        · rw [heq, hsaved, Db.save, Table.get_put]
          split
          case isTrue hk => rw [hk, hf]
          · rfl
        · rw [heq, hsaved]
          rfl
    · have heq : (RowStep.settle now digest result run storeId f.findingKey).apply sha256 db =
          db := by
        simp only [RowStep.apply, hf, if_neg hopen]
      refine Or.inr ⟨?_, fun _ => by rw [heq], by rw [heq]⟩
      rintro key ⟨rfl, g, hg, hstore, hst, -⟩
      obtain rfl := Option.some.inj (hf.symm.trans hg)
      exact hopen ⟨hstore, hst⟩

theorem action_writes_or_passes {key actor actionName : String} {version : ℕ} {note : String}
    {till : Option Instant} {clock : Instant} : (∃ f event f', (RowStep.action key actor actionName
        version note till clock).Writes sha256 db f event f') ∨
      (RowStep.action key actor actionName version note till clock).Passes sha256 db := by
  cases ha : action key actor actionName version note till clock db with
  | error e =>
    have heq : (RowStep.action key actor actionName version note till clock).apply sha256 db =
        db := by
      simp only [RowStep.apply, ha]
    refine Or.inr ⟨?_, fun _ => by rw [heq], by rw [heq]⟩
    rintro k ⟨-, db', hok⟩
    rw [ha] at hok
    cases hok
  | ok db' =>
    have heq : (RowStep.action key actor actionName version note till clock).apply sha256 db =
        db' := by
      simp only [RowStep.apply, ha]
    obtain ⟨f, hf, -, hname, performed, hp, hdb⟩ := action_accepted ha
    obtain rfl := (Table.get_eq_some.mp hf).2
    refine Or.inl ⟨f, _, _, fun k => ⟨fun h => h.1.symm, ?_⟩, Or.inl hf, perform_written hname hp,
      ?_, actor, none, String.ofList (note.toList.take 1000), ?_⟩
    · rintro rfl
      exact ⟨rfl, db', ha⟩
    · rw [heq, hdb]
      exact write_findings
    · rw [heq, hdb]

end Cases

theorem writes_or_passes (sha256 : String → String) (db : Db) (a : RowStep) :
    (∃ f event f', a.Writes sha256 db f event f') ∨ a.Passes sha256 db := by
  cases a with
  | record run => exact Or.inr ⟨fun _ => not_false, fun _ => rfl, rfl⟩
  | observe => exact Or.inl observe_writes
  | settle => exact settle_writes_or_passes
  | action => exact action_writes_or_passes

end LedgerGuard
