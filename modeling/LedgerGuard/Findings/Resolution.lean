import LedgerGuard.Findings.Service
import LedgerGuard.Core.Fixtures
import LedgerGuard.Lib.Sha256
import LedgerGuard.Lib.Transition

/-! # Resolution needs clean runs

The history of a database of findings: runs of stores and operator actions. A
run that resolves a finding ends a stretch of clean runs of its store that began
at least five minutes earlier, as long as shadow runs do not interrupt clean
evidence.
-/

namespace LedgerGuard

open Transition

variable {sha256 : String → String}

/-- One run of `reconcile` with the store row it reads and the result it gets. -/
structure RunInput where
  store : Store
  now : Instant
  coverage : List Coverage
  result : Evaluation
  deriving DecidableEq

inductive FindingStep
  | run (r : RunInput)
  | action (key actor actionName : String) (version : ℕ) (note : String) (till : Option Instant)
      (clock : Instant)
  deriving DecidableEq

/-- A step of the history; an action that raises leaves the database as it is. -/
def FindingStep.apply (sha256 : String → String) (db : Db) : FindingStep → Db
  | .run r => recordRun sha256 r.now r.store r.coverage r.result db
  | .action key actor actionName version note till clock =>
    match LedgerGuard.action key actor actionName version note till clock db with
    | .ok db' => db'
    | .error _ => db

def findingStep (sha256 : String → String) (db : Db) (a : FindingStep) (db' : Db) : Prop :=
  db' = a.apply sha256 db

/-- The run is clean evidence for the finding: it did not propose it, it evaluated its rule and
it blocked none of its identities. -/
def RunInput.Clean (r : RunInput) (f : Finding) : Prop :=
  f.findingKey ∉ r.result.proposals.map (·.key) ∧ f.ruleCode ∈ r.result.evaluatedRules ∧
    ∀ x ∈ f.identities, x ∉ r.result.blockedIdentities

instance (r : RunInput) (f : Finding) : Decidable (r.Clean f) :=
  inferInstanceAs (Decidable (_ ∧ _ ∧ _))

/-- Two versions of one finding. -/
structure Finding.Same (f f' : Finding) : Prop where
  findingKey : f'.findingKey = f.findingKey
  storeId : f'.storeId = f.storeId
  ruleCode : f'.ruleCode = f.ruleCode
  identities : f'.identities = f.identities

theorem Finding.Same.refl (f : Finding) : f.Same f := ⟨rfl, rfl, rfl, rfl⟩

theorem Finding.Same.clean_iff {f f' : Finding} (h : f.Same f') {r : RunInput} :
    r.Clean f' ↔ r.Clean f := by
  rw [RunInput.Clean, RunInput.Clean, h.findingKey, h.ruleCode, h.identities]

section Observe

variable {now : Instant} {p : Proposal} {created : Bool} {f : Finding}

theorem advance_spec (ready : Bool) : f.Same (f.advance now ready).1 ∧
    (f.advance now ready).1.cleanSince = f.cleanSince ∧
    (f.state ≠ .resolved → (f.advance now ready).1.state ≠ .resolved) := by
  unfold Finding.advance
  split
  · exact ⟨.refl f, rfl, id⟩
  · split
    · exact ⟨⟨rfl, rfl, rfl, rfl⟩, rfl, fun _ => nofun⟩
    · exact ⟨⟨rfl, rfl, rfl, rfl⟩, rfl, fun _ => nofun⟩
    · split
      · exact ⟨⟨rfl, rfl, rfl, rfl⟩, rfl, fun _ => nofun⟩
      · exact ⟨.refl f, rfl, id⟩
    · exact ⟨.refl f, rfl, id⟩

theorem observe_spec : f.Same (f.observe sha256 now p created).1 ∧
    (f.observe sha256 now p created).1.cleanSince = none ∧
    (f.state ≠ .resolved → (f.observe sha256 now p created).1.state ≠ .resolved) := by
  unfold Finding.observe
  generalize hr : Finding.mk _ _ _ _ _ _ _ _ _ _ _ _ _ _ _ _ _ _ _ _ _ _ _ _ _ = refreshed
  obtain ⟨hs, hc, hn⟩ := @advance_spec now refreshed p.ready
  subst hr
  exact ⟨⟨hs.findingKey, hs.storeId, hs.ruleCode, hs.identities⟩, hc, hn⟩

/-- The version of a finding that the round of a proposal with its key saves. -/
def observedFinding (sha256 : String → String) (now : Instant) (store : Store) (db : Db)
    (p : Proposal) : Finding :=
  (((db.findings.get p.key).getD (Finding.create sha256 now store p)).observe sha256 now p
    (db.findings.get p.key).isNone).1

theorem observeProposal_findings {store : Store} {run : ℕ} {db : Db} :
    (observeProposal sha256 now store run db p).findings =
      db.findings.put (observedFinding sha256 now store db p) := by
  simp only [observeProposal, observedFinding]
  split <;> rfl

theorem observedFinding_spec {store : Store} {db : Db} :
    (observedFinding sha256 now store db p).findingKey = p.key ∧
      (observedFinding sha256 now store db p).cleanSince = none ∧
      ((∀ f, db.findings.get p.key = some f → f.state ≠ .resolved) →
        (observedFinding sha256 now store db p).state ≠ .resolved) := by
  unfold observedFinding
  obtain ⟨hs, hc, hn⟩ := @observe_spec sha256 now p (db.findings.get p.key).isNone
    ((db.findings.get p.key).getD (Finding.create sha256 now store p))
  refine ⟨?_, hc, fun h => hn ?_⟩
  · rw [hs.findingKey]
    cases hg : db.findings.get p.key with
    | none => rfl
    | some f => exact (Table.get_eq_some.mp hg).2
  · cases hg : db.findings.get p.key with
    | none => exact nofun
    | some f => exact h f hg

end Observe

section Loops

variable {now : Instant} {store : Store} {run : ℕ} {db : Db} {ps : List Proposal} {k : String}
  {f f' : Finding}

theorem get_observeLoop (h : k ∉ ps.map (·.key)) :
    (ps.foldl (observeProposal sha256 now store run) db).findings.get k = db.findings.get k := by
  induction ps generalizing db with
  | nil => rfl
  | cons p ps ih =>
    obtain ⟨hk, hks⟩ := not_or.mp (fun hm => h (List.mem_cons.mpr hm))
    rw [List.foldl_cons, ih hks, observeProposal_findings, Table.get_put, if_neg]
    rwa [observedFinding_spec.1]

theorem observed_of_observeLoop (h : k ∈ ps.map (·.key))
    (hf : (ps.foldl (observeProposal sha256 now store run) db).findings.get k = some f) :
    ∃ db' p, f = observedFinding sha256 now store db' p := by
  induction ps generalizing db with
  | nil => exact absurd h List.not_mem_nil
  | cons p ps ih =>
    by_cases hks : k ∈ ps.map (·.key)
    · exact ih hks hf
    · obtain rfl : k = p.key := (List.mem_cons.mp h).resolve_right hks
      rw [List.foldl_cons, get_observeLoop hks, observeProposal_findings, Table.get_put, if_pos,
        Option.some.injEq] at hf
      · exact ⟨db, p, hf.symm⟩
      · exact observedFinding_spec.1.symm

theorem cleanSince_observeLoop (h : k ∈ ps.map (·.key))
    (hf : (ps.foldl (observeProposal sha256 now store run) db).findings.get k = some f) :
    f.cleanSince = none := by
  obtain ⟨db', p, rfl⟩ := observed_of_observeLoop h hf
  exact observedFinding_spec.2.1

theorem state_observeLoop (h : ∀ f, db.findings.get k = some f → f.state ≠ .resolved)
    (hf : (ps.foldl (observeProposal sha256 now store run) db).findings.get k = some f) :
    f.state ≠ .resolved := by
  induction ps generalizing db with
  | nil => exact h f hf
  | cons p ps ih =>
    refine ih (fun f' hf' => ?_) hf
    rw [observeProposal_findings, Table.get_put, observedFinding_spec.1] at hf'
    by_cases hk : k = p.key
    · rw [if_pos hk, Option.some.injEq] at hf'
      exact hf' ▸ observedFinding_spec.2.2 (hk ▸ h)
    · rw [if_neg hk] at hf'
      exact h f' hf'

theorem settle_cases (r : RunInput) (digest : String) (f : Finding) :
    (f.findingKey ∈ r.result.proposals.map (·.key) ∧
      (f.settle r.now digest r.result).1 = f) ∨
    (f.Same (f.settle r.now digest r.result).1 ∧
      (f.settle r.now digest r.result).1.state = f.state ∧
      (f.settle r.now digest r.result).1.cleanSince = none) ∨
    (f.Same (f.settle r.now digest r.result).1 ∧ r.Clean f ∧
      (f.settle r.now digest r.result).1.state = f.state ∧
      (f.cleanSince = none ∧ (f.settle r.now digest r.result).1.cleanSince = some r.now ∨
        (f.settle r.now digest r.result).1.cleanSince = f.cleanSince)) ∨
    (f.Same (f.settle r.now digest r.result).1 ∧ r.Clean f ∧
      (f.settle r.now digest r.result).1.state = .resolved ∧
      ∃ t, f.cleanSince = some t ∧ minutes 5 ≤ r.now - t) := by
  unfold Finding.settle
  split
  case isTrue hp => exact Or.inl ⟨hp, rfl⟩
  case isFalse hp =>
    split
    case isTrue hu =>
      refine Or.inr (Or.inl ?_)
      split
      · exact ⟨⟨rfl, rfl, rfl, rfl⟩, rfl, rfl⟩
      case isFalse hc => exact ⟨.refl f, rfl, by simpa using hc⟩
    case isFalse hu =>
      simp only [not_or, not_not, List.any_eq_true, decide_eq_true_eq, not_exists, not_and] at hu
      have hclean : r.Clean f := ⟨hp, hu.1, hu.2⟩
      cases hs : f.cleanSince with
      | none =>
        exact Or.inr (Or.inr (Or.inl ⟨⟨rfl, rfl, rfl, rfl⟩, hclean, rfl, Or.inl ⟨rfl, rfl⟩⟩))
      | some t =>
        by_cases hd : minutes 5 ≤ r.now - t ∧ (f.ruleCode ≠ .pi009 ∨ f.cleanCoverageDigest ≠ digest)
        · simp only [if_pos hd]
          exact Or.inr (Or.inr (Or.inr ⟨⟨rfl, rfl, rfl, rfl⟩, hclean, trivial, t, rfl, hd.1⟩))
        · simp only [if_neg hd]
          exact Or.inr (Or.inr (Or.inl ⟨⟨rfl, rfl, rfl, rfl⟩, hclean, trivial, Or.inr hs⟩))

theorem settle_key (now : Instant) (digest : String) (result : Evaluation) (f : Finding) :
    (f.settle now digest result).1.findingKey = f.findingKey := by
  rcases settle_cases ⟨⟨"", .test, 0, false⟩, now, [], result⟩ digest f with
    ⟨-, h⟩ | ⟨h, -⟩ | ⟨h, -⟩ | ⟨h, -⟩
  · rw [h]
  · exact h.findingKey
  · exact h.findingKey
  · exact h.findingKey

theorem settleLoop_findings {digest : String} {result : Evaluation} {fs : List Finding} :
    (fs.foldl (settleFinding now digest result run) db).findings =
      fs.foldl (fun t f => t.put (f.settle now digest result).1) db.findings := by
  induction fs generalizing db with
  | nil => rfl
  | cons f fs ih =>
    have hone : (settleFinding now digest result run db f).findings =
        db.findings.put (f.settle now digest result).1 := by
      simp only [settleFinding]
      split <;> rfl
    rw [List.foldl_cons, List.foldl_cons, ih, hone]

theorem mem_settleLoop {digest : String} {result : Evaluation} :
    f' ∈ ((db.unresolved store.id).foldl (settleFinding now digest result run) db).findings ↔
      (∃ f ∈ db.findings, f.storeId = store.id ∧ f.state ≠ .resolved ∧
        f' = (f.settle now digest result).1) ∨
      (f' ∈ db.findings ∧ ¬ (f'.storeId = store.id ∧ f'.state ≠ .resolved)) := by
  have hmem : ∀ f, f ∈ db.unresolved store.id ↔
      f ∈ db.findings ∧ f.storeId = store.id ∧ f.state ≠ .resolved := by
    intro f
    simp only [Db.unresolved, List.mem_filter, Bool.and_eq_true, decide_eq_true_eq]
    rfl
  have hn : ((db.unresolved store.id).map (·.findingKey)).Nodup :=
    db.findings.nodup.sublist ((List.filter_sublist).map _)
  rw [settleLoop_findings, Table.mem_foldl_put (settle_key now digest result) hn]
  simp only [hmem, and_assoc]
  refine or_congr Iff.rfl (and_congr_right fun hf => not_congr ?_)
  constructor
  · intro hk
    obtain ⟨f, hf', he⟩ := List.mem_map.mp hk
    obtain ⟨hf', hst⟩ := (hmem f).mp hf'
    exact Table.eq_of_key hf' hf he ▸ hst
  · intro hst
    exact List.mem_map.mpr ⟨f', (hmem f').mpr ⟨hf, hst⟩, rfl⟩

end Loops

theorem perform_cases {f f' : Finding} {actionName note : String} {till : Option Instant}
    {clock : Instant} (h : f.perform actionName note till clock = .ok f') :
    (f.state ∈ [FindingState.opened, .reopened, .acknowledged] ∧
      f' = { f with state := .acknowledged }) ∨
    (f.state ∈ [FindingState.opened, .reopened, .acknowledged, .suppressed] ∧
      ∃ t, clock < t ∧ t ≤ clock + minutes (7 * 24 * 60) ∧
        f' = { f with state := .suppressed, suppressedUntil := some t }) ∨
    (isBlank note = false ∧ (f' = { f with cleanSince := none } ∨ f' = f)) := by
  unfold Finding.perform at h
  split at h
  · split at h
    case isTrue hm => exact Or.inl ⟨hm, (Except.ok.inj h).symm⟩
    · cases h
  · split at h
    · split at h
      · cases h
      case isFalse hm =>
        split at h
        · cases h
        case h_2 t =>
          split at h
          · cases h
          case isFalse hc =>
            obtain ⟨h₁, h₂⟩ := not_not.mp (not_or.mp hc).2
            exact Or.inr (Or.inl ⟨not_not.mp hm, t, h₁, h₂, (Except.ok.inj h).symm⟩)
    · split at h
      · cases h
      case isFalse hb =>
        refine Or.inr (Or.inr ⟨Bool.not_eq_true _ ▸ hb, ?_⟩)
        split at h
        · exact Or.inl (Except.ok.inj h).symm
        · exact Or.inr (Except.ok.inj h).symm

/-- An action neither resolves a finding nor revives a resolved one, and it can only drop clean
evidence. -/
theorem perform_spec {f f' : Finding} {actionName note : String} {till : Option Instant}
    {clock : Instant} (h : f.perform actionName note till clock = .ok f') :
    f.Same f' ∧ (f'.state = .resolved ↔ f.state = .resolved) ∧
      (f'.cleanSince = f.cleanSince ∨ f'.cleanSince = none) := by
  have hopen : ∀ states : List FindingState, FindingState.resolved ∉ states → f.state ∈ states →
      f.state ≠ .resolved := fun states hn hm he => hn (he ▸ hm)
  rcases perform_cases h with ⟨hm, rfl⟩ | ⟨hm, t, -, -, rfl⟩ | ⟨-, rfl | rfl⟩
  · have hne := hopen _ (by decide) hm
    exact ⟨⟨rfl, rfl, rfl, rfl⟩, ⟨nofun, fun he => absurd he hne⟩, Or.inl rfl⟩
  · have hne := hopen _ (by decide) hm
    exact ⟨⟨rfl, rfl, rfl, rfl⟩, ⟨nofun, fun he => absurd he hne⟩, Or.inl rfl⟩
  · exact ⟨⟨rfl, rfl, rfl, rfl⟩, Iff.rfl, Or.inr rfl⟩
  · exact ⟨.refl _, Iff.rfl, Or.inl rfl⟩

theorem action_cases {key actor actionName : String} {version : ℕ} {note : String}
    {till : Option Instant} {clock : Instant} {db db' : Db}
    (h : action key actor actionName version note till clock db = .ok db') :
    ∃ f ∈ db.findings, ∃ performed, f.perform actionName note till clock = .ok performed ∧
      db' = { (db.save { performed with lockVersion := performed.lockVersion + 1
                                        updatedAt := clock }).event
          { performed with lockVersion := performed.lockVersion + 1, updatedAt := clock }
          (actionEvent actionName) f.state actor none (String.ofList (note.toList.take 1000)) with
        audit := db.audit ++ [⟨actor, "finding." ++ actionName, key⟩] } := by
  unfold action at h
  split at h
  · cases h
  case h_2 f hg =>
    split_ifs at h
    cases hp : f.perform actionName note till clock with
    | error e =>
      rw [hp] at h
      cases h
    | ok performed =>
      rw [hp] at h
      exact ⟨f, (Table.get_eq_some.mp hg).1, performed, hp, (Except.ok.inj h).symm⟩

theorem action_spec {key actor actionName : String} {version : ℕ} {note : String}
    {till : Option Instant} {clock : Instant} {db db' : Db}
    (h : action key actor actionName version note till clock db = .ok db') :
    ∃ f ∈ db.findings, ∃ f', db'.findings = db.findings.put f' ∧ f.Same f' ∧
      (f'.state = .resolved ↔ f.state = .resolved) ∧
      (f'.cleanSince = f.cleanSince ∨ f'.cleanSince = none) := by
  obtain ⟨f, hf, performed, hp, rfl⟩ := action_cases h
  obtain ⟨hs, hst, hc⟩ := perform_spec hp
  exact ⟨f, hf, _, rfl, ⟨hs.findingKey, hs.storeId, hs.ruleCode, hs.identities⟩, hst, hc⟩

/-- The history ends in a stretch of clean runs for the finding that began at `t`. -/
def CleanSince (h : List FindingStep) (f : Finding) (t : Instant) : Prop :=
  ∃ before r after, h = before ++ .run r :: after ∧ r.store.id = f.storeId ∧ r.now = t ∧
    r.Clean f ∧ ∀ r', .run r' ∈ after → r'.store.id = f.storeId → r'.Clean f

theorem CleanSince.snoc {h : List FindingStep} {f f' : Finding} {t : Instant} {a : FindingStep}
    (hc : CleanSince h f t) (hs : f.Same f')
    (ha : ∀ r, a = .run r → r.store.id = f.storeId → r.Clean f) :
    CleanSince (h ++ [a]) f' t := by
  obtain ⟨before, r, after, rfl, hst, ht, hr, hafter⟩ := hc
  refine ⟨before, r, after ++ [a], by simp, hst.trans hs.storeId.symm, ht, hs.clean_iff.mpr hr, ?_⟩
  intro r' hr' hst'
  rw [hs.storeId] at hst'
  rw [hs.clean_iff]
  rcases List.mem_append.mp hr' with hm | hm
  · exact hafter r' hm hst'
  · exact ha r' (List.mem_singleton.mp hm).symm hst'

/-- Clean evidence that a finding carries is backed by the history. -/
def Backed (h : List FindingStep) (db : Db) : Prop :=
  ∀ f ∈ db.findings, f.state ≠ .resolved → ∀ t, f.cleanSince = some t → CleanSince h f t

/-- A shadow run is clean for every unresolved finding of its store that has clean evidence. -/
def shadowRunsClean (db : Db) : FindingStep → Prop
  | .run r => r.store.shadowRules = true → ∀ f ∈ db.findings, f.storeId = r.store.id →
      f.state ≠ .resolved → f.cleanSince ≠ none → r.Clean f
  | .action .. => True

section Step

variable {h : List FindingStep} {db db' : Db} {r : RunInput} {f f' : Finding}

theorem apply_shadow (hs : r.store.shadowRules = true) :
    ((FindingStep.run r).apply sha256 db).findings = db.findings := by
  simp only [FindingStep.apply, recordRun, hs, if_true]

/-- After a run that is not in shadow, a finding of the store was settled, and a finding with
clean evidence is one that no proposal touched. -/
theorem mem_apply_run (hs : r.store.shadowRules = false)
    (hf : f ∈ ((FindingStep.run r).apply sha256 db).findings) :
    ∃ db₁ : Db,
      ((∃ g ∈ db₁.findings, g.storeId = r.store.id ∧ g.state ≠ .resolved ∧
          f = (g.settle r.now (coverageDigest sha256 r.coverage) r.result).1) ∨
        (f ∈ db₁.findings ∧ ¬ (f.storeId = r.store.id ∧ f.state ≠ .resolved))) ∧
      (∀ g ∈ db₁.findings, g.cleanSince ≠ none → g ∈ db.findings) ∧
      (∀ g ∈ db₁.findings, g.findingKey ∈ r.result.proposals.map (·.key) →
        g.cleanSince = none) ∧
      ∀ g ∈ db₁.findings, ∀ g' ∈ db.findings, g'.findingKey = g.findingKey →
        g'.state ≠ .resolved → g.state ≠ .resolved := by
  simp only [FindingStep.apply, recordRun, hs] at hf
  refine ⟨_, mem_settleLoop.mp hf, ?_, ?_, ?_⟩
  · intro g hg hc
    have hget := Table.get_eq_some.mpr ⟨hg, rfl⟩
    by_cases hk : g.findingKey ∈ r.result.proposals.map (·.key)
    · exact absurd (cleanSince_observeLoop hk hget) hc
    · rw [get_observeLoop hk] at hget
      exact (Table.get_eq_some.mp hget).1
  · intro g hg hk
    exact cleanSince_observeLoop hk (Table.get_eq_some.mpr ⟨hg, rfl⟩)
  · intro g hg g' hg' hk hst
    refine state_observeLoop (k := g.findingKey) (fun f' hf' => ?_)
      (Table.get_eq_some.mpr ⟨hg, rfl⟩)
    have hg'' := Table.get_eq_some.mpr ⟨hg', hk⟩
    rw [show f' = g' from Option.some.inj (hf'.symm.trans hg'')]
    exact hst

theorem backed_run (hb : Backed h db) (hs : r.store.shadowRules = false) :
    Backed (h ++ [.run r]) ((FindingStep.run r).apply sha256 db) := by
  intro f hf hst t ht
  obtain ⟨db₁, hor, hkept, hpresent, -⟩ := mem_apply_run hs hf
  rcases hor with ⟨g, hg, hgst, hgs, rfl⟩ | ⟨hf, hn⟩
  · rcases settle_cases r (coverageDigest sha256 r.coverage) g with ⟨hk, he⟩ | ⟨-, -, he⟩ |
      ⟨hsame, hclean, -, hc⟩ | ⟨-, -, he, -⟩
    · rw [he, hpresent g hg hk] at ht
      cases ht
    · rw [he] at ht
      cases ht
    · rcases hc with ⟨-, hc⟩ | hc
      · obtain rfl : r.now = t := by simpa [hc] using ht
        refine ⟨h, r, [], rfl, hgst.symm.trans hsame.storeId.symm, rfl, hsame.clean_iff.mpr hclean,
          fun _ hm => absurd hm List.not_mem_nil⟩
      · rw [hc] at ht
        have hgd := hkept g hg (by rw [ht]; exact nofun)
        refine (hb g hgd hgs t ht).snoc hsame fun r' hr' _ => ?_
        obtain rfl := FindingStep.run.inj hr'
        exact hclean
    · exact absurd he hst
  · have hfd := hkept f hf (by rw [ht]; exact nofun)
    refine (hb f hfd hst t ht).snoc (.refl f) fun r' hr' hstore => ?_
    obtain rfl := FindingStep.run.inj hr'
    exact absurd ⟨hstore.symm, hst⟩ hn

theorem backed_step {a : FindingStep} (hb : Backed h db)
    (hstep : Guarded (findingStep sha256) shadowRunsClean db a db') : Backed (h ++ [a]) db' := by
  obtain ⟨hok, rfl⟩ := hstep
  cases a with
  | run r =>
    by_cases hs : r.store.shadowRules = true
    · intro f hf hst t ht
      rw [apply_shadow hs] at hf
      refine (hb f hf hst t ht).snoc (.refl f) fun r' hr' hstore => ?_
      obtain rfl := FindingStep.run.inj hr'
      exact hok hs f hf hstore.symm hst (by rw [ht]; exact nofun)
    · exact backed_run hb (Bool.not_eq_true _ ▸ hs)
  | action key actor actionName version note till clock =>
    intro f hf hst t ht
    simp only [FindingStep.apply] at hf
    split at hf
    case h_2 => exact (hb f hf hst t ht).snoc (.refl f) fun _ hr' => nomatch hr'
    case h_1 db' hact =>
      obtain ⟨g, hg, g', hput, hsame, hres, hclean⟩ := action_spec hact
      rw [hput] at hf
      rcases Table.mem_put.mp hf with rfl | ⟨hf, -⟩
      · rcases hclean with hc | hc
        · rw [hc] at ht
          exact (hb g hg (hres.not.mp hst) t ht).snoc hsame fun _ hr' => nomatch hr'
        · rw [hc] at ht
          cases ht
      · exact (hb f hf hst t ht).snoc (.refl f) fun _ hr' => nomatch hr'

end Step

/-- The finding was resolved on two clean runs at least five minutes apart, with only clean runs
of its store between them. -/
def ResolvedOnCleanRuns (h : List FindingStep) (r : RunInput) (f : Finding) : Prop :=
  ∃ before r₀ between, h = before ++ .run r₀ :: between ∧ r₀.store.id = f.storeId ∧
    minutes 5 ≤ r.now - r₀.now ∧ r₀.Clean f ∧ r.Clean f ∧
    ∀ r', .run r' ∈ between → r'.store.id = f.storeId → r'.Clean f

/-- In a history whose shadow runs are clean, every run that resolves a finding ends a stretch of
clean runs of at least five minutes. -/
theorem resolved_on_clean_runs {h : List FindingStep} {db : Db}
    (hrun : Run (Guarded (findingStep sha256) shadowRunsClean) {} h db) {r : RunInput}
    {f f' : Finding} (hf : f ∈ db.findings) (hst : f.state ≠ .resolved)
    (hf' : f' ∈ ((FindingStep.run r).apply sha256 db).findings)
    (hk : f'.findingKey = f.findingKey) (hres : f'.state = .resolved) :
    ResolvedOnCleanRuns h r f := by
  have hb : Backed h db :=
    hrun.invariant (fun _ hf => absurd hf Table.not_mem_empty) fun _ _ _ _ => backed_step
  by_cases hs : r.store.shadowRules = true
  · rw [apply_shadow hs] at hf'
    obtain rfl := Table.eq_of_key hf' hf hk
    exact absurd hres hst
  obtain ⟨db₁, hor, hkept, hpresent, hstate⟩ := mem_apply_run (Bool.not_eq_true _ ▸ hs) hf'
  rcases hor with ⟨g, hg, -, hgs, rfl⟩ | ⟨hf', -⟩
  · rcases settle_cases r (coverageDigest sha256 r.coverage) g with ⟨-, he⟩ | ⟨-, he, -⟩ |
      ⟨-, -, he, -⟩ | ⟨hsame, hclean, -, t, ht, hd⟩
    · rw [he] at hres
      exact absurd hres hgs
    · rw [he] at hres
      exact absurd hres hgs
    · rw [he] at hres
      exact absurd hres hgs
    · have hgd := hkept g hg (by rw [ht]; exact nofun)
      obtain rfl := Table.eq_of_key hgd hf (hsame.findingKey.symm.trans hk)
      obtain ⟨before, r₀, after, hh, hstore, rfl, hc, hafter⟩ := hb g hf hgs t ht
      exact ⟨before, r₀, after, hh, hstore, hd, hc, hclean, hafter⟩
  · exact absurd hres (hstate f' hf' f hf hk.symm hst)

namespace Fixture

def store : Store := { id := "store_one", mode := .test }

def missingOrder : Snapshot := { snapshot with orders := [] }

/-- Nothing to compare, some minutes later. -/
def quiet (later : ℤ) : Snapshot :=
  { snapshot with payments := [], orders := [], now := now + minutes later }

/-- A run on a snapshot. -/
def runOn (shadow : Bool) (s : Snapshot) : RunInput where
  store := { store with shadowRules := shadow }
  now := s.now
  coverage := s.coverage
  result := (evaluate Sha256.hexdigest s).toOption.getD ⟨[], [], [], [], ""⟩

/-- PI-002 is opened and then clean. -/
def quietHistory : List FindingStep :=
  [.run (runOn false missingOrder), .run (runOn false (quiet 1))]

/-- A shadow run that proposes PI-002 again. -/
def shadowRun : RunInput := runOn true { missingOrder with now := now + minutes 3 }

/-- The database after a history. -/
def dbAfter (h : List FindingStep) : Db := h.foldl (FindingStep.apply Sha256.hexdigest) {}

theorem run_dbAfter {ok : Db → FindingStep → Prop} (h : List FindingStep)
    (hok : ∀ a ∈ h, ∀ db, ok db a) :
    Run (Guarded (findingStep Sha256.hexdigest) ok) {} h (dbAfter h) :=
  Run.foldl (f := FindingStep.apply Sha256.hexdigest) fun a ha db => ⟨hok a ha db, rfl⟩

end Fixture

open Fixture Sha256

theorem resolved_on_clean_runs_quiet : ∃ f ∈ (dbAfter quietHistory).findings,
    f.ruleCode = .pi002 ∧ ResolvedOnCleanRuns quietHistory (runOn false (quiet 7)) f := by
  obtain ⟨f, hf, hr, hst, f', hf', hk, hres⟩ : ∃ f ∈ (dbAfter quietHistory).findings.rows,
      f.ruleCode = .pi002 ∧ f.state ≠ .resolved ∧
      ∃ f' ∈ ((FindingStep.run (runOn false (quiet 7))).apply hexdigest
        (dbAfter quietHistory)).findings.rows,
        f'.findingKey = f.findingKey ∧ f'.state = .resolved := by
    decide +kernel
  have hrun : Run (Guarded (findingStep hexdigest) shadowRunsClean) {} quietHistory
      (dbAfter quietHistory) := by
    refine run_dbAfter quietHistory fun a ha db => ?_
    simp only [quietHistory, List.mem_cons, List.not_mem_nil, or_false] at ha
    rcases ha with rfl | rfl <;> exact fun hs => nomatch hs
  rw [Table.mem_rows] at hf hf'
  exact ⟨f, hf, hr, resolved_on_clean_runs hrun hf hst hf' hk hres⟩

/-- The shadow run between the two clean runs sees the finding, and still it is resolved. -/
theorem resolved_across_shadow_run : ∃ db,
    Run (Guarded (findingStep hexdigest) fun _ _ => True) {} (quietHistory ++ [.run shadowRun]) db ∧
      ∃ f ∈ db.findings, f.state ≠ .resolved ∧
        ∃ f' ∈ ((FindingStep.run (runOn false (quiet 7))).apply hexdigest db).findings,
          f'.findingKey = f.findingKey ∧ f'.state = .resolved ∧
            ¬ ResolvedOnCleanRuns (quietHistory ++ [.run shadowRun]) (runOn false (quiet 7)) f := by
  obtain ⟨f, hf, hst, hstore, hn, f', hf', hk, hres⟩ :
      ∃ f ∈ (dbAfter (quietHistory ++ [.run shadowRun])).findings.rows, f.state ≠ .resolved ∧
        shadowRun.store.id = f.storeId ∧ ¬ shadowRun.Clean f ∧
        ∃ f' ∈ ((FindingStep.run (runOn false (quiet 7))).apply hexdigest
          (dbAfter (quietHistory ++ [.run shadowRun]))).findings.rows,
          f'.findingKey = f.findingKey ∧ f'.state = .resolved := by
    decide +kernel
  rw [Table.mem_rows] at hf hf'
  refine ⟨_, run_dbAfter _ fun _ _ _ => trivial, f, hf, hst, f', hf', hk, hres, ?_⟩
  rintro ⟨before, r₀, between, hh, -, -, hc, -, hb⟩
  rcases List.eq_nil_or_concat between with rfl | ⟨between, a, rfl⟩
  · obtain rfl := FindingStep.run.inj (List.cons.inj (List.append_inj_right' hh rfl)).1
    exact hn hc
  · rw [List.concat_eq_append, ← List.cons_append, ← List.append_assoc] at hh
    obtain rfl := (List.cons.inj (List.append_inj_right' hh rfl)).1
    exact hn (hb shadowRun (by simp) hstore)

end LedgerGuard
