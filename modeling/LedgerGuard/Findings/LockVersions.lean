import LedgerGuard.Findings.RowSteps

/-! # Lock versions

An action names the version of the finding that the operator saw. Every write of a finding
counts its version up, whichever path of a run or whichever action makes it, so an
accepted action wrote over exactly what the operator saw. The steps are those of any
interleaving of runs and actions, row by row.
-/

namespace LedgerGuard

variable {sha256 : String → String} {db : Db} {key : String} {a b : RowStep} {f f' : Finding}
  {version : ℕ}

/-- The step is an action on the finding at the version, and it succeeds. -/
def RowStep.Accepted (db : Db) (key : String) (version : ℕ) (a : RowStep) : Prop :=
  ∃ actor actionName note till clock db', a = .action key actor actionName version note till clock ∧
    LedgerGuard.action key actor actionName version note till clock db = .ok db'

theorem after_append (before after : List RowStep) :
    db.after sha256 (before ++ after) = (db.after sha256 before).after sha256 after :=
  List.foldl_append ..

theorem after_singleton : db.after sha256 [a] = a.apply sha256 db := rfl

theorem version_of_saves (sha256 : String → String) (h : a.Saves db key) :
    ∃ f', (a.apply sha256 db).findings.get key = some f' ∧
      ∀ f, db.findings.get key = some f → f'.lockVersion = f.lockVersion + 1 := by
  rcases writes_or_passes sha256 db a with ⟨g, event, g', hw⟩ | hp
  · obtain rfl := (hw.saves key).mp h
    refine ⟨g', ?_, fun f hf => ?_⟩
    · rw [hw.findings, Table.get_put, if_pos hw.written.findingKey.symm]
    · rcases hw.current with hg | ⟨hnone, -⟩
      · obtain rfl := Option.some.inj (hg.symm.trans hf)
        exact hw.written.lockVersion
      · rw [hnone] at hf
        cases hf
  · exact absurd h (hp.saves key)

theorem get_of_not_saves (sha256 : String → String) (h : ¬ a.Saves db key) :
    (a.apply sha256 db).findings.get key = db.findings.get key := by
  rcases writes_or_passes sha256 db a with ⟨g, event, g', hw⟩ | hp
  · rw [hw.findings, Table.get_put, if_neg]
    rw [hw.written.findingKey]
    exact fun hk => h ((hw.saves key).mpr hk)
  · exact hp.findings key

theorem version_after (steps : List RowStep) (hf : db.findings.get key = some f) :
    ∃ f', (db.after sha256 steps).findings.get key = some f' ∧ f.lockVersion ≤ f'.lockVersion ∧
      ∀ before a after, steps = before ++ a :: after → a.Saves (db.after sha256 before) key →
        f.lockVersion < f'.lockVersion := by
  induction steps generalizing db f with
  | nil => exact ⟨f, hf, le_rfl, fun before a after h => absurd h (by simp)⟩
  | cons x steps ih =>
    have hstep : ∃ g, (x.apply sha256 db).findings.get key = some g ∧
        f.lockVersion ≤ g.lockVersion ∧ (x.Saves db key → f.lockVersion < g.lockVersion) := by
      by_cases hx : x.Saves db key
      · obtain ⟨g, hg, hv⟩ := version_of_saves sha256 hx
        have hlt : f.lockVersion < g.lockVersion := by
          rw [hv f hf]
          omega
        exact ⟨g, hg, hlt.le, fun _ => hlt⟩
      · exact ⟨f, (get_of_not_saves sha256 hx).trans hf, le_rfl, fun h => absurd h hx⟩
    obtain ⟨g, hg, hle, hlt⟩ := hstep
    obtain ⟨f', hf', hle', hlt'⟩ := ih hg
    refine ⟨f', hf', hle.trans hle', ?_⟩
    intro before a after h hsaves
    cases before with
    | nil =>
      obtain ⟨rfl, -⟩ := List.cons.inj h
      exact (hlt hsaves).trans_le hle'
    | cons y before =>
      obtain ⟨rfl, htail⟩ := List.cons.inj h
      exact hle.trans_lt (hlt' before a after htail hsaves)

theorem saves_of_accepted (h : a.Accepted db key version) : a.Saves db key ∧
    ∃ f, db.findings.get key = some f ∧ f.lockVersion = version := by
  obtain ⟨actor, actionName, note, till, clock, db', rfl, hok⟩ := h
  obtain ⟨f, hf, hv, -⟩ := action_accepted hok
  exact ⟨⟨rfl, db', hok⟩, f, hf, hv⟩

/-- What the versions of a finding guarantee along some steps. -/
structure VersionsGuard (sha256 : String → String) (db : Db) (key : String)
    (steps : List RowStep) : Prop where
  /-- An action at the version that the finding had is accepted only if nothing saved it since. -/
  unseen : ∀ f (a : RowStep), db.findings.get key = some f →
    a.Accepted (db.after sha256 steps) key f.lockVersion →
      ∀ before x after, steps = before ++ x :: after → ¬ x.Saves (db.after sha256 before) key
  /-- Of the actions at one version at most one is accepted. -/
  once : ∀ version before (a : RowStep) between (b : RowStep) after,
    steps = before ++ a :: (between ++ b :: after) → a.Accepted (db.after sha256 before) key version →
      ¬ b.Accepted (db.after sha256 (before ++ a :: between)) key version
  /-- An action that fails changes nothing. -/
  failed : ∀ actor actionName version note till clock e,
    action key actor actionName version note till clock (db.after sha256 steps) = .error e →
      db.after sha256 (steps ++ [.action key actor actionName version note till clock]) =
        db.after sha256 steps
  /-- Every write counts the version up, and without one the row stays as it is. -/
  increases : ∀ before a after, steps = before ++ a :: after →
    (a.Saves (db.after sha256 before) key →
      ∃ f', (db.after sha256 (before ++ [a])).findings.get key = some f' ∧
        ∀ f, (db.after sha256 before).findings.get key = some f → f.lockVersion < f'.lockVersion) ∧
    (¬ a.Saves (db.after sha256 before) key →
      (db.after sha256 (before ++ [a])).findings.get key =
        (db.after sha256 before).findings.get key)

/-- In every interleaving of the writes of runs and actions, versions lose no update. -/
theorem versions_guard (sha256 : String → String) (db : Db) (key : String)
    (steps : List RowStep) : VersionsGuard sha256 db key steps where
  unseen f a hf ha before x after h hsaves := by
    obtain ⟨f', hf', -, hlt⟩ := @version_after sha256 _ _ _ steps hf
    obtain ⟨-, g, hg, hv⟩ := saves_of_accepted ha
    obtain rfl := Option.some.inj (hf'.symm.trans hg)
    exact absurd (hlt before x after h hsaves) (by omega)
  once version before a between b after _ ha hb := by
    obtain ⟨hsaves, f, hf, hv⟩ := saves_of_accepted ha
    obtain ⟨f', hf', -, hlt⟩ := @version_after sha256 _ _ _ (a :: between) hf
    obtain ⟨-, g, hg, hv'⟩ := saves_of_accepted hb
    rw [after_append] at hg
    obtain rfl := Option.some.inj (hf'.symm.trans hg)
    have hlast : f.lockVersion < f'.lockVersion := hlt [] a between rfl hsaves
    omega
  failed actor actionName version note till clock e h := by
    rw [after_append, after_singleton]
    simp only [RowStep.apply, h]
  increases before a after _ := by
    rw [after_append, after_singleton]
    constructor
    · intro hsaves
      obtain ⟨f', hf', hv⟩ := version_of_saves sha256 hsaves
      refine ⟨f', hf', fun f hf => ?_⟩
      rw [hv f hf]
      omega
    · exact get_of_not_saves sha256

end LedgerGuard
