import LedgerGuard.Lib.Savepoint

/-! # Tenant context

Row security reads the organization and the user from two settings of the transaction.
A scope sets both for its body and puts them back, by itself when the body ends and
through the savepoint of its atomic block otherwise.
-/

namespace LedgerGuard.Access.TenantContext

open Savepoint

/-- `str(UUID(...))`, which is never empty. -/
structure OrganizationId where
  text : String
  text_ne : text ≠ "" := by decide
  deriving DecidableEq

/-- `app.organization_id` and `app.user_id`, `none` before they were ever set. -/
structure Settings where
  organizationId : Option String := none
  userId : Option String := none
  deriving DecidableEq

/-- What row security and the scopes take a setting for: `NULLIF(value, '')`. -/
def effective (value : Option String) : Option String := value.filter (· ≠ "")

inductive ScopeFailure
  | tenantContextConflict
  | other (message : String)
  deriving DecidableEq

/-- Code that runs inside one database transaction. -/
inductive Code
  | pass
  | seq (first second : Code)
  | raise (e : Savepoint.Raised ScopeFailure)
  | returns
  | call (body : Code)
  | tryExcept (body : Code) (handler : Savepoint.Raised ScopeFailure → Code)
  | atomic (body : Code)
  | tenantScope (organizationId : OrganizationId) (userId : Option ℕ) (body : Code)
  | read (next : Settings → Code)
  | setUser (userId : ℕ)
  /-- A statement that the database rejects; the ORM also marks the connection. -/
  | failingQuery (orm : Bool)
  | setRollback

/-- What the run of a piece of code shows. -/
inductive Event
  | ran (scopes : List OrganizationId) (settings : Settings)
  | scope (organizationId : OrganizationId) (before after : Conn Settings)
      (outcome : Outcome ScopeFailure)

abbrev CodeResult := Result Settings ScopeFailure Event

/-- `str(user_id or "")`. -/
def userText : Option ℕ → String
  | none | some 0 => ""
  | some n => toString n

def scopeSettings (organizationId : OrganizationId) (userId : Option ℕ) : Settings :=
  ⟨some organizationId.text, some (userText userId)⟩

/-- `old_org or ""` and `old_user or ""`. -/
def Settings.restored (old : Settings) : Settings :=
  ⟨some (old.organizationId.getD ""), some (old.userId.getD "")⟩

/-- The end of a scope after its body: only a body that ran to its end puts the settings back. -/
def leaveScope (old : Settings) (r : CodeResult) : CodeResult :=
  if r.outcome.isRaised || r.conn.needsRollback then r
  else if r.conn.aborted then { r with outcome := .raised .internalError }
  else { r with conn := { r.conn with data := old.restored } }

/-- `with tenant_scope(organization_id, user_id)`. -/
def tenantScope (organizationId : OrganizationId) (userId : Option ℕ)
    (body : Conn Settings → CodeResult) : Conn Settings → CodeResult :=
  Savepoint.atomic <| statement fun c =>
    if (effective c.data.organizationId).any (· ≠ organizationId.text) then
      { outcome := .raised (.own .tenantContextConflict), conn := c }
    else leaveScope c.data (body { c with data := scopeSettings organizationId userId })

/-- Run code inside some open scopes. -/
def exec : Code → List OrganizationId → Conn Settings → CodeResult
  | .pass, scopes, c => ⟨.completed, c, [.ran scopes c.data]⟩
  | .seq first second, scopes, c =>
    let r := exec first scopes c
    match r.outcome with
    | .completed =>
      let r' := exec second scopes r.conn
      { r' with log := r.log ++ r'.log }
    | _ => r
  | .raise e, scopes, c => ⟨.raised e, c, [.ran scopes c.data]⟩
  | .returns, scopes, c => ⟨.returned, c, [.ran scopes c.data]⟩
  | .call body, scopes, c =>
    let r := exec body scopes c
    match r.outcome with
    | .returned => { r with outcome := .completed }
    | _ => r
  | .tryExcept body handler, scopes, c =>
    let r := exec body scopes c
    match r.outcome with
    | .raised e =>
      let r' := exec (handler e) scopes r.conn
      { r' with log := r.log ++ r'.log }
    | _ => r
  | .atomic body, scopes, c => Savepoint.atomic (exec body scopes) c
  | .tenantScope organizationId userId body, scopes, c =>
    let r := tenantScope organizationId userId (exec body (organizationId :: scopes)) c
    { r with log := r.log ++ [.scope organizationId c r.conn r.outcome] }
  | .read next, scopes, c =>
    statement (fun c =>
      let r := exec (next c.data) scopes c
      { r with log := .ran scopes c.data :: r.log }) c
  | .setUser userId, scopes, c =>
    statement (fun c => ⟨.completed, { c with data := { c.data with userId := some (toString userId) } },
      [.ran scopes c.data]⟩) c
  | .failingQuery orm, scopes, c =>
    statement (fun c => ⟨.raised .databaseError, { c with aborted := true, needsRollback := orm },
      [.ran scopes c.data]⟩) c
  | .setRollback, scopes, c =>
    ⟨.completed, { c with needsRollback := true }, [.ran scopes c.data]⟩

variable {scopes : List OrganizationId} {organizationId : OrganizationId} {userId : Option ℕ}
  {c : Conn Settings} {body : Conn Settings → CodeResult} {event : Event}

def Settings.Same (a b : Settings) : Prop :=
  effective a.organizationId = effective b.organizationId ∧ effective a.userId = effective b.userId

@[simp] theorem effective_getD (value : Option String) :
    effective (some (value.getD "")) = effective value := by
  cases value with
  | none => rfl
  | some text => rfl

theorem Settings.restored_same (old : Settings) : old.restored.Same old :=
  ⟨effective_getD _, effective_getD _⟩

theorem effective_some {text : String} (h : text ≠ "") : effective (some text) = some text := by
  simp [effective, h]

theorem eq_some_of_effective {value : Option String} {text : String}
    (h : effective value = some text) : value = some text :=
  (Option.filter_eq_some_iff.mp h).1

theorem release_leaveScope (old : Settings) (r : CodeResult) :
    (release old (leaveScope old r)).conn.data = old ∨
      (release old (leaveScope old r)).conn.data = old.restored := by
  unfold leaveScope
  by_cases hr : (r.outcome.isRaised || r.conn.needsRollback) = true
  · rw [if_pos hr, release, if_pos hr]
    exact Or.inl rfl
  · rw [if_neg hr]
    by_cases ha : r.conn.aborted = true
    · rw [if_pos ha]
      exact Or.inl rfl
    · rw [if_neg ha, release, if_neg hr, if_neg ha]
      exact Or.inr rfl

theorem tenantScope_same : (tenantScope organizationId userId body c).conn.data.Same c.data := by
  unfold tenantScope Savepoint.atomic
  by_cases hn : c.needsRollback = true
  · rw [if_pos hn, leaveUnsaved_data, statement_refused (e := .transactionManagementError)]
    · exact ⟨rfl, rfl⟩
    · rw [Conn.refusal, if_pos hn]
  rw [if_neg hn]
  by_cases ha : c.aborted = true
  · rw [if_pos ha]
    exact ⟨rfl, rfl⟩
  rw [if_neg ha, statement_usable (refusal_eq_none.mpr ⟨by simpa using hn, by simpa using ha⟩)]
  split_ifs with hforeign
  · exact ⟨rfl, rfl⟩
  · rcases release_leaveScope c.data
      (body { c with data := scopeSettings organizationId userId }) with h | h
    · rw [h]
      exact ⟨rfl, rfl⟩
    · rw [h]
      exact Settings.restored_same _

def Foreign (organizationId : OrganizationId) (settings : Settings) : Prop :=
  ∃ text, effective settings.organizationId = some text ∧ text ≠ organizationId.text

def refused (c : Conn Settings) : Savepoint.Raised ScopeFailure :=
  c.refusal.getD (.own .tenantContextConflict)

theorem tenantScope_foreign (h : Foreign organizationId c.data) :
    (tenantScope organizationId userId body c).outcome = .raised (refused c) ∧
      (tenantScope organizationId userId body c).conn = c ∧
        (tenantScope organizationId userId body c).log = [] := by
  have hany : (effective c.data.organizationId).any (· ≠ organizationId.text) = true := by
    obtain ⟨text, he, hne⟩ := h
    simp [he, hne]
  unfold tenantScope Savepoint.atomic refused
  obtain ⟨data, needsRollback, aborted⟩ := c
  cases needsRollback with
  | true =>
    rw [if_pos rfl, statement_refused (e := .transactionManagementError) rfl]
    exact ⟨rfl, rfl, rfl⟩
  | false =>
    cases aborted with
    | true => exact ⟨rfl, rfl, rfl⟩
    | false =>
      rw [if_neg Bool.false_ne_true, if_neg Bool.false_ne_true, statement_usable rfl, if_pos hany]
      exact ⟨rfl, rfl, rfl⟩

theorem mem_tenantScope_log (h : event ∈ (tenantScope organizationId userId body c).log) :
    ¬ Foreign organizationId c.data ∧
      event ∈ (body { c with data := scopeSettings organizationId userId }).log := by
  by_cases hf : Foreign organizationId c.data
  · rw [(tenantScope_foreign hf).2.2] at h
    exact absurd h List.not_mem_nil
  refine ⟨hf, ?_⟩
  have h := mem_atomic_log h
  unfold statement at h
  split at h
  · exact absurd h List.not_mem_nil
  dsimp only at h
  split_ifs at h with hany
  · exact absurd h List.not_mem_nil
  · unfold leaveScope at h
    split_ifs at h <;> exact h

theorem statement_effective {f : Conn Settings → CodeResult} {get : Settings → Option String}
    (h : effective (get (f c).conn.data) = effective (get c.data)) :
    effective (get (statement f c).conn.data) = effective (get c.data) := by
  unfold statement
  split
  · rfl
  · exact h

theorem exec_organization (code : Code) : ∀ (scopes : List OrganizationId) (c : Conn Settings),
    effective (exec code scopes c).conn.data.organizationId = effective c.data.organizationId := by
  induction code with
  | pass | raise | returns | setRollback => exact fun scopes c => rfl
  | seq first second ih₁ ih₂ =>
    intro scopes c
    unfold exec
    dsimp only
    split
    · exact (ih₂ _ _).trans (ih₁ _ _)
    · exact ih₁ _ _
  | call body ih =>
    intro scopes c
    unfold exec
    dsimp only
    split <;> exact ih _ _
  | tryExcept body handler ih₁ ih₂ =>
    intro scopes c
    unfold exec
    dsimp only
    split
    · exact (ih₂ _ _ _).trans (ih₁ _ _)
    · exact ih₁ _ _
  | atomic body ih =>
    intro scopes c
    exact atomic_keeps
      (P := fun data : Settings => effective data.organizationId = effective c.data.organizationId)
      rfl (ih _ _)
  | tenantScope organizationId userId body ih =>
    intro scopes c
    exact tenantScope_same.1
  | read next ih =>
    intro scopes c
    exact @statement_effective _ _ Settings.organizationId (ih _ _ _)
  | setUser userId =>
    intro scopes c
    exact @statement_effective _ _ Settings.organizationId rfl
  | failingQuery orm =>
    intro scopes c
    exact @statement_effective _ _ Settings.organizationId rfl

/-- Code inside scopes sees their organization; a scope leaves what it found, and one for another
organization is refused and leaves everything alone. -/
def Event.Bracketed : Event → Prop
  | .ran scopes settings => ∀ scope ∈ scopes, settings.organizationId = some scope.text
  | .scope organizationId before after outcome => after.data.Same before.data ∧
      (Foreign organizationId before.data → outcome = .raised (refused before) ∧ after = before)

theorem exec_bracketed (code : Code) : ∀ (scopes : List OrganizationId) (c : Conn Settings),
    (∀ scope ∈ scopes, c.data.organizationId = some scope.text) →
      ∀ event ∈ (exec code scopes c).log, event.Bracketed := by
  have hkeep : ∀ (code : Code) (scopes : List OrganizationId) (c : Conn Settings),
      (∀ scope ∈ scopes, c.data.organizationId = some scope.text) →
        ∀ scope ∈ scopes, (exec code scopes c).conn.data.organizationId = some scope.text := by
    intro code scopes c h scope hscope
    apply eq_some_of_effective
    rw [exec_organization, h scope hscope, effective_some scope.text_ne]
  induction code with
  | pass | raise | returns | setRollback =>
    intro scopes c h event hevent
    rw [List.mem_singleton.mp hevent]
    exact h
  | seq first second ih₁ ih₂ =>
    intro scopes c h event hevent
    unfold exec at hevent
    dsimp only at hevent
    split at hevent
    · rcases List.mem_append.mp hevent with hevent | hevent
      · exact ih₁ scopes c h event hevent
      · exact ih₂ scopes _ (hkeep first scopes c h) event hevent
    · exact ih₁ scopes c h event hevent
  | call body ih =>
    intro scopes c h event hevent
    unfold exec at hevent
    dsimp only at hevent
    split at hevent <;> exact ih scopes c h event hevent
  | tryExcept body handler ih₁ ih₂ =>
    intro scopes c h event hevent
    unfold exec at hevent
    dsimp only at hevent
    split at hevent
    · rcases List.mem_append.mp hevent with hevent | hevent
      · exact ih₁ scopes c h event hevent
      · exact ih₂ _ scopes _ (hkeep body scopes c h) event hevent
    · exact ih₁ scopes c h event hevent
  | atomic body ih =>
    intro scopes c h event hevent
    exact ih scopes c h event (mem_atomic_log hevent)
  | tenantScope organizationId userId body ih =>
    intro scopes c h event hevent
    rcases List.mem_append.mp hevent with hevent | hevent
    · obtain ⟨hf, hevent⟩ := mem_tenantScope_log hevent
      refine ih _ _ (fun scope hscope => ?_) event hevent
      rcases List.mem_cons.mp hscope with rfl | hscope
      · rfl
      · -- the enclosing scopes are of the same organization
        refine congrArg some (not_not.mp fun hne => hf ⟨scope.text, ?_, Ne.symm hne⟩)
        rw [h scope hscope, effective_some scope.text_ne]
    · rw [List.mem_singleton.mp hevent]
      exact ⟨tenantScope_same, fun hf =>
        ⟨(tenantScope_foreign hf).1, (tenantScope_foreign hf).2.1⟩⟩
  | read next ih =>
    intro scopes c h event hevent
    unfold exec statement at hevent
    split at hevent
    · exact absurd hevent List.not_mem_nil
    · rcases List.mem_cons.mp hevent with rfl | hevent
      · exact h
      · exact ih _ scopes c h event hevent
  | setUser userId | failingQuery orm =>
    intro scopes c h event hevent
    unfold exec statement at hevent
    split at hevent
    · exact absurd hevent List.not_mem_nil
    · rw [List.mem_singleton.mp hevent]
      exact h

/-- In every run inside one transaction each scope is well bracketed. -/
theorem tenant_context_bracketed (code : Code) (c : Conn Settings) :
    ∀ event ∈ (exec code [] c).log, event.Bracketed :=
  exec_bracketed code [] c (List.forall_mem_nil _)

namespace Fixture

def northwind : OrganizationId := { text := "018f0000-0000-7000-8000-000000000001" }

def southwind : OrganizationId := { text := "018f0000-0000-7000-8000-000000000002" }

/-- A scope whose body marks the connection before it asks for another organization. -/
def markedCode : Code :=
  .tenantScope northwind none (.seq .setRollback (.tenantScope southwind none .pass))

/-- The connection when the inner scope of the marked code is entered. -/
def markedConn : Conn Settings :=
  { data := scopeSettings northwind none, needsRollback := true }

end Fixture

open Fixture

/-- The inner scope of the marked code is refused and leaves the connection alone. -/
theorem tenant_context_bracketed_marked :
    (Event.scope southwind markedConn markedConn (.raised .transactionManagementError)).Bracketed :=
  tenant_context_bracketed markedCode { data := {} } _ (List.mem_cons_of_mem _ List.mem_cons_self)

/-- A setting that was never set comes back empty, and a transaction that is already marked for
rollback refuses the scope of another organization on its own. -/
theorem unset_and_marked_context :
    (∃ before after, Event.scope northwind before after .completed ∈
      (exec (.tenantScope northwind none .pass) [] { data := {} }).log ∧
        before.data.organizationId = none ∧ after.data.organizationId = some "") ∧
    ∃ before after e, Event.scope southwind before after (.raised e) ∈
      (exec markedCode [] { data := {} }).log ∧
        Foreign southwind before.data ∧ e ≠ .own .tenantContextConflict := by
  refine ⟨⟨_, _, List.mem_cons_of_mem _ List.mem_cons_self, rfl, rfl⟩, markedConn, markedConn,
    .transactionManagementError, List.mem_cons_of_mem _ List.mem_cons_self, ?_, nofun⟩
  exact ⟨northwind.text, rfl, by decide⟩

end LedgerGuard.Access.TenantContext
