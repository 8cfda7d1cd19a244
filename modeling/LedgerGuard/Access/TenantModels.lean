import LedgerGuard.Lib.Layers
import Mathlib.Data.String.Basic

/-! # The order of erasure

`tenant_models` sorts the models of a tenant so that each comes before those its
foreign keys point to. The loop ends for every registry, in that order or with the
dependency cycle, and tables deleted in that order never leave a dangling reference.
-/

namespace LedgerGuard.Access.Erasure

open Layers

/-- A field of a model, with the model at its other end. -/
structure Field (M : Type) where
  name : String
  remoteField : Option M := none
  manyToOne : Bool := false
  oneToOne : Bool := false

def appLabels : List String := ["accounts", "connectors", "ingestion", "findings", "reporting"]

/-- The application registry: each model is of one application. -/
structure Registry (M : Type) where
  models : String → List M
  modelName : M → String
  fields : M → List (Field M)
  labels_nodup : (appLabels.flatMap models).Nodup

variable {M : Type} [DecidableEq M] (r : Registry M)

omit [DecidableEq M] in
def Registry.tenant : List M :=
  appLabels.flatMap fun label =>
    (r.models label).filter fun m =>
      (r.fields m).any (·.name = "organization_id") &&
        r.modelName m ∉ ["ResourceLocator", "PairingLocator"]

/-- The models among those remaining that one of them has a foreign key to. -/
def Registry.referenced (remaining : List M) : List M :=
  remaining.flatMap fun m => (r.fields m).filterMap fun f =>
    f.remoteField.filter fun target => (f.manyToOne || f.oneToOne) && target ∈ remaining

/-- The loop of `tenantModels`; nothing is returned when the fuel is too little. -/
def Registry.peel : ℕ → List M → List M → Option (Except String (List M))
  | _, ordered, [] => some (.ok ordered)
  | 0, _, _ :: _ => none
  | fuel + 1, ordered, remaining =>
    let leaves := remaining.filter (· ∉ r.referenced remaining)
    if leaves = [] then some (.error "Tenant deletion dependency cycle")
    else Registry.peel fuel (ordered ++ leaves) (remaining.filter (· ∉ leaves))

def Registry.tenantModels (fuel : ℕ) : Option (Except String (List M)) := r.peel fuel [] r.tenant

omit [DecidableEq M] in
/-- A foreign key of the first model points to the second. -/
def Registry.References (a b : M) : Prop :=
  ∃ f ∈ r.fields a, f.remoteField = some b ∧ (f.manyToOne || f.oneToOne) = true

variable {r} {remaining order : List M}

theorem not_mem_referenced {m : M} (hm : m ∈ remaining) :
    m ∉ r.referenced remaining ↔ Leaf r.References remaining m := by
  simp only [Registry.referenced, List.mem_flatMap, List.mem_filterMap, Option.filter_eq_some_iff,
    Bool.and_eq_true, decide_eq_true_eq]
  constructor
  · rintro h a ha ⟨f, hf, hremote, hkind⟩
    exact h ⟨a, ha, f, hf, hremote, hkind, hm⟩
  · rintro h ⟨a, ha, f, hf, hremote, hkind, -⟩
    exact h a ha ⟨f, hf, hremote, hkind⟩

theorem Registry.peel_succ (hne : remaining ≠ []) (fuel : ℕ) (ordered : List M) :
    r.peel (fuel + 1) ordered remaining =
      if remaining.filter (· ∉ r.referenced remaining) = [] then
        some (.error "Tenant deletion dependency cycle")
      else r.peel fuel (ordered ++ remaining.filter (· ∉ r.referenced remaining))
        (remaining.filter (· ∉ remaining.filter (· ∉ r.referenced remaining))) := by
  cases remaining with
  | nil => exact absurd rfl hne
  | cons m ms => rfl

theorem perm_round (leaves : List M) (h : leaves = remaining.filter (· ∉ r.referenced remaining)) :
    (leaves ++ remaining.filter (· ∉ leaves)).Perm remaining ∧
      ∀ m ∈ leaves, Leaf r.References remaining m := by
  constructor
  · have hrest : remaining.filter (· ∉ leaves) =
        remaining.filter (fun m => !decide (m ∉ r.referenced remaining)) := by
      apply List.filter_congr
      intro m hm
      simp [h, hm]
    rw [hrest, h]
    exact List.filter_append_perm _ _
  · intro m hm
    rw [h, List.mem_filter, decide_eq_true_eq] at hm
    exact (not_mem_referenced hm.1).mp hm.2

theorem peel_spec (remaining ordered : List M) : ∃ result,
    (∀ fuel, remaining.length ≤ fuel → r.peel fuel ordered remaining = some result) ∧
      ((∃ order, Peeled r.References remaining order ∧ result = .ok (ordered ++ order)) ∨
        ¬ Acyclic r.References remaining ∧ result = .error "Tenant deletion dependency cycle") := by
  induction hn : remaining.length using Nat.strongRecOn generalizing remaining ordered with
  | ind n ih =>
    by_cases hne : remaining = []
    · subst hne
      refine ⟨.ok ordered, ?_, Or.inl ⟨[], .nil, by rw [List.append_nil]⟩⟩
      intro fuel _
      cases fuel <;> rfl
    · obtain ⟨leaves, hleaves⟩ : ∃ leaves,
          leaves = remaining.filter (· ∉ r.referenced remaining) := ⟨_, rfl⟩
      obtain ⟨hperm, hleaf⟩ := perm_round leaves hleaves
      have hround := @Registry.peel_succ _ _ r remaining hne
      rw [← hleaves] at hround
      have hpos := List.length_pos_of_ne_nil hne
      by_cases hnone : leaves = []
      · refine ⟨_, ?_, Or.inr ⟨?_, rfl⟩⟩
        · intro fuel hfuel
          obtain ⟨fuel, rfl⟩ := Nat.exists_eq_add_of_lt (hpos.trans_le (hn ▸ hfuel))
          rw [Nat.zero_add, hround, if_pos hnone]
        · intro hacyclic
          obtain ⟨m, hm, hl⟩ := hacyclic.exists_leaf hne
          have : m ∈ leaves := by
            rw [hleaves, List.mem_filter, decide_eq_true_eq]
            exact ⟨hm, (not_mem_referenced hm).mpr hl⟩
          rw [hnone] at this
          cases this
      · have hlen : (remaining.filter (· ∉ leaves)).length < n := by
          have h₁ := hperm.length_eq
          have h₂ := List.length_pos_of_ne_nil hnone
          rw [List.length_append] at h₁
          omega
        obtain ⟨result, hpeel, hresult⟩ := ih _ hlen (remaining.filter (· ∉ leaves))
          (ordered ++ leaves) rfl
        refine ⟨result, ?_, ?_⟩
        · intro fuel hfuel
          obtain ⟨fuel, rfl⟩ := Nat.exists_eq_add_of_lt (hpos.trans_le (hn ▸ hfuel))
          rw [Nat.zero_add, hround, if_neg hnone]
          exact hpeel fuel (by omega)
        · refine hresult.imp ?_ ?_
          · rintro ⟨order, horder, rfl⟩
            exact ⟨leaves ++ order, .layer hperm hleaf horder, by rw [List.append_assoc]⟩
          · rintro ⟨hcycle, rfl⟩
            exact ⟨fun h => hcycle (h.mono (List.filter_subset_self _)), rfl⟩

/-- A row of a tenant's table, with the rows its foreign keys point to. -/
structure Row (M : Type) where
  model : M
  key : ℕ
  references : List (M × ℕ)

omit [DecidableEq M] in
/-- The references of a row are along foreign keys of its model. -/
def Row.Declared (r : Registry M) (row : Row M) : Prop :=
  ∀ target ∈ row.references, r.References row.model target.1

/-- Delete the rows of one table, unless a row of another table still refers to one of them. -/
def deleteTable (rows : List (Row M)) (m : M) : Except String (List (Row M)) :=
  if rows.any fun row => row.model ≠ m && row.references.any fun target =>
      target.1 = m && rows.any fun t => t.model = m && t.key = target.2 then
    .error "ForeignKeyViolation"
  else .ok (rows.filter (·.model ≠ m))

def eraseTables (order : List M) (rows : List (Row M)) : Except String (List (Row M)) :=
  order.foldlM deleteTable rows

theorem deleteTable_ok {rows : List (Row M)} {m : M}
    (h : ∀ row ∈ rows, row.model ≠ m → ∀ target ∈ row.references, target.1 ≠ m) :
    deleteTable rows m = .ok (rows.filter (·.model ≠ m)) := by
  apply if_neg
  simp only [Bool.and_eq_true, decide_eq_true_eq, List.any_eq_true, not_and, not_exists]
  intro row hrow hne target htarget he
  exact absurd he (h row hrow hne target htarget)

theorem eraseTables_ok {rows : List (Row M)}
    (hpairs : order.Pairwise fun a b => ¬ r.References b a)
    (hrows : ∀ row ∈ rows, row.model ∈ order ∧ row.Declared r) :
    eraseTables order rows = .ok [] := by
  induction order generalizing rows with
  | nil =>
    have : rows = [] := List.eq_nil_iff_forall_not_mem.mpr fun row hrow => by
      cases (hrows row hrow).1
    subst this
    rfl
  | cons m order ih =>
    obtain ⟨hm, hpairs⟩ := List.pairwise_cons.mp hpairs
    have hsafe : ∀ row ∈ rows, row.model ≠ m → ∀ target ∈ row.references, target.1 ≠ m := by
      rintro row hrow hne target htarget rfl
      obtain ⟨hmem, hdeclared⟩ := hrows row hrow
      exact hm _ ((List.mem_cons.mp hmem).resolve_left hne) (hdeclared target htarget)
    rw [eraseTables, List.foldlM_cons, deleteTable_ok hsafe]
    apply ih hpairs
    intro row hrow
    rw [List.mem_filter, decide_eq_true_eq] at hrow
    obtain ⟨hmem, hdeclared⟩ := hrows row hrow.1
    exact ⟨(List.mem_cons.mp hmem).resolve_left hrow.2, hdeclared⟩

omit [DecidableEq M] in
theorem Registry.tenant_nodup (r : Registry M) : r.tenant.Nodup := by
  apply List.Nodup.sublist _ r.labels_nodup
  unfold Registry.tenant
  generalize appLabels = labels
  induction labels with
  | nil => exact .slnil
  | cons label labels ih =>
    rw [List.flatMap_cons, List.flatMap_cons]
    exact List.filter_sublist.append ih

/-- `tenant_models` returns: the models of the tenant in an order of erasure if their foreign
keys have no cycle, and the dependency cycle if they have. -/
theorem tenant_models_spec (r : Registry M) : ∃ result,
    (∀ fuel, r.tenant.length ≤ fuel → r.tenantModels fuel = some result) ∧
      (Acyclic r.References r.tenant → ∃ order, result = .ok order ∧ order.Nodup ∧
        (∀ m, m ∈ order ↔ m ∈ r.tenant) ∧
        (∀ i j (hi : i < order.length) (hj : j < order.length),
          r.References order[i] order[j] → i < j) ∧
        ∀ rows, (∀ row ∈ rows, row.model ∈ r.tenant ∧ Row.Declared r row) →
          eraseTables order rows = .ok []) ∧
      (¬ Acyclic r.References r.tenant →
        result = .error "Tenant deletion dependency cycle") := by
  obtain ⟨result, hpeel, hresult⟩ := @peel_spec _ _ r r.tenant []
  refine ⟨result, hpeel, ?_, ?_⟩
  · intro hacyclic
    obtain ⟨order, horder, rfl⟩ := hresult.resolve_right fun h => h.1 hacyclic
    have hmem : ∀ m, m ∈ order ↔ m ∈ r.tenant := fun m => horder.perm.mem_iff
    refine ⟨order, rfl, horder.perm.nodup_iff.mpr r.tenant_nodup, hmem,
      fun i j hi hj => horder.lt_of_refs hi hj, ?_⟩
    intro rows hrows
    exact eraseTables_ok horder.ordered.1 fun row hrow =>
      ⟨(hmem _).mpr (hrows row hrow).1, (hrows row hrow).2⟩
  · intro hcycle
    rcases hresult with ⟨order, horder, -⟩ | ⟨-, rfl⟩
    · exact absurd horder.acyclic hcycle
    · rfl

namespace Fixture

inductive Model
  | resourceLocator | store | installation | reconciliationRun | finding | findingEvent
  deriving DecidableEq

def foreignKey (name : String) (target : Model) : Field Model :=
  { name, remoteField := some target, manyToOne := true }

/-- The foreign keys of the models; `back` is one more of the stores. -/
def fields (back : List (Field Model)) : Model → List (Field Model)
  | .resourceLocator => [{ name := "organization_id" }]
  | .store => { name := "organization_id" } :: back
  | .installation => [{ name := "organization_id" }, foreignKey "store" .store]
  | .reconciliationRun => [{ name := "organization_id" }, foreignKey "store" .store]
  | .finding => [{ name := "organization_id" }, foreignKey "store" .store]
  | .findingEvent =>
    [{ name := "organization_id" }, foreignKey "finding" .finding,
      foreignKey "run" .reconciliationRun]

/-- Some models of the connectors and of the findings. -/
def registry (back : List (Field Model)) : Registry Model where
  models label :=
    if label = "connectors" then [.resourceLocator, .store, .installation]
    else if label = "findings" then [.reconciliationRun, .finding, .findingEvent]
    else []
  modelName
    | .resourceLocator => "ResourceLocator"
    | .store => "Store"
    | .installation => "Installation"
    | .reconciliationRun => "ReconciliationRun"
    | .finding => "Finding"
    | .findingEvent => "FindingEvent"
  fields := fields back
  labels_nodup := by decide

def erasure : List Model := [.installation, .findingEvent, .reconciliationRun, .finding, .store]

theorem tenantModels_erasure : (registry []).tenantModels 5 = some (.ok erasure) := by decide

/-- A finding of a store, with the run that opened it. -/
def rows : List (Row Model) :=
  [⟨.store, 1, []⟩, ⟨.reconciliationRun, 1, [(.store, 1)]⟩, ⟨.finding, 1, [(.store, 1)]⟩,
    ⟨.findingEvent, 1, [(.finding, 1), (.reconciliationRun, 1)]⟩]

theorem rows_declared : ∀ row ∈ rows,
    row.model ∈ (registry []).tenant ∧ Row.Declared (registry []) row := by
  simp only [rows, Row.Declared, Registry.References]
  decide

end Fixture

/-- A store goes after everything that refers to it. -/
theorem tenant_models_spec_findings :
    (Fixture.registry []).tenantModels 5 = some (.ok Fixture.erasure) ∧
      eraseTables Fixture.erasure Fixture.rows = .ok [] := by
  obtain ⟨result, hreturns, hacyclic, hcycle⟩ := tenant_models_spec (Fixture.registry [])
  obtain rfl := Option.some.inj ((hreturns 5 (by decide)).symm.trans Fixture.tenantModels_erasure)
  refine ⟨Fixture.tenantModels_erasure, ?_⟩
  by_cases h : Acyclic (Fixture.registry []).References (Fixture.registry []).tenant
  · obtain ⟨order, horder, -, -, -, herased⟩ := hacyclic h
    obtain rfl := Except.ok.inj horder
    exact herased _ Fixture.rows_declared
  · cases hcycle h

/-- A foreign key of the stores to the findings closes a cycle. -/
example : (Fixture.registry [Fixture.foreignKey "latest" .finding]).tenantModels 5 =
    some (.error "Tenant deletion dependency cycle") := by decide

end LedgerGuard.Access.Erasure
