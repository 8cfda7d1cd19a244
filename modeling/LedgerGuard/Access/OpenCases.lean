import LedgerGuard.Access.Retention
import LedgerGuard.Core.Fixtures
import LedgerGuard.Lib.Raising
import LedgerGuard.Lib.Sha256

/-! # The facts of open cases

Retention keeps an old fact only if its source id follows a colon in an identity of
a finding that is not resolved. The evidence of a finding names more facts than its
identities do, so those of an open case can be deleted.
-/

namespace LedgerGuard.Retention

open References Ingestion

def namedFacts (f : Facts) : List (Kind × String) :=
  (f.order.toList.map (·.id) ++ f.orderIds.getD []).map (Kind.order, ·) ++
  (((f.payments.getD [] ++ f.payment.toList).map (·.id) ++ f.paymentId.toList ++
    f.references.getD [] ++ f.compensatedDuplicatePaymentIds.getD [] ++
    f.candidatePaymentIds.getD []).map (Kind.payment, ·)) ++
  (f.stripeRefunds.getD []).map (fun r => (Kind.stripeRefund, r.id)) ++
  (f.wooRefunds.getD []).map (fun r => (Kind.wooRefund, r.id))

/-- The connectors of a store: its own, and the account it is linked to. -/
def Db.connectorsOf (db : Db) (store : String) : List ℕ :=
  (db.installations.filter (·.store = some store)).map (·.id) ++
    (db.links.filter (·.store = store)).map (·.stripe)

/-- The evidence of the finding names the record of this projection. -/
def Db.Names (db : Db) (f : Finding) (p : Projection) : Prop :=
  p.connector ∈ db.connectorsOf f.storeId ∧ (p.kind, p.sourceId) ∈ namedFacts f.evidence.facts

instance (db : Db) (f : Finding) (p : Projection) : Decidable (db.Names f p) :=
  inferInstanceAs (Decidable (_ ∧ _))

def identityId : Identity → String
  | .store id => id
  | .order id => id
  | .payment id => id

theorem afterColon_render (i : Identity) : afterColon i.render = some (identityId i) := by
  cases i <;> simp [afterColon, Identity.render, identityId]

section Kept

variable {now cutoff : Instant} {db db' : Db} {bucket : Bool} {p : Projection} {x : String}

theorem mem_retainedIds : x ∈ db.retainedIds ↔
    ∃ f ∈ db.findings, f.state ≠ .resolved ∧ ∃ i ∈ f.identities, identityId i = x := by
  simp only [Db.retainedIds, List.mem_flatMap, List.mem_filter, decide_eq_true_eq,
    List.mem_filterMap, List.mem_map, exists_exists_and_eq_and, afterColon_render,
    Option.some.injEq, and_assoc]

theorem mem_retainedIds_expireFindings :
    x ∈ (db.expireFindings cutoff).retainedIds ↔ x ∈ db.retainedIds := by
  have hkept : ∀ f : Finding, f ∈ delete (expired cutoff) db.findings ∧ f.state ≠ .resolved ↔
      f ∈ db.findings ∧ f.state ≠ .resolved := by
    intro f
    simp only [mem_delete, expired]
    constructor
    · rintro ⟨⟨hf, -⟩, hstate⟩
      exact ⟨hf, hstate⟩
    · rintro ⟨hf, hstate⟩
      exact ⟨⟨hf, by simp [hstate]⟩, hstate⟩
  rw [mem_retainedIds, mem_retainedIds]
  simp only [← and_assoc]
  exact exists_congr fun f => and_congr_left fun _ => hkept f

theorem mem_projections (h : retain bucket now db = .ok db') : p ∈ db'.projections ↔
    p ∈ db.projections ∧ (db.cutoff now ≤ p.revision ∨ p.sourceId ∈ db.retainedIds) := by
  obtain ⟨-, rfl⟩ := retain_ok h
  have hids := @mem_retainedIds_expireFindings (db.cutoff now)
    ((db.expireWork now).expireCodes now) p.sourceId
  have hsame : ((db.expireWork now).expireCodes now).retainedIds = db.retainedIds := rfl
  rw [hsame] at hids
  change p ∈ delete _ db.projections ↔ _
  rw [mem_delete, Bool.and_eq_false_iff, decide_eq_false_iff_not, decide_eq_false_iff_not,
    not_not, not_lt, hids]

/-- The facts of the open cases survive exactly if each old one has its source id in an identity
of a finding that is not resolved. -/
theorem open_facts_kept_iff (hdb : db.Intact) (h : retain bucket now db = .ok db') :
    (∀ f ∈ db.findings, f.state ≠ .resolved → ∀ p ∈ db.projections, db.Names f p →
      p ∈ db'.projections ∧ ∃ o ∈ db'.observations, o.id = p.observation) ↔
    ∀ f ∈ db.findings, f.state ≠ .resolved → ∀ p ∈ db.projections, db.Names f p →
      p.revision < db.cutoff now → ∃ g ∈ db.findings, g.state ≠ .resolved ∧
        ∃ i ∈ g.identities, identityId i = p.sourceId := by
  have hkept : ∀ p ∈ db.projections,
      (p ∈ db'.projections ∧ ∃ o ∈ db'.observations, o.id = p.observation) ↔
        (p.revision < db.cutoff now → ∃ g ∈ db.findings, g.state ≠ .resolved ∧
          ∃ i ∈ g.identities, identityId i = p.sourceId) := by
    intro p hp
    rw [← mem_retainedIds, ← not_le, ← or_iff_not_imp_left]
    constructor
    · rintro ⟨hp', -⟩
      exact ((mem_projections h).mp hp').2
    · intro hkeep
      have hp' := (mem_projections h).mpr ⟨hp, hkeep⟩
      exact ⟨hp', (retain_intact hdb h).projections_observation p hp' _ rfl⟩
  constructor
  · intro hall f hf hstate p hp hn
    exact (hkept p hp).mp (hall f hf hstate p hp hn)
  · intro hall f hf hstate p hp hn
    exact (hkept p hp).mpr (hall f hf hstate p hp hn)

end Kept

section OpenCase

open Fixture

def partialRefund : Refund where
  id := "re_one"
  source := .stripe
  parentId := "pi_one"
  amount := eur 500 small_le
  status := .succeeded
  changedAt := old
  status_allowed := stripe_succeeded

/-- The findings of a first run on the order, its payment and the refund of a part of it. -/
def openFindings : List Finding :=
  ((evaluate Sha256.hexdigest { snapshot with refunds := [partialRefund] }).toOption.elim []
    (·.proposals)).map fun p =>
      let store : Store := { id := "store_one", mode := .test }
      ((Finding.create Sha256.hexdigest now store p).observe Sha256.hexdigest now p true).1

def openDb : Db where
  organization := { retentionDays := 90 }
  findings := openFindings
  installations := [⟨1, some "store_one"⟩, ⟨2, none⟩]
  links := [⟨"store_one", 2⟩]
  projections := [⟨1, .order, "1", old, 1⟩, ⟨2, .payment, "pi_one", old, 2⟩,
    ⟨2, .stripeRefund, "re_one", old, 3⟩]
  observations := [⟨1, old⟩, ⟨2, old⟩, ⟨3, old⟩]

theorem openDb_intact : openDb.Intact where
  events_finding := nofun
  events_run := nofun
  deliveries_event := nofun
  deliveries_audit := nofun
  projections_observation := by
    have hall : ∀ p ∈ openDb.projections, ∃ o ∈ openDb.observations, o.id = p.observation := by
      decide
    intro p hp k hk
    obtain rfl := Option.some.inj hk
    exact hall p hp

/-- After ninety-one days the case is still open, and its payment and its refund are gone. -/
theorem openDb_loses_facts : ∃ db', retain true (now + days 91) openDb = .ok db' ∧
    ¬ ∀ f ∈ openDb.findings, f.state ≠ .resolved → ∀ p ∈ openDb.projections, openDb.Names f p →
      p ∈ db'.projections ∧ ∃ o ∈ db'.observations, o.id = p.observation := by
  obtain ⟨db', h⟩ := Raising.exists_of_isOk
    (show (retain true (now + days 91) openDb).isOk = true by decide +kernel)
  use db', h
  intro hall
  obtain ⟨f, hf, hstate, p, hp, hnames, hold, hlost⟩ : ∃ f ∈ openDb.findings, f.state ≠ .resolved ∧
      ∃ p ∈ openDb.projections, openDb.Names f p ∧ p.revision < openDb.cutoff (now + days 91) ∧
        p.sourceId ∉ openDb.retainedIds := by decide +kernel
  rcases ((mem_projections h).mp (hall f hf hstate p hp hnames).1).2 with hnew | hkept
  · exact absurd hold (not_lt.mpr hnew)
  · exact hlost hkept

theorem openDb_kept_iff : ∃ db', retain true (now + days 91) openDb = .ok db' ∧
    ((∀ f ∈ openDb.findings, f.state ≠ .resolved → ∀ p ∈ openDb.projections, openDb.Names f p →
      p ∈ db'.projections ∧ ∃ o ∈ db'.observations, o.id = p.observation) ↔
    ∀ f ∈ openDb.findings, f.state ≠ .resolved → ∀ p ∈ openDb.projections, openDb.Names f p →
      p.revision < openDb.cutoff (now + days 91) → ∃ g ∈ openDb.findings, g.state ≠ .resolved ∧
        ∃ i ∈ g.identities, identityId i = p.sourceId) := by
  obtain ⟨db', h⟩ := Raising.exists_of_isOk
    (show (retain true (now + days 91) openDb).isOk = true by decide +kernel)
  exact ⟨db', h, open_facts_kept_iff openDb_intact h⟩

end OpenCase

end LedgerGuard.Retention
