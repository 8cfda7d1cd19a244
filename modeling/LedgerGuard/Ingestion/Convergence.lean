import LedgerGuard.Core.Decoding
import LedgerGuard.Ingestion.Projections
import LedgerGuard.Lib.Sha256
import Mathlib.Data.Finset.Dedup
import Mathlib.Data.Finset.Image

/-! # Convergence on the newest revision

Facts of one source record, delivered to `upsert` in any order and with any
repetitions. The projection ends at the newest fact for every order exactly when
no other fact has the newest one's content: content that returns is taken for a
duplicate, and its later revision is never stored.
-/

namespace LedgerGuard.Ingestion

/-- A fact that can be stored: its timestamps are readable. -/
structure Fact where
  revision : Instant
  data : SourceData
  times : SourceTimes
  times_eq : data.times = some times
  deriving DecidableEq

variable (sha256 : String → String) (connector : Installation) (kind : Kind) (sourceId : String)

def Fact.observation (f : Fact) : Observation :=
  ⟨kind, sourceId, f.revision, contentHash sha256 f.data, f.data, currencyTableVersion⟩

/-- The row has the revision and the observation of the fact and every column its data names. -/
structure Projection.Carries (p : Projection) (f : Fact) : Prop where
  revision : p.revision = f.revision
  observation : p.observation = f.observation sha256 kind sourceId
  columns : p.assign f.data f.times = p

/-- One delivery; a refused fact leaves the tables as they were. -/
def deliver (db : Facts) (f : Fact) : Facts :=
  match upsert sha256 connector kind sourceId f.revision f.data db with
  | .ok (db', _) => db'
  | .error _ => db

/-- Nothing is stored about the source record. -/
def Facts.Unseen (db : Facts) : Prop :=
  db.projections.get (kind, sourceId) = none ∧
    ∀ o ∈ db.observations, ¬ (o.kind = kind ∧ o.sourceId = sourceId)

/-- Every observation of the source record is that of a fact. -/
def Facts.Observed (db : Facts) (facts : Finset Fact) : Prop :=
  ∀ o ∈ db.observations, o.kind = kind → o.sourceId = sourceId →
    ∃ f ∈ facts, o = f.observation sha256 kind sourceId

variable {sha256 connector kind sourceId}

variable {db : Facts} {facts : Finset Fact} {f newest : Fact}

theorem Facts.Unseen.observed (h : db.Unseen kind sourceId) :
    db.Observed sha256 kind sourceId facts :=
  fun o ho hk hs => absurd ⟨hk, hs⟩ (h.2 o ho)

theorem observe_spec (h : db.Observed sha256 kind sourceId facts)
    (hd : Set.InjOn Fact.revision (facts : Set Fact)) (hf : f ∈ facts) :
    (db.observe (f.observation sha256 kind sourceId)).1 = f.observation sha256 kind sourceId ∧
      (db.observe (f.observation sha256 kind sourceId)).2.Observed sha256 kind sourceId facts := by
  unfold Facts.observe
  cases hg : db.observations.get (f.observation sha256 kind sourceId).key with
  | some o =>
    obtain ⟨ho, hk⟩ := Table.get_eq_some.mp hg
    simp only [Observation.key, Fact.observation, Prod.mk.injEq] at hk
    obtain ⟨g, hgf, rfl⟩ := h o ho hk.1 hk.2.1
    obtain rfl := hd hgf hf hk.2.2.1
    exact ⟨rfl, h⟩
  | none =>
    refine ⟨rfl, fun o ho hk hs => ?_⟩
    rcases Table.mem_put.mp ho with rfl | ⟨ho, -⟩
    · exact ⟨f, hf, rfl⟩
    · exact h o ho hk hs

theorem deliver_observed (connector : Installation) (h : db.Observed sha256 kind sourceId facts)
    (hd : Set.InjOn Fact.revision (facts : Set Fact)) (hf : f ∈ facts) :
    (deliver sha256 connector kind sourceId db f).Observed sha256 kind sourceId facts := by
  have ho := (observe_spec h hd hf).2
  unfold deliver upsert
  simp only [f.times_eq]
  split
  · rename_i hu
    split at hu
    · cases hu
      exact h
    split at hu
    · cases hu
      exact ho
    split at hu
    · cases hu
    · cases hu
      exact ho
  · exact h

theorem create_carries (connector : Installation) :
    (Projection.create connector kind sourceId f.revision f.data f.times
      (f.observation sha256 kind sourceId)).Carries sha256 kind sourceId f :=
  ⟨rfl, rfl, assign_save⟩

theorem update_carries (connector : Installation) (p : Projection) :
    (p.update connector f.revision f.data f.times
      (f.observation sha256 kind sourceId)).Carries sha256 kind sourceId f := by
  have hs : (p.save connector f.revision f.data f.times
      (f.observation sha256 kind sourceId)).assign f.data f.times = p.save connector f.revision
        f.data f.times (f.observation sha256 kind sourceId) := assign_save
  exact ⟨rfl, rfl, congrArg (fun q : Projection => { q with lockVersion := p.lockVersion + 1 }) hs⟩

section

variable (connector) {p : Projection}

theorem deliver_of_none (h : db.Observed sha256 kind sourceId facts)
    (hd : Set.InjOn Fact.revision (facts : Set Fact)) (hf : f ∈ facts)
    (hg : db.projections.get (kind, sourceId) = none) :
    ∃ p, (deliver sha256 connector kind sourceId db f).projections.get (kind, sourceId) = some p ∧
      p.Carries sha256 kind sourceId f := by
  have ho := (observe_spec h hd hf).1
  refine ⟨_, ?_, create_carries connector⟩
  unfold deliver upsert
  simp only [hg, Option.any_none, Bool.false_eq_true, if_false, f.times_eq, Option.elim_none]
  rw [Table.get_put]
  change (if (kind, sourceId) = (kind, sourceId) then _ else _) = _
  rw [if_pos rfl]
  exact congrArg (fun o => some (Projection.create connector kind sourceId f.revision f.data
    f.times o)) ho

theorem deliver_of_kept (hg : db.projections.get (kind, sourceId) = some p)
    (hk : p.observation.contentHash = contentHash sha256 f.data ∨ f.revision ≤ p.revision) :
    (deliver sha256 connector kind sourceId db f).projections.get (kind, sourceId) = some p := by
  unfold deliver upsert
  simp only [hg, Option.any_some, decide_eq_true_eq]
  split
  · rename_i hu
    split at hu
    · cases hu
      exact hg
    split at hu
    · cases hu
      rw [observe_projections]
      exact hg
    split at hu
    · cases hu
    · rename_i hh hlt heq
      rcases hk with hk | hk
      · exact absurd hk hh
      · exact absurd (lt_of_le_of_ne hk heq) hlt
  · exact hg

theorem deliver_of_newer (h : db.Observed sha256 kind sourceId facts)
    (hd : Set.InjOn Fact.revision (facts : Set Fact)) (hf : f ∈ facts)
    (hg : db.projections.get (kind, sourceId) = some p)
    (hh : p.observation.contentHash ≠ contentHash sha256 f.data) (hr : p.revision < f.revision) :
    ∃ p', (deliver sha256 connector kind sourceId db f).projections.get (kind, sourceId) =
      some p' ∧ p'.Carries sha256 kind sourceId f := by
  have ho := (observe_spec h hd hf).1
  have hkey : p.key = (kind, sourceId) := (Table.get_eq_some.mp hg).2
  refine ⟨_, ?_, update_carries connector p⟩
  unfold deliver upsert
  simp only [hg, Option.any_some, decide_eq_true_eq, if_neg hh, if_neg (not_lt.mpr hr.le),
    if_neg hr.ne', f.times_eq, Option.elim_some]
  rw [Table.get_put]
  change (if (kind, sourceId) = p.key then _ else _) = _
  rw [hkey, if_pos rfl]
  exact congrArg (fun o => some (p.update connector f.revision f.data f.times o)) ho

end

def Facts.CarriesOneOf (db : Facts) (sha256 : String → String) (kind : Kind) (sourceId : String)
    (fs : Set Fact) : Prop :=
  ∃ p, db.projections.get (kind, sourceId) = some p ∧ ∃ f ∈ fs, p.Carries sha256 kind sourceId f

theorem Projection.Carries.contentHash_eq {p : Projection}
    (h : p.Carries sha256 kind sourceId f) :
    p.observation.contentHash = contentHash sha256 f.data := by
  rw [h.observation]
  rfl

section Orders

variable (connector) {ds : List Fact} {fs : Set Fact}

theorem carriesOneOf_deliver (h : db.Observed sha256 kind sourceId facts)
    (hd : Set.InjOn Fact.revision (facts : Set Fact)) (hf : f ∈ facts) (hs : f ∈ fs)
    (hc : db.projections.get (kind, sourceId) = none ∨
      db.CarriesOneOf sha256 kind sourceId fs) :
    (deliver sha256 connector kind sourceId db f).CarriesOneOf sha256 kind sourceId fs := by
  rcases hc with hg | ⟨p, hg, g, hgs, hc⟩
  · obtain ⟨p, hp, hc⟩ := deliver_of_none connector h hd hf hg
    exact ⟨p, hp, f, hs, hc⟩
  · by_cases hk : p.observation.contentHash = contentHash sha256 f.data ∨ f.revision ≤ p.revision
    · exact ⟨p, deliver_of_kept connector hg hk, g, hgs, hc⟩
    · rw [not_or, not_le] at hk
      obtain ⟨p', hp, hc⟩ := deliver_of_newer connector h hd hf hg hk.1 hk.2
      exact ⟨p', hp, f, hs, hc⟩

theorem carriesOneOf_foldl (h : db.Observed sha256 kind sourceId facts)
    (hd : Set.InjOn Fact.revision (facts : Set Fact)) (hf : ∀ f ∈ ds, f ∈ facts)
    (hs : ∀ f ∈ ds, f ∈ fs) (hc : db.CarriesOneOf sha256 kind sourceId fs) :
    (ds.foldl (deliver sha256 connector kind sourceId) db).CarriesOneOf sha256 kind sourceId
      fs := by
  induction ds generalizing db with
  | nil => exact hc
  | cons f ds ih =>
    rw [List.forall_mem_cons] at hf hs
    exact ih (deliver_observed connector h hd hf.1) hf.2 hs.2
      (carriesOneOf_deliver connector h hd hf.1 hs.1 (Or.inr hc))

theorem newest_stays (hmax : ∀ f ∈ facts, f.revision ≤ newest.revision)
    (hf : ∀ f ∈ ds, f ∈ facts) (hc : db.CarriesOneOf sha256 kind sourceId {newest}) :
    (ds.foldl (deliver sha256 connector kind sourceId) db).CarriesOneOf sha256 kind sourceId
      {newest} := by
  induction ds generalizing db with
  | nil => exact hc
  | cons f ds ih =>
    rw [List.forall_mem_cons] at hf
    obtain ⟨p, hg, g, rfl, hc⟩ := hc
    have hr : f.revision ≤ p.revision := by
      rw [hc.revision]
      exact hmax f hf.1
    exact ih hf.2 ⟨p, deliver_of_kept connector hg (Or.inr hr), g, rfl, hc⟩

theorem newest_taken (h : db.Observed sha256 kind sourceId facts)
    (hd : Set.InjOn Fact.revision (facts : Set Fact)) (hn : newest ∈ facts)
    (hmax : ∀ f ∈ facts, f.revision ≤ newest.revision)
    (hne : ∀ f ∈ facts, f ≠ newest →
      contentHash sha256 f.data ≠ contentHash sha256 newest.data)
    (hc : db.projections.get (kind, sourceId) = none ∨
      db.CarriesOneOf sha256 kind sourceId facts) :
    (deliver sha256 connector kind sourceId db newest).CarriesOneOf sha256 kind sourceId
      {newest} := by
  rcases hc with hg | ⟨p, hg, g, hgf, hc⟩
  · obtain ⟨p, hp, hc⟩ := deliver_of_none connector h hd hn hg
    exact ⟨p, hp, newest, rfl, hc⟩
  · by_cases hgn : g = newest
    · subst hgn
      exact ⟨p, deliver_of_kept connector hg (Or.inl hc.contentHash_eq), g, rfl, hc⟩
    · have hlt : p.revision < newest.revision := by
        rw [hc.revision]
        exact lt_of_le_of_ne (hmax g hgf) fun he => hgn (hd hgf hn he)
      have hh : p.observation.contentHash ≠ contentHash sha256 newest.data := by
        rw [hc.contentHash_eq]
        exact hne g hgf hgn
      obtain ⟨p', hp, hc⟩ := deliver_of_newer connector h hd hn hg hh hlt
      exact ⟨p', hp, newest, rfl, hc⟩

theorem newest_of_mem (h : db.Observed sha256 kind sourceId facts)
    (hd : Set.InjOn Fact.revision (facts : Set Fact)) (hf : ∀ f ∈ ds, f ∈ facts)
    (hmax : ∀ f ∈ facts, f.revision ≤ newest.revision)
    (hne : ∀ f ∈ facts, f ≠ newest →
      contentHash sha256 f.data ≠ contentHash sha256 newest.data)
    (hc : db.projections.get (kind, sourceId) = none ∨
      db.CarriesOneOf sha256 kind sourceId facts) (hn : newest ∈ ds) :
    (ds.foldl (deliver sha256 connector kind sourceId) db).CarriesOneOf sha256 kind sourceId
      {newest} := by
  induction ds generalizing db with
  | nil => cases hn
  | cons f ds ih =>
    rw [List.forall_mem_cons] at hf
    rcases List.mem_cons.mp hn with rfl | hn
    · rw [List.foldl_cons]
      exact newest_stays connector hmax hf.2 (newest_taken connector h hd hf.1 hmax hne hc)
    · exact ih (deliver_observed connector h hd hf.1) hf.2
        (Or.inr (carriesOneOf_deliver connector h hd hf.1 hf.1 hc)) hn

/-- Another fact of the newest one's content, delivered first, keeps the newest fact out for as
long as it is not delivered again. -/
theorem newest_kept_out (h : db.Unseen kind sourceId)
    (hd : Set.InjOn Fact.revision (facts : Set Fact)) (hf : f ∈ facts) (hn : newest ∈ facts)
    (hne : f ≠ newest) (hh : contentHash sha256 f.data = contentHash sha256 newest.data)
    (hds : ∀ g ∈ ds, g ∈ facts ∧ g ≠ newest) :
    ((f :: newest :: ds).foldl (deliver sha256 connector kind sourceId) db).CarriesOneOf sha256
      kind sourceId {g | g ∈ facts ∧ g ≠ newest} := by
  obtain ⟨p, hp, hc⟩ := deliver_of_none connector h.observed hd hf h.1
  have ho : db.Observed sha256 kind sourceId facts := h.observed
  have hk := deliver_of_kept connector hp (Or.inl (hc.contentHash_eq.trans hh))
  rw [List.foldl_cons, List.foldl_cons]
  have ho' := deliver_observed connector (deliver_observed connector ho hd hf) hd hn
  exact carriesOneOf_foldl connector ho' hd (fun g hg => (hds g hg).1) hds
    ⟨p, hk, f, ⟨hf, hne⟩, hc⟩

end Orders

/-- The projection ends at the newest fact for every order of deliveries, with any repetitions,
exactly when no other fact has the newest one's content. -/
theorem converges_iff (connector : Installation) (h : db.Unseen kind sourceId)
    (hd : Set.InjOn Fact.revision (facts : Set Fact)) (hn : newest ∈ facts)
    (hmax : ∀ f ∈ facts, f.revision ≤ newest.revision) :
    (∀ ds : List Fact, ds.toFinset = facts →
      ∃ p, (ds.foldl (deliver sha256 connector kind sourceId) db).projections.get
        (kind, sourceId) = some p ∧ p.Carries sha256 kind sourceId newest) ↔
      ∀ f ∈ facts, f ≠ newest →
        contentHash sha256 f.data ≠ contentHash sha256 newest.data := by
  constructor
  · intro hall f hf hne hh
    -- The order that delivers the other fact, then the newest one, then the rest.
    have hds : (f :: newest :: (facts.erase newest).toList).toFinset = facts := by
      ext g
      simp only [List.mem_toFinset, List.mem_cons, Finset.mem_toList, Finset.mem_erase]
      constructor
      · rintro (rfl | rfl | hg)
        · exact hf
        · exact hn
        · exact hg.2
      · intro hg
        by_cases hgn : g = newest
        · exact Or.inr (Or.inl hgn)
        · exact Or.inr (Or.inr ⟨hgn, hg⟩)
    obtain ⟨p, hp, hc⟩ := hall _ hds
    have hrest : ∀ g ∈ (facts.erase newest).toList, g ∈ facts ∧ g ≠ newest := fun g hg =>
      (Finset.mem_erase.mp (Finset.mem_toList.mp hg)).symm
    obtain ⟨q, hq, g, ⟨hg, hgn⟩, hcg⟩ := newest_kept_out connector h hd hf hn hne hh hrest
    obtain rfl := Option.some.inj (hp.symm.trans hq)
    exact hgn (hd hg hn (hcg.revision.symm.trans hc.revision))
  · intro hne ds hds
    have hf : ∀ f ∈ ds, f ∈ facts := fun f hf => by
      rw [← hds]
      exact List.mem_toFinset.mpr hf
    have hnd : newest ∈ ds := by
      rw [← hds] at hn
      exact List.mem_toFinset.mp hn
    obtain ⟨p, hp, g, rfl, hc⟩ := newest_of_mem connector h.observed hd hf hmax hne (Or.inl h.1) hnd
    exact ⟨p, hp, hc⟩

def wooStore : Installation := ⟨"connector", "organization", some "store", .live⟩

def orderData (status : String) : SourceData where
  status := status
  amountMinor := 12995
  currency := "EUR"
  exponent := 2
  createdAtSource := "2026-09-05T10:00:00Z"
  refundedMinor := some 0
  method := some "stripe"
  transactionId := some "pi_1"
  piId := some "pi_1"
  chargeId := some ""
  sessionId := some ""
  paidAt := some none
  refundIds := some []

theorem orderData_times (status : String) :
    (orderData status).times = some ⟨1788602400000000, some none⟩ := by
  have ht : timestamp "2026-09-05T10:00:00Z" = some 1788602400000000 := by decide +kernel
  simp only [SourceData.times, orderData, ht]
  rfl

/-- A version of the order, some seconds after its creation. -/
def orderFact (second : ℤ) (status : String) : Fact :=
  ⟨1788602400000000 + seconds second, orderData status, _, orderData_times status⟩

theorem unseen_empty : ({} : Facts).Unseen kind sourceId :=
  ⟨rfl, fun _ ho => absurd ho Table.not_mem_empty⟩

theorem contentHash_orderData : contentHash Sha256.hexdigest (orderData "on-hold") ≠
    contentHash Sha256.hexdigest (orderData "processing") := by
  unfold contentHash SourceData.toJson
  rw [Sha256.hexdigest_eq, Sha256.hexdigest_eq, canonical_obj, canonical_obj]
  decide +kernel

/-- Two versions of the order converge, in whatever order and however often they arrive. -/
theorem converges_distinct :
    contentHash Sha256.hexdigest (orderData "on-hold") ≠
      contentHash Sha256.hexdigest (orderData "processing") ∧
    ∀ ds : List Fact, ds.toFinset = {orderFact 1 "on-hold", orderFact 2 "processing"} →
      ∃ p, (ds.foldl (deliver Sha256.hexdigest wooStore .order "1") {}).projections.get
        (.order, "1") = some p ∧
        p.Carries Sha256.hexdigest .order "1" (orderFact 2 "processing") :=
  ⟨contentHash_orderData, (converges_iff wooStore unseen_empty
    (by
      simp only [Finset.coe_insert, Finset.coe_singleton, Set.injOn_pair]
      intro h
      exact absurd h (by decide))
    (by simp)
    (by
      simp only [Finset.mem_insert, Finset.mem_singleton, forall_eq_or_imp, forall_eq]
      exact ⟨by decide, le_rfl⟩)).mpr (by
        simp only [Finset.mem_insert, Finset.mem_singleton, forall_eq_or_imp, forall_eq]
        exact ⟨fun _ => contentHash_orderData, fun h => absurd rfl h⟩)⟩

theorem between_rewinds (connector : Installation) {g : Fact} (h : db.Unseen kind sourceId)
    (hd : Set.InjOn Fact.revision ({f, newest, g} : Finset Fact))
    (hh : contentHash sha256 f.data = contentHash sha256 newest.data)
    (hg : contentHash sha256 f.data ≠ contentHash sha256 g.data)
    (hr : f.revision < g.revision) :
    ([f, newest, g].foldl (deliver sha256 connector kind sourceId) db).CarriesOneOf sha256 kind
      sourceId {g} := by
  have h₀ : db.Observed sha256 kind sourceId {f, newest, g} := h.observed
  obtain ⟨p, hp, hc⟩ := deliver_of_none connector h₀ hd (f := f) (by simp) h.1
  have h₁ := deliver_observed connector h₀ hd (f := f) (by simp)
  have h₂ := deliver_observed connector h₁ hd (f := newest) (by simp)
  have hk := deliver_of_kept connector hp (Or.inl (hc.contentHash_eq.trans hh))
  obtain ⟨p', hp', hc'⟩ := deliver_of_newer connector h₂ hd (f := g) (by simp) hk
    (fun he => hg (hc.contentHash_eq.symm.trans he)) (hc.revision.trans_lt hr)
  exact ⟨p', hp', g, rfl, hc'⟩

/-- An order goes back to an earlier content; the version between arrives late and rewinds it. -/
theorem returned_content_rewinds : ∃ p,
    ([orderFact 1 "processing", orderFact 3 "processing", orderFact 2 "on-hold"].foldl
      (deliver Sha256.hexdigest wooStore .order "1") {}).projections.get (.order, "1") = some p ∧
    p.revision = (orderFact 2 "on-hold").revision ∧ p.status = "on-hold" ∧
    ¬ p.Carries Sha256.hexdigest .order "1" (orderFact 3 "processing") := by
  have hd : Set.InjOn Fact.revision ({orderFact 1 "processing", orderFact 3 "processing",
      orderFact 2 "on-hold"} : Finset Fact) := by
    intro f hf g hg he
    simp only [Finset.coe_insert, Finset.coe_singleton, Set.mem_insert_iff,
      Set.mem_singleton_iff] at hf hg
    rcases hf with rfl | rfl | rfl <;> rcases hg with rfl | rfl | rfl <;>
      first | rfl | exact absurd he (by decide)
  obtain ⟨p, hp, f, rfl, hc⟩ := between_rewinds wooStore unseen_empty hd rfl
    contentHash_orderData.symm (by decide)
  refine ⟨p, hp, hc.revision, ?_, fun hn => ?_⟩
  · rw [← hc.columns]
    rfl
  · have hne : (orderFact 2 "on-hold").revision ≠ (orderFact 3 "processing").revision := by decide
    exact hne (hc.revision.symm.trans hn.revision)

end LedgerGuard.Ingestion
