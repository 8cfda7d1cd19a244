import LedgerGuard.Connectors.Replay
import LedgerGuard.Lib.FixedWindow

/-! # Quotas over whole histories

Every bucket has one rate. Its requests are counted in the windows of the clock,
a request that is rolled back takes its count back, and retention deletes the
counters of old windows. Clocks are read before the counter is locked, so a
request may be late by some lag.
-/

namespace LedgerGuard.Quotas

open Connectors FixedWindow Transition

/-- The counter of the current window of a bucket. -/
def record (bucket : String) (length : Duration) (now : Instant) (quotas : Table Quota.key) : Quota :=
  (quotas.get (bucket, now / length)).getD { bucket, window := now / length, createdAt := now }

/-- `quota`: count a request in the current window of its bucket. -/
def quota (bucket : String) (limit : ℕ) (length : Duration) (now : Instant)
    (quotas : Table Quota.key) : Except Raised (Table Quota.key) :=
  let record := record bucket length now quotas
  if limit ≤ record.count then .error (.problem "RATE_LIMITED" 429)
  else .ok (quotas.put { record with count := record.count + 1 })

theorem takeQuota_eq {bucket : String} {limit : ℕ} {now : Instant} {quotas : Table Quota.key} :
    takeQuota bucket limit now quotas = quota bucket limit (seconds quotaSeconds) now quotas := rfl

structure Rate where
  limit : ℕ
  length : Duration

/-- The rates that the callers of `quota` pass. -/
def rates (bucket : String) : Rate :=
  if bucket = "pairing" then ⟨20, seconds 60⟩
  else if bucket = "store-create" ∨ bucket = "reports" ∨ bucket.startsWith "notification:" then
    ⟨20, seconds 3600⟩
  else if bucket.startsWith "plugin:" then ⟨240, seconds 60⟩
  else ⟨2400, seconds 60⟩

/-- How a request leaves the counter: raised by the quota, taken back with the rest of its
transaction, or committed. -/
inductive Outcome
  | refused | rolledBack | committed
  deriving DecidableEq

inductive Event
  | request (bucket : String) (now : Instant) (outcome : Outcome)
  | retain (now : Instant)

structure World where
  clock : Instant
  quotas : Table Quota.key := .empty

def World.read (w : World) (now : Instant) : World := { w with clock := max w.clock now }

section

variable (rate : String → Rate) (lag : Duration)

def World.quota (w : World) (bucket : String) (now : Instant) : Except Raised (Table Quota.key) :=
  Quotas.quota bucket (rate bucket).limit (rate bucket).length now w.quotas

inductive Step (w : World) : Event → World → Prop
  | refused {bucket now e} (hnow : w.clock - lag ≤ now) (h : w.quota rate bucket now = .error e) :
      Step w (.request bucket now .refused) (w.read now)
  | rolledBack {bucket now quotas} (hnow : w.clock - lag ≤ now)
      (h : w.quota rate bucket now = .ok quotas) :
      Step w (.request bucket now .rolledBack) (w.read now)
  | committed {bucket now quotas} (hnow : w.clock - lag ≤ now)
      (h : w.quota rate bucket now = .ok quotas) :
      Step w (.request bucket now .committed) { w.read now with quotas }
  | retain {now} (hnow : w.clock - lag ≤ now) :
      Step w (.retain now)
        { w.read now with quotas := w.quotas.filter fun q => !decide (q.createdAt < now - receiptAge) }

end

/-- The times of the requests of a bucket that were committed. -/
def Event.committedAt (bucket : String) : Event → Option Instant
  | .request b now .committed => if b = bucket then some now else none
  | _ => none

def committedTimes (bucket : String) (es : List Event) : List Instant :=
  es.filterMap (Event.committedAt bucket)

def count (quotas : Table Quota.key) (bucket : String) (window : ℤ) : ℕ :=
  ((quotas.get (bucket, window)).map Quota.count).getD 0

section

variable {quotas quotas' : Table Quota.key} {bucket b : String} {limit : ℕ} {length : Duration}
  {now : Instant} {window : ℤ} {e : Raised}

theorem record_key : (record bucket length now quotas).key = (bucket, now / length) := by
  unfold record
  cases hg : quotas.get (bucket, now / length) with
  | none => rfl
  | some q => exact (Table.get_eq_some.mp hg).2

theorem record_count : (record bucket length now quotas).count =
    count quotas bucket (now / length) := by
  unfold record count
  cases quotas.get (bucket, now / length) <;> rfl

theorem quota_error (h : quota bucket limit length now quotas = .error e) :
    limit ≤ count quotas bucket (now / length) := by
  unfold quota at h
  dsimp only at h
  split at h
  · rename_i hc
    rwa [record_count] at hc
  · cases h

theorem quota_ok (h : quota bucket limit length now quotas = .ok quotas') :
    count quotas bucket (now / length) < limit ∧
      quotas' = quotas.put { record bucket length now quotas with
        count := count quotas bucket (now / length) + 1 } := by
  unfold quota at h
  dsimp only at h
  split at h
  · cases h
  · rename_i hc
    rw [record_count] at hc h
    exact ⟨not_le.mp hc, (Except.ok.inj h).symm⟩

theorem count_put (q : Quota) : count (quotas.put q) b window =
    if b = q.bucket ∧ window = q.window then q.count else count quotas b window := by
  unfold count
  rw [Table.get_put]
  simp only [Quota.key, Prod.mk.injEq]
  split <;> rfl

theorem count_quota (h : quota bucket limit length now quotas = .ok quotas') :
    count quotas' b window =
      count quotas b window + if b = bucket ∧ now / length = window then 1 else 0 := by
  obtain ⟨-, rfl⟩ := quota_ok h
  have hkey := @record_key quotas bucket length now
  obtain ⟨hb, hw⟩ := Prod.mk.inj hkey
  rw [count_put]
  dsimp only
  rw [hb, hw]
  by_cases hk : b = bucket ∧ now / length = window
  · obtain ⟨rfl, rfl⟩ := hk
    simp
  · rw [if_neg hk, if_neg fun h => hk ⟨h.1, h.2.symm⟩, Nat.add_zero]

end

section

variable {rate : String → Rate} {lag : Duration} {w w' : World} {es : List Event} {event : Event}
  {t₀ : Instant}

@[simp] theorem committedTimes_nil (b : String) : committedTimes b [] = [] := rfl

theorem committedTimes_snoc (b : String) : committedTimes b (es ++ [event]) =
    committedTimes b es ++ (event.committedAt b).toList := by
  rw [committedTimes, List.filterMap_append]
  cases h : event.committedAt b <;> simp [committedTimes, h]

/-- A counter was created in its window. -/
def Dated (rate : String → Rate) (quotas : Table Quota.key) : Prop :=
  ∀ q ∈ quotas, q.createdAt / (rate q.bucket).length = q.window

/-- The counters of the windows that a request can still fall into are exact. -/
structure Exact (rate : String → Rate) (lag : Duration) (es : List Event) (w : World) : Prop where
  dated : Dated rate w.quotas
  counts : ∀ b window, w.clock - lag < (window + 1) * (rate b).length →
    count w.quotas b window = used (rate b).length (committedTimes b es) window
  limited : ∀ b, Limited (rate b).length (rate b).limit (committedTimes b es)

/-- The windows last, and are no longer than retention waits. -/
def CountersKept (rate : String → Rate) (lag : Duration) : Prop :=
  ∀ b, 0 < (rate b).length ∧ (rate b).length + lag ≤ receiptAge

theorem kept_rates : CountersKept rates (minutes 60) := by
  intro b
  unfold rates
  split
  · decide
  split
  · decide
  split <;> decide

theorem current (hrate : CountersKept rate lag) {now : Instant} (hnow : w.clock - lag ≤ now)
    (b : String) :
    w.clock - lag < (now / (rate b).length + 1) * (rate b).length :=
  hnow.trans_lt (Int.lt_ediv_add_one_mul_self now (hrate b).1)

theorem dated_quota {bucket : String} {now : Instant} {quotas : Table Quota.key}
    (hd : Dated rate w.quotas) (h : w.quota rate bucket now = .ok quotas) : Dated rate quotas := by
  obtain ⟨-, rfl⟩ := quota_ok h
  intro q hq
  rcases Table.mem_put.mp hq with rfl | ⟨hq, -⟩
  · dsimp only
    unfold record
    cases hg : w.quotas.get (bucket, now / (rate bucket).length) with
    | none => rfl
    | some q => exact hd q (Table.get_eq_some.mp hg).1
  · exact hd q hq

theorem Exact.quiet (h : Exact rate lag es w) {now : Instant}
    (hq : ∀ b, event.committedAt b = none) : Exact rate lag (es ++ [event]) (w.read now) := by
  have htimes : ∀ b, committedTimes b (es ++ [event]) = committedTimes b es := by
    intro b
    rw [committedTimes_snoc, hq, Option.toList_none, List.append_nil]
  refine ⟨h.dated, fun b window hw => ?_, fun b => (htimes b).symm ▸ h.limited b⟩
  rw [htimes]
  apply h.counts b window
  have hle : w.clock ≤ (w.read now).clock := le_max_left _ _
  linarith

theorem Exact.step (hrate : CountersKept rate lag) (h : Exact rate lag es w)
    (hs : Step rate lag w event w') : Exact rate lag (es ++ [event]) w' := by
  cases hs with
  | refused hnow he => exact h.quiet fun b => rfl
  | rolledBack hnow hq => exact h.quiet fun b => rfl
  | @committed bucket now quotas hnow hq =>
    have hcount := h.counts bucket _ (current hrate hnow bucket)
    have htimes : ∀ b, committedTimes b (es ++ [.request bucket now .committed]) =
        committedTimes b es ++ if bucket = b then [now] else [] := by
      intro b
      rw [committedTimes_snoc, Event.committedAt]
      split <;> rfl
    refine ⟨dated_quota h.dated hq, fun b window hw => ?_, fun b => ?_⟩
    · have hle : w.clock ≤ (w.read now).clock := le_max_left _ _
      have hw' : w.clock - lag < (window + 1) * (rate b).length := by
        change (w.read now).clock - lag < _ at hw
        linarith
      rw [htimes, count_quota hq, h.counts b window hw']
      by_cases hb : b = bucket
      · subst hb
        rw [if_pos rfl, used_snoc]
        simp only [true_and]
      · rw [if_neg (Ne.symm hb), List.append_nil, if_neg fun h => hb h.1, Nat.add_zero]
    · rw [htimes]
      by_cases hb : bucket = b
      · subst hb
        rw [if_pos rfl]
        exact limited_snoc (h.limited _) (hcount ▸ (quota_ok hq).1)
      · rw [if_neg hb, List.append_nil]
        exact h.limited b
  | @retain now hnow =>
    have hquiet : Exact rate lag (es ++ [.retain now]) (w.read now) := h.quiet fun b => rfl
    refine ⟨fun q hq => h.dated q (Table.mem_filter.mp hq).1, fun b window hw => ?_, hquiet.limited⟩
    rw [← hquiet.counts b window hw]
    unfold count
    rw [Table.get_filter]
    cases hg : w.quotas.get (b, window) with
    | none => simp [World.read, hg]
    | some q =>
      obtain ⟨hq, hk⟩ := Table.get_eq_some.mp hg
      obtain ⟨rfl, rfl⟩ := Prod.mk.inj hk
      have hstart : q.window * (rate q.bucket).length ≤ q.createdAt := by
        rw [← h.dated q hq]
        exact Int.ediv_mul_le _ (hrate q.bucket).1.ne'
      have hage := (hrate q.bucket).2
      have hclock : now ≤ (w.read now).clock := le_max_right _ _
      have hnot : ¬ q.createdAt < now - receiptAge := by
        change (w.read now).clock - lag < _ at hw
        rw [add_mul, one_mul] at hw
        linarith
      rw [Option.filter_some, if_pos (by simpa using hnot), World.read, hg]

theorem Exact.start : Exact rate lag [] { clock := t₀ } := by
  refine ⟨fun q hq => absurd hq Table.not_mem_empty, fun b window _ => ?_, fun b => limited_nil⟩
  rw [committedTimes_nil, used_nil]
  rfl

theorem run_exact (hrate : CountersKept rate lag) (h : Run (Step rate lag) { clock := t₀ } es w) :
    Exact rate lag es w :=
  h.invariant Exact.start fun _ _ _ _ hi hs => hi.step hrate hs

/-- A request is refused exactly when the requests committed before it have used up its window, so
no stretch of the length of a window admits more than twice the limit. -/
theorem quotas_exact (hrate : CountersKept rate lag) (h : Run (Step rate lag) { clock := t₀ } es w)
    (bucket : String) :
    (∀ as now outcome bs, es = as ++ .request bucket now outcome :: bs →
      (outcome = .refused ↔ (rate bucket).limit ≤
        used (rate bucket).length (committedTimes bucket as) (now / (rate bucket).length))) ∧
    ∀ start, (committedTimes bucket es).countP
      (fun t => start ≤ t ∧ t < start + (rate bucket).length) ≤ 2 * (rate bucket).limit := by
  constructor
  · intro as now outcome bs he
    subst he
    obtain ⟨v, v', hv, hs⟩ := h.step_at
    have hcount : ∀ hnow : v.clock - lag ≤ now, _ := fun hnow =>
      (run_exact hrate hv).counts bucket _ (current hrate hnow bucket)
    cases hs with
    | refused hnow he =>
      rw [← hcount hnow]
      exact iff_of_true rfl (quota_error he)
    | rolledBack hnow hq =>
      rw [← hcount hnow]
      exact iff_of_false Outcome.noConfusion (quota_ok hq).1.not_ge
    | committed hnow hq =>
      rw [← hcount hnow]
      exact iff_of_false Outcome.noConfusion (quota_ok hq).1.not_ge
  · intro start
    exact countP_stretch_le (hrate bucket).1 ((run_exact hrate h).limited bucket) start

end

def World.follow (w : World) (event : Event) : Option World :=
  match event with
  | .request bucket now outcome =>
    if w.clock - minutes 60 ≤ now then
      match w.quota rates bucket now, outcome with
      | .error _, .refused => some (w.read now)
      | .ok _, .rolledBack => some (w.read now)
      | .ok quotas, .committed => some { w.read now with quotas }
      | _, _ => none
    else none
  | .retain now =>
    if w.clock - minutes 60 ≤ now then
      some { w.read now with
        quotas := w.quotas.filter fun q => !decide (q.createdAt < now - receiptAge) }
    else none

theorem step_follow {w w' : World} {event : Event} (h : w.follow event = some w') :
    Step rates (minutes 60) w event w' := by
  unfold World.follow at h
  split at h
  · split at h
    · rename_i hnow
      split at h
      · rename_i hq
        obtain rfl := Option.some.inj h
        exact .refused hnow hq
      · rename_i hq
        obtain rfl := Option.some.inj h
        exact .rolledBack hnow hq
      · rename_i hq
        obtain rfl := Option.some.inj h
        exact .committed hnow hq
      · cases h
    · cases h
  · split at h
    · rename_i hnow
      obtain rfl := Option.some.inj h
      exact .retain hnow
    · cases h

/-- Twenty claims of one minute, one of which is taken back and made again. -/
def claims : List Event :=
  List.replicate 19 (.request "pairing" (seconds 1) .committed) ++
    [.request "pairing" (seconds 2) .rolledBack, .request "pairing" (seconds 3) .committed]

/-- Another bucket reads the clock of the next minute before a late claim is refused. -/
def lateClaim : List Event :=
  claims ++ [.request "pairing" (seconds 4) .refused,
    .request "plugin:4" (seconds 70) .committed]

/-- Three days later the counters are deleted. -/
def threeDays : List Event :=
  lateClaim ++ [.request "pairing" (seconds 59) .refused,
    .request "pairing" (seconds 61) .committed, .retain (minutes 4320)]

def busy : List Event := threeDays ++ [.request "pairing" (minutes 4320) .committed]

theorem run_busy : ∃ w, Run (Step rates (minutes 60)) { clock := 0 } busy w := by
  have hsome : (busy.foldlM World.follow { clock := 0 }).isSome = true := by decide +kernel
  obtain ⟨w, hw⟩ := Option.isSome_iff_exists.mp hsome
  exact ⟨w, Run.of_foldlM (fun _ _ _ => step_follow) hw⟩

/-- The late claim meets a minute that is used up, although the clock has left it; the counters
that are deleted were no longer needed. -/
theorem quotas_exact_busy :
    20 ≤ used (seconds 60) (committedTimes "pairing" lateClaim) 0 ∧
    ¬ 20 ≤ used (seconds 60) (committedTimes "pairing" (claims.take 19)) 0 ∧
    ¬ 20 ≤ used (seconds 60) (committedTimes "pairing" threeDays) 4320 ∧
    ∀ start, (committedTimes "pairing" busy).countP
      (fun t => start ≤ t ∧ t < start + seconds 60) ≤ 40 := by
  obtain ⟨w, hrun⟩ := run_busy
  obtain ⟨hexact, hbound⟩ := quotas_exact kept_rates hrun "pairing"
  refine ⟨?_, ?_, ?_, hbound⟩
  · exact (hexact lateClaim (seconds 59) .refused _ (List.append_assoc lateClaim _ _)).mp rfl
  · have hback := hexact (claims.take 19) (seconds 2) .rolledBack (busy.drop 20) rfl
    exact fun hused => Outcome.noConfusion (hback.mpr hused)
  · have hlast := hexact threeDays (minutes 4320) .committed [] rfl
    exact fun hused => Outcome.noConfusion (hlast.mpr hused)

end LedgerGuard.Quotas
