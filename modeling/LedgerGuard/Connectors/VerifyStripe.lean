import LedgerGuard.Core.DateRange
import LedgerGuard.Core.Fixtures
import LedgerGuard.Ingestion.JsonLoads
import LedgerGuard.Lib.Binary64
import LedgerGuard.Lib.Raising

/-! # The signature of a webhook

`verify_stripe` reads a time and signatures from a header that anybody can send.
Every exception that the code expects becomes one refusal. The clock and the time
of the header are compared as floats, and the signatures one by one, until one
matches or raises.

A string is the list of its code points, where surrogates can stand alone.
-/

namespace LedgerGuard.Connectors.VerifyStripe

open Binary64 Raising

inductive PyError
  | valueError (message : String)
  | typeError
  | overflowError
  | problem (code : String) (status : ℕ)
  deriving DecidableEq, Repr

/-- `part.split("=", 1)`, where there is something to split. -/
def splitField (part : List ℕ) : Option (List ℕ × List ℕ) :=
  if 61 ∈ part then some (part.takeWhile (· ≠ 61), (part.dropWhile (· ≠ 61)).tail) else none

/-- The zeros of the decimal digits of Unicode; the other nine follow. -/
def digitZeros : List ℕ :=
  [0x30, 0x660, 0x6F0, 0x7C0, 0x966, 0x9E6, 0xA66, 0xAE6, 0xB66, 0xBE6, 0xC66, 0xCE6, 0xD66, 0xDE6,
    0xE50, 0xED0, 0xF20, 0x1040, 0x1090, 0x17E0, 0x1810, 0x1946, 0x19D0, 0x1A80, 0x1A90, 0x1B50,
    0x1BB0, 0x1C40, 0x1C50, 0xA620, 0xA8D0, 0xA900, 0xA9D0, 0xA9F0, 0xAA50, 0xABF0, 0xFF10, 0x104A0,
    0x10D30, 0x11066, 0x110F0, 0x11136, 0x111D0, 0x112F0, 0x11450, 0x114D0, 0x11650, 0x116C0,
    0x11730, 0x118E0, 0x11950, 0x11C50, 0x11D50, 0x11DA0, 0x11F50, 0x16A60, 0x16AC0, 0x16B50,
    0x1D7CE, 0x1D7D8, 0x1D7E2, 0x1D7EC, 0x1D7F6, 0x1E140, 0x1E2F0, 0x1E4F0, 0x1E950, 0x1FBF0]

def decimalValue (c : ℕ) : Option ℕ :=
  (digitZeros.find? fun z => z ≤ c && c < z + 10).map (c - ·)

/-- The characters that `int` skips on both sides. -/
def isIntSpace (c : ℕ) : Bool :=
  c ∈ [0x20, 0x85, 0xA0, 0x1680, 0x2028, 0x2029, 0x202F, 0x205F, 0x3000]
    || (0x09 ≤ c && c ≤ 0x0D) || (0x2000 ≤ c && c ≤ 0x200A)

def groupedDigits : List ℕ → Option (List ℕ)
  | [] => none
  | c :: s =>
    match decimalValue c with
    | none => none
    | some d =>
      match s with
      | [] => some [d]
      | u :: s =>
        if u = 95 then (groupedDigits s).map (d :: ·) else (groupedDigits (u :: s)).map (d :: ·)

/-- `int`, without its sign. -/
def parseMagnitude (s : List ℕ) : Option ℕ :=
  match groupedDigits s with
  | none => none
  | some digits =>
    if Ingestion.Loads.maxStrDigits < digits.length then none
    else some (digits.foldl (fun n d => n * 10 + d) 0)

/-- `int`. -/
def parseInt (s : List ℕ) : Option ℤ :=
  match ((s.dropWhile isIntSpace).reverse.dropWhile isIntSpace).reverse with
  | 43 :: s => (parseMagnitude s).map fun n => (n : ℤ)
  | 45 :: s => (parseMagnitude s).map fun n => -(n : ℤ)
  | s => (parseMagnitude s).map fun n => (n : ℤ)

/-- `str(ts).encode()`. -/
def encodeInt (ts : ℤ) : List ℕ := (toString ts).toList.map Char.toNat

/-- `str.encode`, which refuses surrogates. -/
def encodeUtf8 (s : List ℕ) : Option (List ℕ) :=
  (s.mapM fun c =>
    if 0xD800 ≤ c ∧ c ≤ 0xDFFF then none
    else if c < 0x80 then some [c]
    else if c < 0x800 then some [0xC0 + c / 0x40, 0x80 + c % 0x40]
    else if c < 0x10000 then
      some [0xE0 + c / 0x1000, 0x80 + c / 0x40 % 0x40, 0x80 + c % 0x40]
    else some [0xF0 + c / 0x40000, 0x80 + c / 0x1000 % 0x40, 0x80 + c / 0x40 % 0x40,
      0x80 + c % 0x40]).map List.flatten

/-- The least magnitude of an integer that no float can hold. -/
def floatOverflow : ℤ := 2 ^ 1024 - 2 ^ 970

/-- `now.timestamp() - ts`. -/
def clockDifference (now : Instant) (ts : ℤ) : ℚ :=
  nearest (nearest ((now : ℚ) / 10 ^ 6) - nearest ts)

/-- `abs(now.timestamp() - ts) > 300`. -/
def expired (now : Instant) (ts : ℤ) : Except PyError Bool :=
  if floatOverflow ≤ |ts| then .error .overflowError else .ok (300 < |clockDifference now ts|)

/-- `hmac.compare_digest`. -/
def compareDigest (a b : List ℕ) : Except PyError Bool :=
  if (∀ c ∈ a, c < 0x80) ∧ ∀ c ∈ b, c < 0x80 then .ok (a = b) else .error .typeError

section Views

variable (hmac : List ℕ → List ℕ → List ℕ)

/-- `any` over the pairs of a secret and a candidate, which ends at the first match. -/
def anyMatch (signed : List ℕ) : List (List ℕ × List ℕ) → Except PyError Bool
  | [] => .ok false
  | (secret, candidate) :: pairs =>
    match encodeUtf8 secret with
    | none => .error (.valueError "surrogates not allowed")
    | some key =>
      match compareDigest (hmac key signed) candidate with
      | .error e => .error e
      | .ok true => .ok true
      | .ok false => anyMatch signed pairs

def valuesOf (name : List ℕ) (fields : List (List ℕ × List ℕ)) : List (List ℕ) :=
  (fields.filter (·.1 = name)).map Prod.snd

/-- The key `t`. -/
def timeKey : List ℕ := [116]

/-- The key `v1`. -/
def signatureKey : List ℕ := [118, 49]

def readHeader (header : List ℕ) : Except PyError (ℤ × List (List ℕ)) :=
  match (header.splitOn 44).mapM splitField with
  | none => .error (.valueError "not enough values to unpack")
  | some fields =>
    match valuesOf timeKey fields with
    | [time] =>
      match parseInt time with
      | none => .error (.valueError "invalid literal for int()")
      | some ts => .ok (ts, valuesOf signatureKey fields)
    | _ => .error (.valueError "Timestamp")

def pairsOf (secrets candidates : List (List ℕ)) : List (List ℕ × List ℕ) :=
  secrets.flatMap fun secret => candidates.map (secret, ·)

/-- `str(ts).encode() + b"." + body`. -/
def signedBytes (ts : ℤ) (body : List ℕ) : List ℕ := encodeInt ts ++ 46 :: body

/-- The body of the `try`. -/
def check (body header : List ℕ) (secrets : List (List ℕ)) (now : Instant) :
    Except PyError Unit := do
  let (ts, candidates) ← readHeader header
  let late ← expired now ts
  if late then .error (.valueError "Expired")
  else do
    let valid ← anyMatch hmac (signedBytes ts body) (pairsOf secrets candidates)
    if valid then .ok () else .error (.valueError "Signature")

def invalidSignature : PyError := .problem "INVALID_SIGNATURE" 401

/-- `verify_stripe`. -/
def verifyStripe (body header : List ℕ) (secrets : List (List ℕ)) (now : Instant) :
    Except PyError Unit :=
  match check hmac body header secrets now with
  | .error (.valueError _) | .error .typeError => .error invalidSignature
  | result => result

end Views

/-- Within 300 seconds, exactly. -/
def Fresh (now ts : ℤ) : Prop := |now - ts * 10 ^ 6| ≤ 300 * 10 ^ 6

section Clock

variable {now ts : ℤ}

theorem clockDifference_of_fresh (hnow : datetimeMin ≤ now ∧ now ≤ datetimeMax)
    (h : Fresh now ts) : |clockDifference now ts| ≤ 300 := by
  have hmin : -62135596800000000 ≤ now := hnow.1
  have hmax : now ≤ 253402300799999999 := hnow.2
  obtain ⟨hlow, hhigh⟩ : -(300 * 10 ^ 6) ≤ now - ts * 10 ^ 6 ∧ now - ts * 10 ^ 6 ≤ 300 * 10 ^ 6 :=
    abs_le.mp h
  have hts : nearest ts = ts := nearest_int (by rw [abs_le]; constructor <;> omega)
  have hbelow : (now : ℚ) / 10 ^ 6 ≤ ((ts + 300 : ℤ) : ℚ) := by
    rw [div_le_iff₀ (by norm_num)]
    exact_mod_cast (by omega : now ≤ (ts + 300) * 10 ^ 6)
  have habove : ((ts - 300 : ℤ) : ℚ) ≤ (now : ℚ) / 10 ^ 6 := by
    rw [le_div_iff₀ (by norm_num)]
    exact_mod_cast (by omega : (ts - 300) * 10 ^ 6 ≤ now)
  have hle := nearest_le_int (by rw [abs_le]; constructor <;> omega) hbelow
  have hge := int_le_nearest (by rw [abs_le]; constructor <;> omega) habove
  push_cast at hle hge
  have hdown := int_le_nearest (x := nearest ((now : ℚ) / 10 ^ 6) - ts) (k := -300) (by norm_num)
    (by push_cast; linarith)
  have hup := nearest_le_int (x := nearest ((now : ℚ) / 10 ^ 6) - ts) (k := 300) (by norm_num)
    (by push_cast; linarith)
  push_cast at hdown hup
  unfold clockDifference
  rw [hts, abs_le]
  exact ⟨hdown, hup⟩

theorem nearest_abs_gt {d : ℚ} (h : 300 + 1 / 2 ^ 22 ≤ |d|) : 300 < |nearest d| := by
  rcases le_or_gt 301 |d| with hd | hd
  · rcases le_abs.mp hd with hd | hd
    · have := int_le_nearest (k := 301) (by norm_num) (by exact_mod_cast hd)
      push_cast at this
      exact lt_abs.mpr (Or.inl (by linarith))
    · have := nearest_le_int (x := d) (k := -301) (by norm_num) (by push_cast; linarith)
      push_cast at this
      exact lt_abs.mpr (Or.inr (by linarith))
  · have herror := abs_nearest_sub_le_of_lt (x := d) (n := 9) (by norm_num) (by linarith)
    have hsmall : (2 : ℚ) ^ (((9 : ℕ) : ℤ) - 54) < 1 / 2 ^ 22 := by norm_num
    have hclose := herror.trans_lt hsmall
    have htriangle := abs_sub_abs_le_abs_sub d (nearest d)
    rw [abs_sub_comm] at htriangle
    linarith

theorem lt_clockDifference (hnow : |now| < 2 ^ 33 * 10 ^ 6) (h : ¬ Fresh now ts) :
    300 < |clockDifference now ts| := by
  have h : 300 * 10 ^ 6 < now - ts * 10 ^ 6 ∨ 300 * 10 ^ 6 < -(now - ts * 10 ^ 6) :=
    lt_abs.mp (not_le.mp h)
  rw [abs_lt] at hnow
  have hclock : |(now : ℚ) / 10 ^ 6| < 2 ^ 33 := by
    rw [abs_lt, lt_div_iff₀ (by norm_num), div_lt_iff₀ (by norm_num)]
    constructor
    · exact_mod_cast (by omega : -2 ^ 33 * 10 ^ 6 < now)
    · exact_mod_cast (by omega : now < 2 ^ 33 * 10 ^ 6)
  have herror := abs_nearest_sub_le_of_lt (by norm_num) hclock
  have hbound : (2 : ℚ) ^ (((33 : ℕ) : ℤ) - 54) + 1 / 2 ^ 22 ≤ 1 / 10 ^ 6 := by norm_num
  rw [abs_le] at herror
  rw [abs_lt] at hclock
  apply nearest_abs_gt
  rcases le_or_gt |ts| (2 ^ 53) with hts | hts
  · rw [nearest_int hts]
    rcases h with h | h
    · have hlate : (ts : ℚ) + 300 + 1 / 10 ^ 6 ≤ (now : ℚ) / 10 ^ 6 := by
        have hmicro : (ts + 300) * 10 ^ 6 + 1 ≤ now := by omega
        have hcast : (((ts + 300) * 10 ^ 6 + 1 : ℤ) : ℚ) ≤ now := by exact_mod_cast hmicro
        rw [le_div_iff₀ (by norm_num)]
        push_cast at hcast
        linarith
      exact le_abs.mpr (Or.inl (by linarith))
    · have hearly : (now : ℚ) / 10 ^ 6 ≤ ts - 300 - 1 / 10 ^ 6 := by
        have hmicro : now ≤ (ts - 300) * 10 ^ 6 - 1 := by omega
        have hcast : (now : ℚ) ≤ (((ts - 300) * 10 ^ 6 - 1 : ℤ) : ℚ) := by exact_mod_cast hmicro
        rw [div_le_iff₀ (by norm_num)]
        push_cast at hcast
        linarith
      exact le_abs.mpr (Or.inr (by linarith))
  · rcases lt_abs.mp hts with hts | hts
    · have hbig : ((2 ^ 53 : ℤ) : ℚ) ≤ nearest ts :=
        int_le_nearest (by norm_num) (by exact_mod_cast hts.le)
      push_cast at hbig
      exact le_abs.mpr (Or.inr (by linarith))
    · have hbig : nearest ts ≤ ((-2 ^ 53 : ℤ) : ℚ) :=
        nearest_le_int (by norm_num) (by exact_mod_cast (by omega : ts ≤ -2 ^ 53))
      push_cast at hbig
      exact le_abs.mpr (Or.inl (by linarith))

end Clock

section Header

variable {header : List ℕ} {ts : ℤ} {candidates : List (List ℕ)} {parts : List (List ℕ)}
  {fields : List (List ℕ × List ℕ)}

def fieldsOf (header : List ℕ) : List (List ℕ × List ℕ) :=
  (header.splitOn 44).filterMap splitField

/-- Every part holds `=`, and one of them is the time. -/
structure WellFormed (header : List ℕ) (ts : ℤ) : Prop where
  parts : ∀ part ∈ header.splitOn 44, 61 ∈ part
  time : ∃ time, valuesOf timeKey (fieldsOf header) = [time] ∧ parseInt time = some ts

theorem mapM_splitField : parts.mapM splitField = some fields ↔
    (∀ part ∈ parts, 61 ∈ part) ∧ fields = parts.filterMap splitField := by
  induction parts generalizing fields with
  | nil => simp [eq_comm]
  | cons part parts ih =>
    rw [List.mapM_cons, List.forall_mem_cons]
    by_cases hp : 61 ∈ part
    · have hfield : ∃ field, splitField part = some field := by
        unfold splitField
        exact ⟨_, if_pos hp⟩
      obtain ⟨field, hfield⟩ := hfield
      rw [hfield, List.filterMap_cons_some hfield]
      cases hm : parts.mapM splitField with
      | none =>
        have hno : ¬ ∀ part ∈ parts, 61 ∈ part := by
          intro hall
          have := ih.mpr ⟨hall, rfl⟩
          rw [hm] at this
          cases this
        simp [hno]
      | some rest =>
        obtain ⟨hall, rfl⟩ := ih.mp hm
        simpa [hp, eq_comm] using fun _ => hall
    · have hfield : splitField part = none := by
        unfold splitField
        exact if_neg hp
      simp [hfield, hp]

theorem readHeader_ok : readHeader header = .ok (ts, candidates) ↔
    WellFormed header ts ∧ candidates = valuesOf signatureKey (fieldsOf header) := by
  unfold readHeader
  cases hm : (header.splitOn 44).mapM splitField with
  | none =>
    refine iff_of_false nofun ?_
    rintro ⟨⟨hparts, -⟩, -⟩
    have := mapM_splitField.mpr ⟨hparts, rfl⟩
    rw [hm] at this
    cases this
  | some fields =>
    obtain ⟨hparts, hfields⟩ := mapM_splitField.mp hm
    have hfields : fields = fieldsOf header := hfields
    subst hfields
    dsimp only
    constructor
    · intro h
      split at h
      case h_2 => cases h
      case h_1 time htime =>
        cases hts : parseInt time with
        | none => simp [hts] at h
        | some ts' =>
          simp only [hts, Except.ok.injEq, Prod.mk.injEq] at h
          obtain ⟨rfl, rfl⟩ := h
          exact ⟨⟨hparts, time, htime, hts⟩, rfl⟩
    · rintro ⟨⟨-, time, htime, hts⟩, rfl⟩
      simp [htime, hts]

theorem WellFormed.unique {ts' : ℤ} (h : WellFormed header ts) (h' : WellFormed header ts') :
    ts = ts' := by
  obtain ⟨-, time, htime, hts⟩ := h
  obtain ⟨-, time', htime', hts'⟩ := h'
  rw [htime] at htime'
  obtain rfl := List.singleton_inj.mp htime'
  exact Option.some.inj (hts.symm.trans hts')

theorem readHeader_error {e : PyError} (h : readHeader header = .error e) :
    ∃ message, e = .valueError message := by
  unfold readHeader at h
  split at h
  · exact ⟨_, (Except.error.inj h).symm⟩
  · split at h
    · split at h
      · exact ⟨_, (Except.error.inj h).symm⟩
      · cases h
    · exact ⟨_, (Except.error.inj h).symm⟩

end Header

section Comparisons

variable {hmac : List ℕ → List ℕ → List ℕ} {signed : List ℕ}
  {pair : List ℕ × List ℕ} {pairs : List (List ℕ × List ℕ)}

def Ascii (s : List ℕ) : Prop := ∀ c ∈ s, c < 0x80

/-- The secret can be encoded, and both digests are ASCII. -/
def Comparable (hmac : List ℕ → List ℕ → List ℕ) (signed : List ℕ) (pair : List ℕ × List ℕ) :
    Prop :=
  ∃ key, encodeUtf8 pair.1 = some key ∧ Ascii (hmac key signed) ∧ Ascii pair.2

def Matching (hmac : List ℕ → List ℕ → List ℕ) (signed : List ℕ) (pair : List ℕ × List ℕ) :
    Prop :=
  ∃ key, encodeUtf8 pair.1 = some key ∧ hmac key signed = pair.2

def Reached (hmac : List ℕ → List ℕ → List ℕ) (signed : List ℕ)
    (pairs : List (List ℕ × List ℕ)) : Prop :=
  ∃ before pair after, pairs = before ++ pair :: after ∧
    (∀ p ∈ before, Comparable hmac signed p) ∧ Comparable hmac signed pair ∧
    Matching hmac signed pair

theorem reached_cons : Reached hmac signed (pair :: pairs) ↔ Comparable hmac signed pair ∧
    (Matching hmac signed pair ∨ Reached hmac signed pairs) := by
  constructor
  · rintro ⟨before, p, after, hs, hbefore, hp, hm⟩
    cases before with
    | nil =>
      obtain ⟨rfl, -⟩ := List.cons.inj hs
      exact ⟨hp, Or.inl hm⟩
    | cons p' before =>
      obtain ⟨rfl, htail⟩ := List.cons.inj hs
      obtain ⟨hfirst, hbefore⟩ := List.forall_mem_cons.mp hbefore
      exact ⟨hfirst, Or.inr ⟨before, p, after, htail, hbefore, hp, hm⟩⟩
  · rintro ⟨hp, hm | ⟨before, p, after, rfl, hbefore, hp', hm⟩⟩
    · exact ⟨[], pair, pairs, rfl, List.forall_mem_nil _, hp, hm⟩
    · exact ⟨pair :: before, p, after, rfl, List.forall_mem_cons.mpr ⟨hp, hbefore⟩, hp', hm⟩

theorem compareDigest_ok {a b : List ℕ} (h : Ascii a ∧ Ascii b) :
    compareDigest a b = .ok (a = b) := if_pos h

theorem compareDigest_error {a b : List ℕ} (h : ¬ (Ascii a ∧ Ascii b)) :
    compareDigest a b = .error .typeError := if_neg h

theorem anyMatch_true : anyMatch hmac signed pairs = .ok true ↔ Reached hmac signed pairs := by
  induction pairs with
  | nil =>
    refine iff_of_false nofun ?_
    rintro ⟨before, p, after, hs, -⟩
    simp at hs
  | cons pair pairs ih =>
    obtain ⟨secret, candidate⟩ := pair
    rw [reached_cons, anyMatch]
    cases hk : encodeUtf8 secret with
    | none =>
      refine iff_of_false nofun ?_
      rintro ⟨⟨key, hkey, -⟩, -⟩
      rw [hk] at hkey
      cases hkey
    | some key =>
      dsimp only
      by_cases hascii : Ascii (hmac key signed) ∧ Ascii candidate
      · have hcomparable : Comparable hmac signed (secret, candidate) := ⟨key, hk, hascii⟩
        have hmatching : Matching hmac signed (secret, candidate) ↔ hmac key signed = candidate := by
          constructor
          · rintro ⟨key', hk', hm⟩
            obtain rfl := Option.some.inj (hk.symm.trans hk')
            exact hm
          · exact fun hm => ⟨key, hk, hm⟩
        rw [compareDigest_ok hascii, hmatching]
        by_cases hm : hmac key signed = candidate <;> simp [hm, hcomparable, ih]
      · rw [compareDigest_error hascii]
        refine iff_of_false nofun ?_
        rintro ⟨⟨key', hk', h⟩, -⟩
        obtain rfl := Option.some.inj (hk.symm.trans hk')
        exact hascii h

theorem anyMatch_error {e : PyError} (h : anyMatch hmac signed pairs = .error e) :
    (∃ message, e = .valueError message) ∨ e = .typeError := by
  induction pairs with
  | nil => cases h
  | cons pair pairs ih =>
    obtain ⟨secret, candidate⟩ := pair
    unfold anyMatch at h
    split at h
    · exact Or.inl ⟨_, (Except.error.inj h).symm⟩
    · unfold compareDigest at h
      split at h
      case h_1 e' he =>
        split at he
        · cases he
        · obtain rfl := Except.error.inj he
          exact Or.inr (Except.error.inj h).symm
      case h_2 => cases h
      case h_3 => exact ih h

end Comparisons

section Rule

variable (hmac : List ℕ → List ℕ → List ℕ) (body header : List ℕ) (secrets : List (List ℕ))
  (now : Instant)

/-- One of the signatures is the digest of the time and the body under one of the secrets. -/
def Signed (ts : ℤ) : Prop :=
  ∃ secret ∈ secrets, ∃ key, encodeUtf8 secret = some key ∧
    hmac key (signedBytes ts body) ∈ valuesOf signatureKey (fieldsOf header)

def Rule : Prop :=
  ∃ ts, WellFormed header ts ∧ Fresh now ts ∧ Signed hmac body header secrets ts

/-- `verify_stripe` returns under the rule, and otherwise refuses the signature. -/
def Decides : Prop :=
  (verifyStripe hmac body header secrets now = .ok () ↔ Rule hmac body header secrets now) ∧
    (¬ Rule hmac body header secrets now →
      verifyStripe hmac body header secrets now = .error invalidSignature)

/-- The comparisons come to a match before one of them raises. -/
def ReachesMatch (ts : ℤ) : Prop :=
  Reached hmac (signedBytes ts body) (pairsOf secrets (valuesOf signatureKey (fieldsOf header)))

/-- A float can hold the time of the header; a signature that counts is reached; and none is where
only rounding brings the time into the window. -/
structure Regular (ts : ℤ) : Prop where
  representable : |ts| < floatOverflow
  reached : Fresh now ts → Signed hmac body header secrets ts →
    ReachesMatch hmac body header secrets ts
  rounded : ¬ Fresh now ts → |clockDifference now ts| ≤ 300 →
    ¬ ReachesMatch hmac body header secrets ts

variable {hmac body header secrets now} {ts : ℤ}

theorem signed_of_reaches (h : ReachesMatch hmac body header secrets ts) :
    Signed hmac body header secrets ts := by
  obtain ⟨before, pair, after, hs, -, -, key, hkey, hmatch⟩ := h
  have hmem : pair ∈ pairsOf secrets (valuesOf signatureKey (fieldsOf header)) := by
    rw [hs]
    simp
  obtain ⟨secret, hsecret, hpair⟩ := List.mem_flatMap.mp hmem
  obtain ⟨candidate, hcandidate, rfl⟩ := List.mem_map.mp hpair
  exact ⟨secret, hsecret, key, hkey, hmatch ▸ hcandidate⟩

theorem verify_malformed (h : ∀ ts, ¬ WellFormed header ts) :
    verifyStripe hmac body header secrets now = .error invalidSignature := by
  cases hread : readHeader header with
  | ok answer => exact absurd (readHeader_ok.mp hread).1 (h answer.1)
  | error e =>
    obtain ⟨message, rfl⟩ := readHeader_error hread
    have hcheck : check hmac body header secrets now = .error (.valueError message) := by
      unfold check
      rw [hread]
      rfl
    unfold verifyStripe
    rw [hcheck]

theorem verify_overflow (h : WellFormed header ts) (hts : floatOverflow ≤ |ts|) :
    verifyStripe hmac body header secrets now = .error .overflowError := by
  have hread := readHeader_ok.mpr ⟨h, rfl⟩
  have hexpired : expired now ts = .error .overflowError := if_pos hts
  have hcheck : check hmac body header secrets now = .error .overflowError := by
    unfold check
    rw [hread]
    change (expired now ts).bind _ = _
    rw [hexpired]
    rfl
  unfold verifyStripe
  rw [hcheck]

theorem verify_cases (h : WellFormed header ts) (hts : |ts| < floatOverflow) :
    verifyStripe hmac body header secrets now = .ok () ∧ |clockDifference now ts| ≤ 300 ∧
      ReachesMatch hmac body header secrets ts ∨
    verifyStripe hmac body header secrets now = .error invalidSignature ∧
      ¬ (|clockDifference now ts| ≤ 300 ∧ ReachesMatch hmac body header secrets ts) := by
  have hread := readHeader_ok.mpr ⟨h, rfl⟩
  have hexpired : expired now ts = .ok (300 < |clockDifference now ts|) := if_neg (not_le.mpr hts)
  have hcheck : check hmac body header secrets now =
      if 300 < |clockDifference now ts| then .error (.valueError "Expired")
      else (anyMatch hmac (signedBytes ts body)
        (pairsOf secrets (valuesOf signatureKey (fieldsOf header)))).bind fun valid =>
          if valid then .ok () else .error (.valueError "Signature") := by
    unfold check
    rw [hread]
    change (expired now ts).bind _ = _
    rw [hexpired]
    simp only [Except.bind, decide_eq_true_eq]
    rfl
  unfold verifyStripe
  rw [hcheck]
  by_cases hlate : 300 < |clockDifference now ts|
  · rw [if_pos hlate]
    exact Or.inr ⟨rfl, fun hboth => absurd hlate (not_lt.mpr hboth.1)⟩
  · rw [if_neg hlate]
    have hreach := @anyMatch_true hmac (signedBytes ts body)
      (pairsOf secrets (valuesOf signatureKey (fieldsOf header)))
    cases hany : anyMatch hmac (signedBytes ts body)
        (pairsOf secrets (valuesOf signatureKey (fieldsOf header))) with
    | ok valid =>
      cases valid with
      | true => exact Or.inl ⟨rfl, not_lt.mp hlate, hreach.mp hany⟩
      | false =>
        refine Or.inr ⟨rfl, fun hboth => ?_⟩
        have hfalse := hreach.mpr hboth.2
        rw [hany] at hfalse
        cases hfalse
    | error e =>
      refine Or.inr ⟨?_, fun hboth => ?_⟩
      · rcases anyMatch_error hany with ⟨message, rfl⟩ | rfl <;> rfl
      · have hfalse := hreach.mpr hboth.2
        rw [hany] at hfalse
        cases hfalse

theorem rule_iff (h : WellFormed header ts) : Rule hmac body header secrets now ↔
    Fresh now ts ∧ Signed hmac body header secrets ts := by
  constructor
  · rintro ⟨ts', h', hrule⟩
    obtain rfl := h.unique h'
    exact hrule
  · exact fun hrule => ⟨ts, h, hrule⟩

theorem decides_wellFormed (hnow : datetimeMin ≤ now ∧ now ≤ datetimeMax)
    (h : WellFormed header ts) :
    Decides hmac body header secrets now ↔ Regular hmac body header secrets now ts := by
  unfold Decides
  rw [rule_iff h]
  rcases le_or_gt floatOverflow |ts| with hts | hts
  · rw [verify_overflow h hts]
    refine iff_of_false ?_ fun hr => absurd hr.representable (not_lt.mpr hts)
    rintro ⟨hok, herror⟩
    have hrule : Fresh now ts ∧ Signed hmac body header secrets ts := by
      by_contra hno
      exact absurd (herror hno) nofun
    exact absurd (hok.mpr hrule) nofun
  · rcases @verify_cases hmac body header secrets now ts h hts with
      ⟨hv, hin, hreach⟩ | ⟨hv, hno⟩
    · rw [hv]
      constructor
      · rintro ⟨hok, -⟩
        obtain ⟨hfresh, -⟩ := hok.mp rfl
        exact ⟨hts, fun _ _ => hreach, fun hnot => absurd hfresh hnot⟩
      · intro hr
        have hfresh : Fresh now ts := by
          by_contra hnot
          exact hr.rounded hnot hin hreach
        have hrule := And.intro hfresh (signed_of_reaches hreach)
        exact ⟨iff_of_true rfl hrule, fun hno => absurd hrule hno⟩
    · rw [hv]
      constructor
      · rintro ⟨hok, -⟩
        have hrule : ¬ (Fresh now ts ∧ Signed hmac body header secrets ts) := by
          intro h
          exact absurd (hok.mpr h) nofun
        exact ⟨hts, fun hfresh hsigned => absurd ⟨hfresh, hsigned⟩ hrule,
          fun _ hin hreach => hno ⟨hin, hreach⟩⟩
      · intro hr
        have hrule : ¬ (Fresh now ts ∧ Signed hmac body header secrets ts) := by
          rintro ⟨hfresh, hsigned⟩
          exact hno ⟨clockDifference_of_fresh hnow hfresh, hr.reached hfresh hsigned⟩
        exact ⟨iff_of_false nofun hrule, fun _ => rfl⟩

/-- `verify_stripe` decides the signature rule exactly if the time of the header, where there is
one, is regular; and until the year 2242 no time comes into the window by rounding. -/
theorem verify_stripe_decides_iff (hnow : datetimeMin ≤ now ∧ now ≤ datetimeMax) :
    (Decides hmac body header secrets now ↔
      ∀ ts, WellFormed header ts → Regular hmac body header secrets now ts) ∧
    (|now| < 2 ^ 33 * 10 ^ 6 → ∀ ts, ¬ Fresh now ts → 300 < |clockDifference now ts|) := by
  refine ⟨?_, fun hclock ts => lt_clockDifference hclock⟩
  by_cases hformed : ∃ ts, WellFormed header ts
  · obtain ⟨ts, h⟩ := hformed
    rw [decides_wellFormed hnow h]
    constructor
    · rintro hr ts' h'
      obtain rfl := h.unique h'
      exact hr
    · exact fun hr => hr ts h
  · rw [not_exists] at hformed
    refine iff_of_true ?_ fun ts h => absurd h (hformed ts)
    have hrule : ¬ Rule hmac body header secrets now := fun ⟨ts, h, _⟩ => hformed ts h
    have hverify := @verify_malformed hmac body header secrets now hformed
    unfold Decides
    rw [hverify]
    exact ⟨iff_of_false nofun hrule, fun _ => rfl⟩

end Rule

/-- The header `t=1…1,v1=00`, whose time has 400 digits. -/
def longTime : List ℕ := 116 :: 61 :: (List.replicate 400 49 ++ [44, 118, 49, 61, 48, 48])

def codePoints (s : String) : List ℕ := s.toList.map Char.toNat

def eventBody : List ℕ := codePoints "\x7b\"id\":\"evt_one\"\x7d"

/-- The digest of noon and the body under the secret `whsec_test_secret`. -/
def eventDigest : List ℕ :=
  codePoints "15e21640aa35d8dc9a668dc42a81cfbccf7df1bccbf4fcfbe91b52d0366c2507"

def eventHeader : List ℕ := codePoints "t=1788609600,v1=" ++ eventDigest

theorem verify_stripe_decides_iff_event :
    (Decides (fun _ _ => eventDigest) eventBody eventHeader [codePoints "whsec_test_secret"] noon ↔
      ∀ ts, WellFormed eventHeader ts → Regular (fun _ _ => eventDigest) eventBody eventHeader
        [codePoints "whsec_test_secret"] noon ts) ∧
    (|noon| < 2 ^ 33 * 10 ^ 6 → ∀ ts, ¬ Fresh noon ts → 300 < |clockDifference noon ts|) :=
  verify_stripe_decides_iff (by decide)

/-- A time beyond the range of a float raises an exception that nothing turns into a refusal. -/
theorem long_time_overflows : ¬ ∀ (hmac : List ℕ → List ℕ → List ℕ) (body header : List ℕ)
    (secrets : List (List ℕ)) (now : Instant), datetimeMin ≤ now ∧ now ≤ datetimeMax →
      Decides hmac body header secrets now := by
  intro h
  have hdecides := h (fun _ _ => []) [] longTime [] noon (by decide)
  have hread : ∃ ts, readHeader longTime = .ok (ts, [[48, 48]]) ∧ floatOverflow ≤ |ts| :=
    ⟨(10 ^ 400 - 1) / 9, by decide +kernel, by decide +kernel⟩
  obtain ⟨ts, hread, hts⟩ := hread
  have hformed := (readHeader_ok.mp hread).1
  have hr := (decides_wellFormed (by decide) hformed).mp hdecides
  exact absurd hr.representable (not_lt.mpr hts)

end LedgerGuard.Connectors.VerifyStripe
