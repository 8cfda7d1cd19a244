import LedgerGuard.Ingestion.JsonLoads
import LedgerGuard.Ingestion.Projections

/-! # The depth guard of a body

`parse_body` counts brackets over the bytes of a body before it reads any JSON, and
skips strings by following quotes and backslashes. The reader works on characters.
The two agree where a byte below 128 is always the character itself, as in UTF-8.
-/

namespace LedgerGuard.Ingestion.Loads

open JsonText Raising

def maxBody : ℕ := 1048576

def maxDepth : ℤ := 12

structure DepthScan where
  depth : ℤ := 0
  quoted : Bool := false
  escaped : Bool := false
  deriving DecidableEq

/-- One round of the loop over the bytes. -/
def DepthScan.step (s : DepthScan) (char : ℕ) : Except Refusal DepthScan :=
  if s.quoted then
    if s.escaped then .ok { s with escaped := false }
    else if char = 92 then .ok { s with escaped := true }
    else if char = 34 then .ok { s with quoted := false }
    else .ok s
  else if char = 34 then .ok { s with quoted := true }
  else if char = 123 ∨ char = 91 then
    if maxDepth < s.depth + 1 then .error (.problem "JSON_DEPTH_EXCEEDED" 400)
    else .ok { s with depth := s.depth + 1 }
  else if char = 125 ∨ char = 93 then .ok { s with depth := s.depth - 1 }
  else .ok s

def scan (s : DepthScan) : List ℕ → Except Refusal DepthScan
  | [] => .ok s
  | char :: chars =>
    match s.step char with
    | .error e => .error e
    | .ok s => scan s chars

def depthGuard (chars : List ℕ) : Except Refusal Unit :=
  match scan {} chars with
  | .error e => .error e
  | .ok _ => .ok ()

/-- `_unique_object`. -/
def uniqueObject (pairs : List (List ℕ × Value)) :
    Except LoadsError (List (List ℕ × Value)) :=
  pairs.foldlM (fun output pair =>
    if pair.1 ∈ output.map Prod.fst then .error (.valueError "Duplicate JSON member")
    else .ok (output ++ [pair])) []

def refuseConstant (_ : List ℕ) : Except LoadsError Value :=
  .error (.valueError "Nonfinite number")

def octets (body : List UInt8) : List ℕ := body.map UInt8.toNat

/-- `parse_body`. -/
def parseBody (recursionLimit : ℕ) (body : List UInt8) : Except Refusal Value :=
  if maxBody < body.length then .error (.problem "PAYLOAD_TOO_LARGE" 413)
  else
    match depthGuard (octets body) with
    | .error e => .error e
    | .ok () =>
      match loads uniqueObject refuseConstant recursionLimit (octets body) with
      | .error _ => .error (.problem "INVALID_JSON" 400)
      | .ok value => if value.isObject then .ok value else .error (.problem "INVALID_JSON" 400)

section Characters

variable {s rest w : List ℕ} {d : ℤ} {p : JsonText.Part} {ps : List Piece} {c : ℕ} {v : Value}
  {text : List ℕ}

def outside (d : ℤ) : DepthScan := ⟨d, false, false⟩

def inside (d : ℤ) : DepthScan := ⟨d, true, false⟩

theorem step_plain (h : Plain c) : (outside d).step c = .ok (outside d) := by
  obtain ⟨h₁, h₂, h₃, h₄, h₅⟩ := h
  simp [DepthScan.step, outside, h₁, h₂, h₃, h₄, h₅]

theorem scan_plain (h : ∀ c ∈ w, Plain c) : scan (outside d) (w ++ rest) = scan (outside d) rest := by
  induction w with
  | nil => rfl
  | cons c w ih =>
    rw [List.cons_append, scan, step_plain (h c List.mem_cons_self)]
    exact ih fun c hc => h c (List.mem_cons_of_mem _ hc)

theorem scan_blank (h : Blank s rest) : scan (outside d) s = scan (outside d) rest := by
  obtain ⟨w, rfl, hw⟩ := h
  exact scan_plain fun c hc => plain_blank (hw c hc)

theorem scan_quote : scan (outside d) (34 :: s) = scan (inside d) s := rfl

theorem hexDigit_ne {c n : ℕ} (h : JsonText.hexDigit c = some n) : c ≠ 34 ∧ c ≠ 92 := by
  unfold JsonText.hexDigit JsonText.isDigit at h
  constructor <;> rintro rfl <;> simp at h

theorem scan_inside (hq : c ≠ 34) (hb : c ≠ 92) : scan (inside d) (c :: s) = scan (inside d) s := by
  simp [scan, DepthScan.step, inside, hq, hb]

theorem scan_quoted (h : Quoted ps s rest) : scan (inside d) s = scan (outside d) rest := by
  induction h with
  | close => rfl
  | char _ hq hb _ ih => rw [scan_inside hq hb, ih]
  | escape _ _ ih => exact ih
  | unit hu _ ih =>
    obtain ⟨a', ha, hu⟩ := Option.bind_eq_some_iff.mp hu
    obtain ⟨b', hb, hu⟩ := Option.bind_eq_some_iff.mp hu
    obtain ⟨c', hc, hu⟩ := Option.bind_eq_some_iff.mp hu
    obtain ⟨d', hd, -⟩ := Option.bind_eq_some_iff.mp hu
    have hescape : ∀ s, scan (inside d) (92 :: 117 :: s) = scan (inside d) s := fun _ => rfl
    rw [hescape, scan_inside (hexDigit_ne ha).1 (hexDigit_ne ha).2,
      scan_inside (hexDigit_ne hb).1 (hexDigit_ne hb).2,
      scan_inside (hexDigit_ne hc).1 (hexDigit_ne hc).2,
      scan_inside (hexDigit_ne hd).1 (hexDigit_ne hd).2, ih]

/-- The depth behind a part: the elements and members end with a closing bracket. -/
def behind (d : ℤ) : JsonText.Part → ℤ
  | .value _ => d
  | _ => d - 1

theorem scan_open (hc : c = 91 ∨ c = 123) : scan (outside d) (c :: s) =
    if d + 1 ≤ maxDepth then scan (outside (d + 1)) s
    else .error (.problem "JSON_DEPTH_EXCEEDED" 400) := by
  by_cases h : d + 1 ≤ maxDepth
  · rcases hc with rfl | rfl <;> simp [scan, DepthScan.step, outside, not_lt.mpr h, h]
  · rcases hc with rfl | rfl <;> simp [scan, DepthScan.step, outside, not_le.mp h, h]

theorem scan_close (hc : c = 93 ∨ c = 125) :
    scan (outside d) (c :: s) = scan (outside (d - 1)) s := by
  rcases hc with rfl | rfl <;> rfl

theorem scan_separator (hc : c = 44 ∨ c = 58) : scan (outside d) (c :: s) = scan (outside d) s := by
  rcases hc with rfl | rfl <;> rfl

def tooDeep : Except Refusal DepthScan := .error (.problem "JSON_DEPTH_EXCEEDED" 400)

theorem ite_max {m n : ℕ} {x : Except Refusal DepthScan} :
    (if d + m ≤ maxDepth then if d + n ≤ maxDepth then x else tooDeep else tooDeep) =
      if d + (max m n : ℕ) ≤ maxDepth then x else tooDeep := by
  by_cases hm : d + m ≤ maxDepth
  · by_cases hn : d + n ≤ maxDepth
    · rw [if_pos hm, if_pos hn, if_pos (by omega)]
    · rw [if_pos hm, if_neg hn, if_neg (by omega)]
  · rw [if_neg hm, if_neg (by omega)]

theorem ite_succ {n : ℕ} {x : Except Refusal DepthScan} :
    (if d + 1 ≤ maxDepth then if d + 1 + n ≤ maxDepth then x else tooDeep else tooDeep) =
      if d + (n + 1 : ℕ) ≤ maxDepth then x else tooDeep := by
  by_cases h : d + 1 ≤ maxDepth
  · by_cases hn : d + 1 + n ≤ maxDepth
    · rw [if_pos h, if_pos hn, if_pos (by push_cast; omega)]
    · rw [if_pos h, if_neg hn, if_neg (by push_cast; omega)]
  · rw [if_neg h, if_neg (by push_cast; omega)]

theorem scan_derives (h : Derives p s rest) (hd : d ≤ maxDepth) : scan (outside d) s =
    if d + p.depth ≤ maxDepth then scan (outside (behind d p)) rest else tooDeep := by
  induction h generalizing d with
  | literal h =>
    have hdepth := depth_literal h
    rw [scan_plain (plain_literal h)]
    simp [JsonText.Part.depth, behind, hdepth, hd]
  | number h =>
    rw [scan_plain (plain_numeral h)]
    simp [JsonText.Part.depth, JsonText.depth, behind, hd]
  | str h =>
    rw [scan_quote, scan_quoted h]
    simp [JsonText.Part.depth, JsonText.depth, behind, hd]
  | emptyArr h =>
    rw [scan_open (Or.inl rfl), scan_blank h, scan_close (Or.inl rfl), add_sub_cancel_right]
    simp [JsonText.Part.depth, JsonText.depth, depthElements, behind, tooDeep]
  | emptyObj h =>
    rw [scan_open (Or.inr rfl), scan_blank h, scan_close (Or.inr rfl), add_sub_cancel_right]
    simp [JsonText.Part.depth, JsonText.depth, depthMembers, behind, tooDeep]
  | arr h ih =>
    rw [scan_open (Or.inl rfl)]
    refine Eq.trans ?_ ite_succ
    split
    case isTrue h' =>
      rw [ih h']
      simp [JsonText.Part.depth, behind]
    case isFalse => rfl
  | obj h ih =>
    rw [scan_open (Or.inr rfl)]
    refine Eq.trans ?_ ite_succ
    split
    case isTrue h' =>
      rw [ih h']
      simp [JsonText.Part.depth, behind]
    case isFalse => rfl
  | @lastElement v s s₁ s₂ rest h₁ hv h₂ ih =>
    have hdepth : (JsonText.Part.elements [v]).depth = JsonText.depth v := Nat.max_zero _
    rw [scan_blank h₁, ih hd, hdepth]
    simp only [behind, scan_blank h₂, scan_close (Or.inl rfl)]
    rfl
  | moreElements h₁ hv h₂ hs ihv ihs =>
    rw [scan_blank h₁, ihv hd]
    simp only [behind, scan_blank h₂, scan_separator (Or.inl rfl), ihs hd]
    exact ite_max
  | @lastMember k v s s₁ s₂ s₃ s₄ s₅ rest h₁ hk h₂ h₃ hv h₄ ih =>
    have hdepth : (JsonText.Part.members [(join k, v)]).depth = JsonText.depth v := Nat.max_zero _
    rw [scan_blank h₁, scan_quote, scan_quoted hk, scan_blank h₂, scan_separator (Or.inr rfl),
      scan_blank h₃, ih hd, hdepth]
    simp only [behind, scan_blank h₄, scan_close (Or.inr rfl)]
    rfl
  | moreMembers h₁ hk h₂ h₃ hv h₄ hs ihv ihs =>
    rw [scan_blank h₁, scan_quote, scan_quoted hk, scan_blank h₂, scan_separator (Or.inr rfl),
      scan_blank h₃, ihv hd]
    simp only [behind, scan_blank h₄, scan_separator (Or.inl rfl), ihs hd]
    exact ite_max

theorem guard_document (h : Document v text) :
    depthGuard text = .ok () ↔ JsonText.depth v ≤ 12 := by
  obtain ⟨s, rest, hs, hd, hrest⟩ := h
  have hscan : scan {} text = if (0 : ℤ) + JsonText.depth v ≤ maxDepth then .ok {} else tooDeep := by
    have hstart : scan {} text = scan (outside 0) s := scan_blank hs
    rw [hstart, scan_derives hd (by decide)]
    simp only [behind, scan_blank hrest]
    rfl
  unfold depthGuard
  rw [hscan]
  by_cases hle : JsonText.depth v ≤ 12
  · rw [if_pos (by unfold maxDepth; omega)]
    exact iff_of_true rfl hle
  · rw [if_neg (by unfold maxDepth; omega)]
    exact iff_of_false nofun hle

end Characters

section Bytes

variable {b text : List ℕ} {s : DepthScan} {c : ℕ}

def DepthScan.calm (s : DepthScan) : DepthScan := { s with escaped := !s.quoted && s.escaped }

theorem calm_calm : s.calm.calm = s.calm := by
  simp [DepthScan.calm]

theorem step_high (h : 0x80 ≤ c) : s.step c = .ok s.calm := by
  obtain ⟨d, quoted, escaped⟩ := s
  have h₁ : c ≠ 92 := by omega
  have h₂ : c ≠ 34 := by omega
  have h₃ : ¬ (c = 123 ∨ c = 91) := by omega
  have h₄ : ¬ (c = 125 ∨ c = 93) := by omega
  cases quoted <;> cases escaped <;> simp [DepthScan.step, DepthScan.calm, h₁, h₂, h₃, h₄]

theorem scan_high (h : 0x80 ≤ c) : scan s (c :: b) = scan s.calm b := by
  rw [scan, step_high h]

theorem isTail_high (h : isTail c = true) : 0x80 ≤ c := by
  simp only [isTail, Bool.and_eq_true, decide_eq_true_eq] at h
  exact h.1

theorem scan_decodeUtf8 (h : decodeUtf8 b = some text) : scan s b = scan s text := by
  fun_induction decodeUtf8 b generalizing s text with
  | case1 =>
    obtain rfl := Option.some.inj h
    rfl
  | case2 a b ha ih =>
    obtain ⟨tail, htail, rfl⟩ := Option.map_eq_some_iff.mp h
    unfold scan
    split
    · rfl
    · exact ih htail
  | case3 | case5 | case7 | case9 => cases h
  | case4 a ha b rest h₂ ih =>
    obtain ⟨tail, htail, rfl⟩ := Option.map_eq_some_iff.mp h
    obtain ⟨hlow, hhigh, hb⟩ := h₂
    have hb := isTail_high hb
    rw [scan_high (by omega), scan_high hb, calm_calm, scan_high (by omega)]
    exact ih htail
  | case6 a ha b _ c rest h₃ ih =>
    obtain ⟨tail, htail, rfl⟩ := Option.map_eq_some_iff.mp h
    obtain ⟨hlow, hhigh, hb, hc, hleast⟩ := h₃
    have hb := isTail_high hb
    have hc := isTail_high hc
    have hcode : 0x80 ≤ ((a - 0xE0) * 0x40 + (b - 0x80)) * 0x40 + (c - 0x80) := by
      by_cases he : a = 0xE0
      · have := hleast he
        omega
      · omega
    rw [scan_high (by omega), scan_high hb, scan_high hc, calm_calm, calm_calm, scan_high hcode]
    exact ih htail
  | case8 a ha b _ c _ d rest h₄ ih =>
    obtain ⟨tail, htail, rfl⟩ := Option.map_eq_some_iff.mp h
    obtain ⟨hlow, hhigh, hb, hc, hd, hleast, -⟩ := h₄
    have hb := isTail_high hb
    have hc := isTail_high hc
    have hd := isTail_high hd
    have hcode : 0x80 ≤ (((a - 0xF0) * 0x40 + (b - 0x80)) * 0x40 + (c - 0x80)) * 0x40 +
        (d - 0x80) := by
      by_cases he : a = 0xF0
      · have := hleast he
        omega
      · omega
    rw [scan_high (by omega), scan_high hb, scan_high hc, scan_high hd, calm_calm, calm_calm,
      calm_calm, scan_high hcode]
    exact ih htail

/-- A body in UTF-8, with or without a byte order mark. -/
def Utf8Text (b text : List ℕ) : Prop :=
  decodeUtf8 b = some text ∨ ∃ rest, b = 0xEF :: 0xBB :: 0xBF :: rest ∧ decodeUtf8 rest = some text

theorem guard_utf8 (h : Utf8Text b text) : depthGuard b = depthGuard text := by
  have hscan : scan {} b = scan {} text := by
    rcases h with h | ⟨rest, rfl, h⟩
    · exact scan_decodeUtf8 h
    · have hbom : scan {} (0xEF :: 0xBB :: 0xBF :: rest) = scan {} rest := rfl
      rw [hbom, scan_decodeUtf8 h]
  unfold depthGuard
  rw [hscan]

theorem utf8Sig_bom (h : detectEncoding b = .utf8Sig) :
    ∃ rest, b = 0xEF :: 0xBB :: 0xBF :: rest := by
  unfold detectEncoding at h
  split at h
  · cases h
  · split at h
    · cases h
    · split at h
      case isTrue hbom => exact ⟨b.drop 3, isPrefixOf_split hbom⟩
      case isFalse =>
        repeat' split at h
        all_goals cases h

theorem utf8Text_of_encoding (h : decodeBody b = some text)
    (hb : detectEncoding b = .utf8 ∨ detectEncoding b = .utf8Sig) : Utf8Text b text := by
  unfold decodeBody at h
  rcases hb with hb | hb
  · rw [hb] at h
    exact Or.inl h
  · rw [hb] at h
    obtain ⟨rest, rfl⟩ := utf8Sig_bom hb
    exact Or.inr ⟨rest, rfl, h⟩

end Bytes

section Admitted

variable {pairs out acc : List (List ℕ × Value)} {limit : ℕ} {body : List UInt8} {v : Value}

theorem uniqueObject_from (h : pairs.foldlM (fun output pair =>
      if pair.1 ∈ output.map Prod.fst then
        (.error (.valueError "Duplicate JSON member") : Except LoadsError _)
      else .ok (output ++ [pair])) acc = .ok out) (hacc : (acc.map Prod.fst).Nodup) :
    out = acc ++ pairs ∧ (out.map Prod.fst).Nodup := by
  induction pairs generalizing acc with
  | nil =>
    obtain rfl := Except.ok.inj h
    exact ⟨(List.append_nil acc).symm, hacc⟩
  | cons pair pairs ih =>
    rw [List.foldlM_cons] at h
    obtain ⟨acc', hstep, h⟩ := bind_eq_ok.mp h
    split at hstep
    · cases hstep
    case isFalse hnew =>
      obtain rfl := Except.ok.inj hstep
      have hdisjoint : List.Disjoint (acc.map Prod.fst) [pair.1] :=
        List.disjoint_singleton.mpr hnew
      obtain ⟨rfl, hnodup⟩ := ih h (by
        rw [List.map_append]
        exact hacc.append (List.nodup_singleton _) hdisjoint)
      exact ⟨by simp, hnodup⟩

theorem uniqueObject_ok (h : uniqueObject pairs = .ok out) :
    out = pairs ∧ (pairs.map Prod.fst).Nodup := by
  obtain ⟨rfl, hnodup⟩ := uniqueObject_from h List.nodup_nil
  exact ⟨rfl, hnodup⟩

/-- The text of the body is one object, nested at most 12 deep, in which no object repeats a name
and there is no `NaN` or `Infinity`. -/
structure Admissible (body : List UInt8) (v : Value) : Prop where
  document : ∃ text, decodeBody (octets body) = some text ∧ Document v text
  isObject : v.isObject = true
  depth : JsonText.depth v ≤ 12
  namesOnce : Every Value.NamesOnce v
  finite : Every Value.Finite v

theorem parseBody_ok (h : parseBody limit body = .ok v) :
    depthGuard (octets body) = .ok () ∧ v.isObject = true ∧
    ∃ text, decodeBody (octets body) = some text ∧ Document v text ∧
      Every (fun v => v.NamesOnce ∧ v.Finite) v := by
  unfold parseBody at h
  split at h
  · cases h
  · split at h
    · cases h
    case h_2 hguard =>
      split at h
      · cases h
      case h_2 value hloads =>
        split at h
        case isFalse => cases h
        case isTrue hobject =>
          obtain rfl := Except.ok.inj h
          refine ⟨hguard, hobject, loads_sound (fun _ _ hc => by cases hc) ?_ ?_ ?_ hloads⟩
          · intro v hv
            cases v with
            | arr | obj | constant => cases hv
            | _ => exact ⟨trivial, trivial⟩
          · exact fun vs => ⟨trivial, trivial⟩
          · intro ms ms' hhook
            obtain ⟨rfl, hnodup⟩ := uniqueObject_ok hhook
            exact ⟨rfl, hnodup, trivial⟩

theorem admissible_iff (h : parseBody limit body = .ok v) : Admissible body v ↔
    ∃ text, decodeBody (octets body) = some text ∧ depthGuard text = .ok () := by
  obtain ⟨-, hobject, text, htext, hdocument, hevery⟩ := parseBody_ok h
  constructor
  · rintro ⟨-, -, hdepth, -, -⟩
    exact ⟨text, htext, (guard_document hdocument).mpr hdepth⟩
  · rintro ⟨text', htext', hguard⟩
    obtain rfl := Option.some.inj (htext.symm.trans htext')
    exact ⟨⟨text, htext, hdocument⟩, hobject, (guard_document hdocument).mp hguard,
      every_mono (fun _ => And.left) v hevery, every_mono (fun _ => And.right) v hevery⟩

theorem admissible_utf8 (h : parseBody limit body = .ok v)
    (hb : detectEncoding (octets body) = .utf8 ∨ detectEncoding (octets body) = .utf8Sig) :
    Admissible body v := by
  obtain ⟨hguard, -, text, htext, -, -⟩ := parseBody_ok h
  rw [guard_utf8 (utf8Text_of_encoding htext hb)] at hguard
  exact (admissible_iff h).mpr ⟨text, htext, hguard⟩

/-- An accepted body is admissible exactly if its characters pass the guard, so always if it is in
UTF-8; and the guard lets every text in UTF-8 pass that is nested at most 12 deep. -/
theorem parse_body_admits_iff (limit : ℕ) :
    (∀ body v, parseBody limit body = .ok v → (Admissible body v ↔
      ∃ text, decodeBody (octets body) = some text ∧ depthGuard text = .ok ())) ∧
    (∀ body v, parseBody limit body = .ok v →
      detectEncoding (octets body) = .utf8 ∨ detectEncoding (octets body) = .utf8Sig →
      Admissible body v) ∧
    ∀ body text v, Utf8Text (octets body) text → Document v text → depth v ≤ 12 →
      depthGuard (octets body) = .ok () := by
  refine ⟨fun _ _ => admissible_iff, fun _ _ => admissible_utf8, ?_⟩
  intro body text v hbody hdocument hdepth
  rw [guard_utf8 hbody]
  exact (guard_document hdocument).mpr hdepth

/-- `{"é":[{"a":1},"]\""],"b":null}` in UTF-8. -/
def nested : List UInt8 :=
  [0x7B, 0x22, 0xC3, 0xA9, 0x22, 0x3A, 0x5B, 0x7B, 0x22, 0x61, 0x22, 0x3A, 0x31, 0x7D, 0x2C, 0x22,
    0x5D, 0x5C, 0x22, 0x22, 0x5D, 0x2C, 0x22, 0x62, 0x22, 0x3A, 0x6E, 0x75, 0x6C, 0x6C, 0x7D]

def nestedValue : Value :=
  .obj [([0xE9], .arr [.obj [([0x61], .number [0x31])], .str [0x5D, 0x22]]), ([0x62], .null)]

theorem parse_body_admits_iff_nested : Admissible nested nestedValue ∧ depth nestedValue = 3 ∧
    (∃ text, decodeBody (octets nested) = some text ∧ depthGuard text = .ok ()) ∧
    depthGuard (octets nested) = .ok () := by
  obtain ⟨hiff, hutf8, hguard⟩ := parse_body_admits_iff 1000
  have hok : parseBody 1000 nested = .ok nestedValue := rfl
  have hadmissible := hutf8 nested nestedValue hok (Or.inl rfl)
  obtain ⟨text, htext, hdocument⟩ := hadmissible.document
  have htext' := utf8Text_of_encoding htext (Or.inl rfl)
  exact ⟨hadmissible, by decide, (hiff nested nestedValue hok).mp hadmissible,
    hguard nested text nestedValue htext' hdocument hadmissible.depth⟩

/-- In UTF-16 the character `∀` of a member name holds the byte of a quote, so the guard takes the
thirteen brackets behind the name for a string. -/
def misread : List UInt8 :=
  [0x7B, 0, 0x22, 0, 0x00, 0x22, 0x22, 0, 0x3A, 0] ++
    (List.replicate 12 [0x5B, 0]).flatten ++ [0x30, 0] ++ (List.replicate 12 [0x5D, 0]).flatten ++
    [0x7D, 0]

theorem utf16_too_deep :
    ¬ ∀ limit body v, parseBody limit body = .ok v → Admissible body v := by
  intro h
  have hok : (parseBody 1000 misread).toOption.map depth = some 13 := by decide +kernel
  cases hv : parseBody 1000 misread with
  | error e =>
    rw [hv] at hok
    cases hok
  | ok v =>
    rw [hv] at hok
    have hdepth := (h _ _ _ hv).depth
    rw [Option.some.inj hok] at hdepth
    omega

end Admitted

end LedgerGuard.Ingestion.Loads
