import LedgerGuard.Lib.JsonText
import LedgerGuard.Lib.Raising
import Mathlib.Data.List.TakeWhile

/-! # Reading JSON from bytes

`json.loads` guesses the encoding from the first bytes, decodes the body, and reads
one value from the characters. The two hooks see every object and every constant
such as `NaN`. Bytes and characters are numbers.
-/

namespace LedgerGuard.Ingestion.Loads

open JsonText Raising

inductive Encoding
  | utf8 | utf8Sig
  /-- With a byte order mark. -/
  | utf16 | utf32
  | utf16be | utf16le | utf32be | utf32le
  deriving DecidableEq, Repr

/-- `json.detect_encoding`. -/
def detectEncoding (b : List ℕ) : Encoding :=
  if [0x00, 0x00, 0xFE, 0xFF].isPrefixOf b || [0xFF, 0xFE, 0x00, 0x00].isPrefixOf b then .utf32
  else if [0xFE, 0xFF].isPrefixOf b || [0xFF, 0xFE].isPrefixOf b then .utf16
  else if [0xEF, 0xBB, 0xBF].isPrefixOf b then .utf8Sig
  else
    match b with
    | b₀ :: b₁ :: b₂ :: b₃ :: _ =>
      if b₀ = 0 then if b₁ ≠ 0 then .utf16be else .utf32be
      else if b₁ = 0 then if b₂ ≠ 0 ∨ b₃ ≠ 0 then .utf16le else .utf32le
      else .utf8
    | [b₀, b₁] => if b₀ = 0 then .utf16be else if b₁ = 0 then .utf16le else .utf8
    | _ => .utf8

def isTail (b : ℕ) : Bool := 0x80 ≤ b && b ≤ 0xBF

/-- Surrogates pass, as every other three bytes that are not overlong. -/
def decodeUtf8 : List ℕ → Option (List ℕ)
  | [] => some []
  | a :: s =>
    if a < 0x80 then (decodeUtf8 s).map (a :: ·)
    else
      match s with
      | [] => none
      | b :: s =>
        if 0xC2 ≤ a ∧ a ≤ 0xDF ∧ isTail b then
          (decodeUtf8 s).map (((a - 0xC0) * 0x40 + (b - 0x80)) :: ·)
        else
          match s with
          | [] => none
          | c :: s =>
            if 0xE0 ≤ a ∧ a ≤ 0xEF ∧ isTail b ∧ isTail c ∧ (a = 0xE0 → 0xA0 ≤ b) then
              (decodeUtf8 s).map ((((a - 0xE0) * 0x40 + (b - 0x80)) * 0x40 + (c - 0x80)) :: ·)
            else
              match s with
              | [] => none
              | d :: s =>
                if 0xF0 ≤ a ∧ a ≤ 0xF4 ∧ isTail b ∧ isTail c ∧ isTail d ∧
                    (a = 0xF0 → 0x90 ≤ b) ∧ (a = 0xF4 → b ≤ 0x8F) then
                  (decodeUtf8 s).map (((((a - 0xF0) * 0x40 + (b - 0x80)) * 0x40 + (c - 0x80)) * 0x40 +
                    (d - 0x80)) :: ·)
                else none

def codeUnits (big : Bool) : List ℕ → Option (List ℕ)
  | [] => some []
  | a :: b :: s => (codeUnits big s).map ((if big then a * 0x100 + b else b * 0x100 + a) :: ·)
  | [_] => none

/-- Two surrogates that make a pair are one character; others pass. -/
def pairSurrogates : List ℕ → List ℕ
  | h :: l :: us =>
    if isHigh h && isLow l then (0x10000 + (h - 0xD800) * 0x400 + (l - 0xDC00)) :: pairSurrogates us
    else h :: pairSurrogates (l :: us)
  | us => us

def decodeUtf16 (big : Bool) (b : List ℕ) : Option (List ℕ) := (codeUnits big b).map pairSurrogates

def decodeUtf32 (big : Bool) : List ℕ → Option (List ℕ)
  | [] => some []
  | a :: b :: c :: d :: s =>
    let u := if big then ((a * 0x100 + b) * 0x100 + c) * 0x100 + d
      else ((d * 0x100 + c) * 0x100 + b) * 0x100 + a
    if u ≤ 0x10FFFF then (decodeUtf32 big s).map (u :: ·) else none
  | _ => none

/-- `bytes.decode` under the detected encoding. -/
def decodeBody (b : List ℕ) : Option (List ℕ) :=
  match detectEncoding b with
  | .utf8 => decodeUtf8 b
  | .utf8Sig => decodeUtf8 (b.drop 3)
  | .utf16 => decodeUtf16 (b.head? = some 0xFE) (b.drop 2)
  | .utf16be => decodeUtf16 true b
  | .utf16le => decodeUtf16 false b
  | .utf32 => decodeUtf32 (b.head? = some 0x00) (b.drop 4)
  | .utf32be => decodeUtf32 true b
  | .utf32le => decodeUtf32 false b

inductive LoadsError
  | unicodeError
  | jsonDecodeError
  | valueError (message : String)
  | recursionError
  deriving DecidableEq, Repr

def skipBlank (s : List ℕ) : List ℕ := s.dropWhile JsonText.isBlank

/-- `scanstring`, behind the opening quote. -/
def scanString : List ℕ → Option (List Piece × List ℕ)
  | [] => none
  | c :: s =>
    if c = 34 then some ([], s)
    else if c = 92 then
      match s with
      | [] => none
      | e :: s =>
        if e = 117 then
          match s with
          | a :: b :: c :: d :: s => do
            let u ← hex4 a b c d
            let (ps, s) ← scanString s
            return (.unit u :: ps, s)
          | _ => none
        else do
          let e ← JsonText.unescape e
          let (ps, s) ← scanString s
          return (.char e :: ps, s)
    else if c < 32 then none
    else do
      let (ps, s) ← scanString s
      return (.char c :: ps, s)

def signPart : List ℕ → List ℕ × List ℕ
  | c :: s => if c = 45 then ([45], s) else ([], c :: s)
  | [] => ([], [])

def wholePart : List ℕ → Option (List ℕ × List ℕ)
  | c :: s =>
    if c = 48 then some ([48], s)
    else if 49 ≤ c ∧ c ≤ 57 then some (c :: s.takeWhile JsonText.isDigit, s.dropWhile JsonText.isDigit)
    else none
  | [] => none

def fractionPart : List ℕ → List ℕ × List ℕ
  | c :: s =>
    if c = 46 ∧ s.takeWhile JsonText.isDigit ≠ [] then
      (46 :: s.takeWhile JsonText.isDigit, s.dropWhile JsonText.isDigit)
    else ([], c :: s)
  | [] => ([], [])

def exponentSign : List ℕ → List ℕ × List ℕ
  | c :: s => if c = 43 ∨ c = 45 then ([c], s) else ([], c :: s)
  | [] => ([], [])

def exponentPart : List ℕ → List ℕ × List ℕ
  | c :: s =>
    if (c = 101 ∨ c = 69) ∧ (exponentSign s).2.takeWhile JsonText.isDigit ≠ [] then
      (c :: ((exponentSign s).1 ++ (exponentSign s).2.takeWhile JsonText.isDigit),
        (exponentSign s).2.dropWhile JsonText.isDigit)
    else ([], c :: s)
  | [] => ([], [])

/-- `_match_number`: the literal, whether it is an integer, and the rest. -/
def matchNumber (s : List ℕ) : Option (List ℕ × Bool × List ℕ) :=
  match wholePart (signPart s).2 with
  | none => none
  | some (whole, rest) =>
    let fraction := fractionPart rest
    let exponent := exponentPart fraction.2
    some ((signPart s).1 ++ whole ++ fraction.1 ++ exponent.1, fraction.1 = [] ∧ exponent.1 = [],
      exponent.2)

/-- `sys.int_info.default_max_str_digits`. -/
def maxStrDigits : ℕ := 4300

section Hooks

variable (objectPairsHook : List (List ℕ × Value) → Except LoadsError (List (List ℕ × Value)))
  (parseConstant : List ℕ → Except LoadsError Value)

def scanScalar (s : List ℕ) : Except LoadsError (Value × List ℕ) :=
  match literals.find? (·.1.isPrefixOf s) with
  | some (name, .constant c) => do
    let v ← parseConstant c
    return (v, s.drop name.length)
  | some (name, v) => .ok (v, s.drop name.length)
  | none =>
    match s with
    | [] => .error .jsonDecodeError
    | c :: rest =>
      if c = 34 then
        match scanString rest with
        | some (ps, rest) => .ok (.str (join ps), rest)
        | none => .error .jsonDecodeError
      else
        match matchNumber s with
        | some (literal, integer, rest) =>
          if integer ∧ maxStrDigits < literal.countP JsonText.isDigit then
            .error (.valueError "Exceeds the limit for integer string conversion")
          else .ok (.number literal, rest)
        | none => .error .jsonDecodeError

/-- The elements of an array and its closing bracket. A round reads a character at least, so the
length of the text is enough rounds. -/
def elements (value : List ℕ → Except LoadsError (Value × List ℕ)) :
    ℕ → List ℕ → Except LoadsError (List Value × List ℕ)
  | 0, _ => .error .jsonDecodeError
  | n + 1, s => do
    let (v, s) ← value (skipBlank s)
    match skipBlank s with
    | [] => .error .jsonDecodeError
    | c :: s =>
      if c = 93 then return ([v], s)
      else if c = 44 then do
        let (vs, s) ← elements value n s
        return (v :: vs, s)
      else .error .jsonDecodeError

/-- `JSONArray`, behind the opening bracket. -/
def jsonArray (value : List ℕ → Except LoadsError (Value × List ℕ)) (s : List ℕ) :
    Except LoadsError (Value × List ℕ) :=
  match skipBlank s with
  | [] => .error .jsonDecodeError
  | c :: rest =>
    if c = 93 then .ok (.arr [], rest)
    else do
      let (vs, rest) ← elements value s.length s
      return (.arr vs, rest)

def memberName (s : List ℕ) : Except LoadsError (List ℕ × List ℕ) :=
  match skipBlank s with
  | [] => .error .jsonDecodeError
  | c :: s =>
    if c = 34 then
      match scanString s with
      | none => .error .jsonDecodeError
      | some (ps, s) =>
        match skipBlank s with
        | [] => .error .jsonDecodeError
        | c :: s => if c = 58 then .ok (join ps, s) else .error .jsonDecodeError
    else .error .jsonDecodeError

def members (value : List ℕ → Except LoadsError (Value × List ℕ)) :
    ℕ → List ℕ → Except LoadsError (List (List ℕ × Value) × List ℕ)
  | 0, _ => .error .jsonDecodeError
  | n + 1, s => do
    let (key, s) ← memberName s
    let (v, s) ← value (skipBlank s)
    match skipBlank s with
    | [] => .error .jsonDecodeError
    | c :: s =>
      if c = 125 then return ([(key, v)], s)
      else if c = 44 then do
        let (ms, s) ← members value n s
        return ((key, v) :: ms, s)
      else .error .jsonDecodeError

/-- `JSONObject`, behind the opening bracket. -/
def jsonObject (value : List ℕ → Except LoadsError (Value × List ℕ)) (s : List ℕ) :
    Except LoadsError (Value × List ℕ) :=
  match skipBlank s with
  | [] => .error .jsonDecodeError
  | c :: rest =>
    if c = 125 then do
      let ms ← objectPairsHook []
      return (.obj ms, rest)
    else do
      let (ms, rest) ← members value s.length s
      let ms ← objectPairsHook ms
      return (.obj ms, rest)

/-- `scan_once`, which may call itself for an array or an object up to a limit. -/
def scanOnce : ℕ → List ℕ → Except LoadsError (Value × List ℕ)
  | 0, s =>
    match s with
    | [] => .error .jsonDecodeError
    | c :: _ => if c = 123 ∨ c = 91 then .error .recursionError else scanScalar parseConstant s
  | limit + 1, s =>
    match s with
    | [] => .error .jsonDecodeError
    | c :: rest =>
      if c = 123 then jsonObject objectPairsHook (scanOnce limit) rest
      else if c = 91 then jsonArray (scanOnce limit) rest
      else scanScalar parseConstant s

/-- `json.loads`: one value, and only whitespace around it. -/
def loads (recursionLimit : ℕ) (body : List ℕ) : Except LoadsError Value :=
  match decodeBody body with
  | none => .error .unicodeError
  | some text => do
    let (v, rest) ← scanOnce objectPairsHook parseConstant recursionLimit (skipBlank text)
    match skipBlank rest with
    | [] => .ok v
    | _ :: _ => .error .jsonDecodeError

end Hooks

section Sound

theorem blank_skipBlank (s : List ℕ) : Blank s (skipBlank s) :=
  ⟨s.takeWhile JsonText.isBlank, List.takeWhile_append_dropWhile.symm,
    fun _ hc => List.mem_takeWhile_imp hc⟩

theorem scanString_sound {s rest : List ℕ} {ps : List Piece}
    (h : scanString s = some (ps, rest)) : Quoted ps s rest := by
  fun_induction scanString s generalizing ps with
  | case1 | case3 | case5 | case7 => cases h
  | case2 =>
    obtain ⟨rfl, rfl⟩ := Prod.mk.inj (Option.some.inj h)
    exact .close
  | case4 a b c d s _ ih =>
    obtain ⟨u, hu, h⟩ := Option.bind_eq_some_iff.mp h
    obtain ⟨⟨ps', s'⟩, hs, h⟩ := Option.bind_eq_some_iff.mp h
    obtain ⟨rfl, rfl⟩ := Prod.mk.inj (Option.some.inj h)
    exact .unit hu (ih hs)
  | case6 e s _ _ ih =>
    obtain ⟨e', he, h⟩ := Option.bind_eq_some_iff.mp h
    obtain ⟨⟨ps', s'⟩, hs, h⟩ := Option.bind_eq_some_iff.mp h
    obtain ⟨rfl, rfl⟩ := Prod.mk.inj (Option.some.inj h)
    exact .escape he (ih hs)
  | case8 c s hquote hbackslash hprintable ih =>
    obtain ⟨⟨ps', s'⟩, hs, h⟩ := Option.bind_eq_some_iff.mp h
    obtain ⟨rfl, rfl⟩ := Prod.mk.inj (Option.some.inj h)
    exact .char (not_lt.mp hprintable) hquote hbackslash (ih hs)

theorem signPart_sound (s : List ℕ) :
    s = (signPart s).1 ++ (signPart s).2 ∧ (signPart s).1 ∈ [[], [45]] := by
  unfold signPart
  split
  · split <;> simp_all
  · simp

theorem takeWhile_digits {s : List ℕ} :
    ∀ c ∈ s.takeWhile JsonText.isDigit, JsonText.isDigit c = true :=
  fun _ => List.mem_takeWhile_imp

theorem wholePart_sound {s whole rest : List ℕ} (h : wholePart s = some (whole, rest)) :
    s = whole ++ rest ∧ Whole whole := by
  unfold wholePart at h
  split at h
  case h_1 c s =>
    split at h
    case isTrue hc =>
      obtain ⟨rfl, rfl⟩ := Prod.mk.inj (Option.some.inj h)
      exact ⟨by rw [hc]; rfl, Or.inl ⟨rfl, rfl⟩⟩
    case isFalse =>
      split at h
      case isTrue hc =>
        obtain ⟨rfl, rfl⟩ := Prod.mk.inj (Option.some.inj h)
        refine ⟨?_, Or.inr ⟨hc.1, hc.2, takeWhile_digits⟩⟩
        rw [List.cons_append, List.takeWhile_append_dropWhile]
      case isFalse => cases h
  case h_2 => cases h

theorem fractionPart_sound (s : List ℕ) :
    s = (fractionPart s).1 ++ (fractionPart s).2 ∧ Fraction (fractionPart s).1 := by
  unfold fractionPart
  split
  case h_1 c s =>
    split
    case isTrue hc =>
      refine ⟨?_, rfl, hc.2, takeWhile_digits⟩
      rw [List.cons_append, List.takeWhile_append_dropWhile, hc.1]
    case isFalse => exact ⟨rfl, trivial⟩
  case h_2 => exact ⟨rfl, trivial⟩

theorem exponentSign_sound (s : List ℕ) :
    s = (exponentSign s).1 ++ (exponentSign s).2 ∧ (exponentSign s).1 ∈ [[], [43], [45]] := by
  unfold exponentSign
  split
  case h_1 c s =>
    split
    case isTrue hc => rcases hc with rfl | rfl <;> simp
    case isFalse => simp
  case h_2 => simp

theorem exponentPart_sound (s : List ℕ) :
    s = (exponentPart s).1 ++ (exponentPart s).2 ∧ Exponent (exponentPart s).1 := by
  unfold exponentPart
  split
  case h_1 c s =>
    split
    case isTrue hc =>
      obtain ⟨hs, hsign⟩ := exponentSign_sound s
      refine ⟨?_, hc.1, _, _, rfl, hsign, hc.2, takeWhile_digits⟩
      rw [List.cons_append, List.append_assoc, List.takeWhile_append_dropWhile, ← hs]
    case isFalse => exact ⟨rfl, trivial⟩
  case h_2 => exact ⟨rfl, trivial⟩

theorem matchNumber_sound {s literal rest : List ℕ} {integer : Bool}
    (h : matchNumber s = some (literal, integer, rest)) : s = literal ++ rest ∧ Numeral literal := by
  unfold matchNumber at h
  split at h
  · cases h
  case h_2 whole s' hw =>
    obtain ⟨hliteral, hrest⟩ := Prod.mk.inj (Option.some.inj h)
    obtain ⟨-, hrest⟩ := Prod.mk.inj hrest
    subst hliteral hrest
    obtain ⟨hs, hsign⟩ := signPart_sound s
    obtain ⟨hwhole, hW⟩ := wholePart_sound hw
    obtain ⟨hfraction, hF⟩ := fractionPart_sound s'
    obtain ⟨hexponent, hE⟩ := exponentPart_sound (fractionPart s').2
    refine ⟨?_, .mk hsign hW hF hE⟩
    rw [List.append_assoc, ← hexponent, List.append_assoc, ← hfraction, List.append_assoc,
      ← hwhole]
    exact hs

variable {objectPairsHook : List (List ℕ × Value) → Except LoadsError (List (List ℕ × Value))}
  {parseConstant : List ℕ → Except LoadsError Value} {s rest : List ℕ} {v : Value}
  {value : List ℕ → Except LoadsError (Value × List ℕ)} {P : Value → Prop}

/-- A value and what is left of the text, where every value inside it has a property. -/
structure Read (P : Value → Prop) (s : List ℕ) (v : Value) (rest : List ℕ) : Prop where
  derives : Derives (.value v) s rest
  every : Every P v

theorem isPrefixOf_split {name s : List ℕ} (h : name.isPrefixOf s = true) :
    s = name ++ s.drop name.length := by
  obtain ⟨t, rfl⟩ := List.isPrefixOf_iff_prefix.mp h
  rw [List.drop_left]

theorem scanScalar_sound (hconstant : ∀ name v, parseConstant name ≠ .ok v)
    (hscalar : ∀ v : Value, v.isScalar = true → P v)
    (h : scanScalar parseConstant s = .ok (v, rest)) : Read P s v rest := by
  unfold scanScalar at h
  split at h
  · obtain ⟨v', hv, -⟩ := bind_eq_ok.mp h
    exact absurd hv (hconstant _ _)
  case h_2 name v' hne hfind =>
    obtain ⟨rfl, rfl⟩ := Prod.mk.inj (Except.ok.inj h)
    have hmem := List.mem_of_find?_eq_some hfind
    have hprefix : s = name ++ s.drop name.length :=
      isPrefixOf_split (List.find?_some (p := fun x : List ℕ × Value => x.1.isPrefixOf s) hfind)
    have hs : v'.isScalar = true := by
      rcases literal_cases hmem with hs | ⟨c, rfl⟩
      · exact hs
      · exact (hne c rfl).elim
    refine ⟨?_, every_scalar hs (hscalar v' hs)⟩
    have hd : Derives (.value v') (name ++ s.drop name.length) (s.drop name.length) :=
      .literal hmem
    rwa [← hprefix] at hd
  case h_3 =>
    split at h
    · cases h
    case h_2 c s =>
      split at h
      case isTrue hc =>
        split at h
        case h_1 ps rest' hps =>
          obtain ⟨rfl, rfl⟩ := Prod.mk.inj (Except.ok.inj h)
          rw [hc]
          exact ⟨.str (scanString_sound hps), every_scalar rfl (hscalar _ rfl)⟩
        case h_2 => cases h
      case isFalse =>
        split at h
        case h_1 literal integer rest' hnumber =>
          split at h
          · cases h
          · obtain ⟨rfl, rfl⟩ := Prod.mk.inj (Except.ok.inj h)
            obtain ⟨hs, hnumeral⟩ := matchNumber_sound hnumber
            rw [hs]
            exact ⟨.number hnumeral, every_scalar rfl (hscalar _ rfl)⟩
        case h_2 => cases h

theorem elements_sound {vs : List Value} {n : ℕ}
    (hv : ∀ s v rest, value s = .ok (v, rest) → Read P s v rest)
    (h : elements value n s = .ok (vs, rest)) :
    Derives (.elements vs) s rest ∧ EveryElement P vs := by
  induction n generalizing s vs rest with
  | zero => cases h
  | succ n ih =>
    obtain ⟨⟨v, s₂⟩, hfirst, h⟩ := bind_eq_ok.mp h
    obtain ⟨hd, hp⟩ := hv _ _ _ hfirst
    dsimp only at h
    have hblank := blank_skipBlank s₂
    split at h
    · cases h
    case h_2 c s₃ hs₃ =>
      rw [hs₃] at hblank
      split at h
      case isTrue hc =>
        obtain ⟨rfl, rfl⟩ := Prod.mk.inj (Except.ok.inj h)
        rw [hc] at hblank
        exact ⟨.lastElement (blank_skipBlank s) hd hblank, hp, trivial⟩
      case isFalse =>
        split at h
        case isTrue hc =>
          obtain ⟨⟨vs', s₄⟩, hrest, h⟩ := bind_eq_ok.mp h
          obtain ⟨rfl, rfl⟩ := Prod.mk.inj (Except.ok.inj h)
          obtain ⟨hds, hps⟩ := ih hrest
          rw [hc] at hblank
          exact ⟨.moreElements (blank_skipBlank s) hd hblank hds, hp, hps⟩
        case isFalse => cases h

theorem memberName_sound {key : List ℕ} (h : memberName s = .ok (key, rest)) :
    ∃ ps s₁ s₂, key = join ps ∧ Blank s (34 :: s₁) ∧ Quoted ps s₁ s₂ ∧ Blank s₂ (58 :: rest) := by
  unfold memberName at h
  have hblank := blank_skipBlank s
  split at h
  · cases h
  case h_2 c s₁ hs₁ =>
    rw [hs₁] at hblank
    split at h
    case isFalse => cases h
    case isTrue hc =>
      rw [hc] at hblank
      split at h
      · cases h
      case h_2 ps s₂ hps =>
        have hcolon := blank_skipBlank s₂
        split at h
        · cases h
        case h_2 c' s₃ hs₃ =>
          rw [hs₃] at hcolon
          split at h
          case isFalse => cases h
          case isTrue hc' =>
            obtain ⟨rfl, rfl⟩ := Prod.mk.inj (Except.ok.inj h)
            rw [hc'] at hcolon
            exact ⟨ps, s₁, s₂, rfl, hblank, scanString_sound hps, hcolon⟩

theorem members_sound {ms : List (List ℕ × Value)} {n : ℕ}
    (hv : ∀ s v rest, value s = .ok (v, rest) → Read P s v rest)
    (h : members value n s = .ok (ms, rest)) :
    Derives (.members ms) s rest ∧ EveryMember P ms := by
  induction n generalizing s ms rest with
  | zero => cases h
  | succ n ih =>
    obtain ⟨⟨key, s₁⟩, hname, h⟩ := bind_eq_ok.mp h
    obtain ⟨ps, t₁, t₂, rfl, hquote, hkey, hcolon⟩ := memberName_sound hname
    obtain ⟨⟨v, s₂⟩, hfirst, h⟩ := bind_eq_ok.mp h
    obtain ⟨hd, hp⟩ := hv _ _ _ hfirst
    dsimp only at h
    have hblank := blank_skipBlank s₂
    split at h
    · cases h
    case h_2 c s₃ hs₃ =>
      rw [hs₃] at hblank
      split at h
      case isTrue hc =>
        obtain ⟨rfl, rfl⟩ := Prod.mk.inj (Except.ok.inj h)
        rw [hc] at hblank
        exact ⟨.lastMember hquote hkey hcolon (blank_skipBlank s₁) hd hblank, hp, trivial⟩
      case isFalse =>
        split at h
        case isTrue hc =>
          obtain ⟨⟨ms', s₄⟩, hrest, h⟩ := bind_eq_ok.mp h
          obtain ⟨rfl, rfl⟩ := Prod.mk.inj (Except.ok.inj h)
          obtain ⟨hds, hps⟩ := ih hrest
          rw [hc] at hblank
          exact ⟨.moreMembers hquote hkey hcolon (blank_skipBlank s₁) hd hblank hds, hp, hps⟩
        case isFalse => cases h

theorem jsonArray_sound (hv : ∀ s v rest, value s = .ok (v, rest) → Read P s v rest)
    (harr : ∀ vs, P (.arr vs)) (h : jsonArray value s = .ok (v, rest)) :
    Read P (91 :: s) v rest := by
  unfold jsonArray at h
  have hblank := blank_skipBlank s
  split at h
  · cases h
  case h_2 c s₁ hs₁ =>
    rw [hs₁] at hblank
    split at h
    case isTrue hc =>
      obtain ⟨rfl, rfl⟩ := Prod.mk.inj (Except.ok.inj h)
      rw [hc] at hblank
      exact ⟨.emptyArr hblank, harr [], trivial⟩
    case isFalse =>
      obtain ⟨⟨vs, s₂⟩, helements, h⟩ := bind_eq_ok.mp h
      obtain ⟨rfl, rfl⟩ := Prod.mk.inj (Except.ok.inj h)
      obtain ⟨hd, hp⟩ := elements_sound hv helements
      exact ⟨.arr hd, harr vs, hp⟩

theorem jsonObject_sound (hv : ∀ s v rest, value s = .ok (v, rest) → Read P s v rest)
    (hobj : ∀ ms ms', objectPairsHook ms = .ok ms' → ms' = ms ∧ P (.obj ms))
    (h : jsonObject objectPairsHook value s = .ok (v, rest)) : Read P (123 :: s) v rest := by
  unfold jsonObject at h
  have hblank := blank_skipBlank s
  split at h
  · cases h
  case h_2 c s₁ hs₁ =>
    rw [hs₁] at hblank
    split at h
    case isTrue hc =>
      obtain ⟨ms, hhook, h⟩ := bind_eq_ok.mp h
      obtain ⟨rfl, rfl⟩ := Prod.mk.inj (Except.ok.inj h)
      obtain ⟨rfl, hp⟩ := hobj _ _ hhook
      rw [hc] at hblank
      exact ⟨.emptyObj hblank, hp, trivial⟩
    case isFalse =>
      obtain ⟨⟨ms, s₂⟩, hmembers, h⟩ := bind_eq_ok.mp h
      obtain ⟨ms', hhook, h⟩ := bind_eq_ok.mp h
      obtain ⟨rfl, rfl⟩ := Prod.mk.inj (Except.ok.inj h)
      obtain ⟨rfl, hp⟩ := hobj _ _ hhook
      obtain ⟨hd, hps⟩ := members_sound hv hmembers
      exact ⟨.obj hd, hp, hps⟩

section Hooked

variable (hconstant : ∀ name v, parseConstant name ≠ .ok v)
  (hscalar : ∀ v : Value, v.isScalar = true → P v) (harr : ∀ vs, P (.arr vs))
  (hobj : ∀ ms ms', objectPairsHook ms = .ok ms' → ms' = ms ∧ P (.obj ms))

include hconstant hscalar harr hobj

/-- With hooks that refuse constants and only check objects, what `scan_once` returns stands in the
text, and every object and scalar in it has passed its check. -/
theorem scanOnce_sound {limit : ℕ}
    (h : scanOnce objectPairsHook parseConstant limit s = .ok (v, rest)) : Read P s v rest := by
  induction limit generalizing s v rest with
  | zero =>
    unfold scanOnce at h
    split at h
    · cases h
    · split at h
      · cases h
      · exact scanScalar_sound hconstant hscalar h
  | succ limit ih =>
    unfold scanOnce at h
    split at h
    · cases h
    case h_2 c s' =>
      split at h
      case isTrue hc =>
        rw [hc]
        exact jsonObject_sound (fun s v rest => ih) hobj h
      case isFalse =>
        split at h
        case isTrue hc =>
          rw [hc]
          exact jsonArray_sound (fun s v rest => ih) harr h
        case isFalse => exact scanScalar_sound hconstant hscalar h

theorem loads_sound {limit : ℕ} {body : List ℕ}
    (h : loads objectPairsHook parseConstant limit body = .ok v) :
    ∃ text, decodeBody body = some text ∧ Document v text ∧ Every P v := by
  unfold loads at h
  split at h
  · cases h
  case h_2 text htext =>
    obtain ⟨⟨v', rest⟩, hscan, h⟩ := bind_eq_ok.mp h
    dsimp only at h
    split at h
    case h_2 => cases h
    case h_1 hend =>
      obtain rfl := Except.ok.inj h
      obtain ⟨hd, hp⟩ := scanOnce_sound hconstant hscalar harr hobj hscan
      have hrest := blank_skipBlank rest
      rw [hend] at hrest
      exact ⟨text, htext, ⟨_, _, blank_skipBlank text, hd, hrest⟩, hp⟩

end Hooked

end Sound

end LedgerGuard.Ingestion.Loads
