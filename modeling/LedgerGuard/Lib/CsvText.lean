import Mathlib.Data.List.Basic

/-! # Comma separated values

The text that a writer with minimal quoting makes of some records, and the
state machine of a reader that goes through a text line by line. The reader
gives back the records of the writer, whatever characters are in their fields,
as long as no field is longer than the reader's limit.
-/

namespace CsvText

def special (c : Char) : Bool := c = ',' || c = '"' || c = '\r' || c = '\n'

def doubled (field : List Char) : List Char :=
  field.flatMap fun c => if c = '"' then ['"', '"'] else [c]

def quoted (field : List Char) : List Char := '"' :: (doubled field ++ ['"'])

def writeField (field : List Char) : List Char :=
  if field.any special then quoted field else field

def writeFields : List (List Char) → List Char
  | [] => []
  | [field] => writeField field
  | field :: fields => writeField field ++ ',' :: writeFields fields

/-- A record of one empty field is told from a record without fields. -/
def writeRecord (fields : List (List Char)) : List Char :=
  (if fields = [[]] then quoted [] else writeFields fields) ++ ['\r', '\n']

def write (records : List (List (List Char))) : List Char := records.flatMap writeRecord

inductive Mode
  | startRecord | startField | inField | inQuotedField | quoteInQuotedField | eatCrnl
  deriving DecidableEq

structure Reader where
  mode : Mode := .startRecord
  field : List Char := []
  fields : List (List Char) := []
  deriving DecidableEq

inductive Error
  | fieldLimit | newlineInUnquotedField
  deriving DecidableEq

/-- The characters of a text with a mark behind every line. A line ends with a newline, with a
carriage return and a newline, or with a carriage return. -/
def marked : List Char → List (Option Char)
  | [] => []
  | [c] => [some c, none]
  | c :: d :: text =>
    if c = '\n' ∨ (c = '\r' ∧ d ≠ '\n') then some c :: none :: marked (d :: text)
    else some c :: marked (d :: text)

namespace Reader

variable (limit : ℕ)

def addChar (r : Reader) (c : Char) (mode : Mode) : Except Error Reader :=
  if limit ≤ r.field.length then .error .fieldLimit
  else .ok { r with field := r.field ++ [c], mode }

def saveField (r : Reader) (mode : Mode) : Reader :=
  { mode, field := [], fields := r.fields ++ [r.field] }

/-- A line ends here, by a character or by the mark behind it. -/
def endOfLine (r : Reader) (c : Option Char) : Reader :=
  r.saveField (if c = none then .startRecord else .eatCrnl)

def startField (r : Reader) : Option Char → Except Error Reader
  | none => .ok (r.endOfLine none)
  | some c =>
    if c = '\n' ∨ c = '\r' then .ok (r.endOfLine (some c))
    else if c = '"' then .ok { r with mode := .inQuotedField }
    else if c = ',' then .ok (r.saveField .startField)
    else r.addChar limit c .inField

def step (r : Reader) (c : Option Char) : Except Error Reader :=
  match r.mode, c with
  | .startRecord, none => .ok r
  | .startRecord, some c =>
    if c = '\n' ∨ c = '\r' then .ok { r with mode := .eatCrnl } else r.startField limit (some c)
  | .startField, c => r.startField limit c
  | .inField, none => .ok (r.endOfLine none)
  | .inField, some c =>
    if c = '\n' ∨ c = '\r' then .ok (r.endOfLine (some c))
    else if c = ',' then .ok (r.saveField .startField)
    else r.addChar limit c .inField
  | .inQuotedField, none => .ok r
  | .inQuotedField, some c =>
    if c = '"' then .ok { r with mode := .quoteInQuotedField } else r.addChar limit c .inQuotedField
  | .quoteInQuotedField, none => .ok (r.endOfLine none)
  | .quoteInQuotedField, some c =>
    if c = '"' then r.addChar limit c .inQuotedField
    else if c = ',' then .ok (r.saveField .startField)
    else if c = '\n' ∨ c = '\r' then .ok (r.endOfLine (some c))
    else r.addChar limit c .inField
  | .eatCrnl, none => .ok { r with mode := .startRecord }
  | .eatCrnl, some c =>
    if c = '\n' ∨ c = '\r' then .ok r else .error .newlineInUnquotedField

def emit (fields : List (List Char)) (rest : List (List (List Char)) × Option Error) :
    List (List (List Char)) × Option Error := (fields :: rest.1, rest.2)

/-- The records that a reader returns one after another, and the error that ends them. A record that
is open at the end of the text is returned if there is something in its last field. -/
def records : List (Option Char) → Reader → List (List (List Char)) × Option Error
  | [], r =>
    (if r.field ≠ [] ∨ r.mode = .inQuotedField then [r.fields ++ [r.field]] else [], none)
  | c :: text, r =>
    match r.step limit c with
    | .error error => ([], some error)
    | .ok r =>
      if c = none ∧ r.mode = .startRecord then emit r.fields (records text {}) else records text r

end Reader

def read (limit : ℕ) (text : List Char) : List (List (List Char)) × Option Error :=
  Reader.records limit (marked text) {}

variable {limit : ℕ} {text : List Char} {fs : List (List Char)} {acc field : List Char} {c : Char}

theorem marked_cons (h : c ≠ '\r') (h' : c ≠ '\n') (hne : text ≠ []) :
    marked (c :: text) = some c :: marked text := by
  cases text with
  | nil => exact absurd rfl hne
  | cons d text => simp [marked, h, h']

theorem marked_cons_cases (c : Char) (hne : text ≠ []) :
    marked (c :: text) = some c :: marked text ∨
      marked (c :: text) = some c :: none :: marked text := by
  cases text with
  | nil => exact absurd rfl hne
  | cons d text =>
    rw [marked]
    split
    · exact Or.inr rfl
    · exact Or.inl rfl

theorem marked_crlf (text : List Char) :
    marked ('\r' :: '\n' :: text) = some '\r' :: some '\n' :: none :: marked text := by
  cases text with
  | nil => simp [marked]
  | cons d text => simp [marked]

theorem records_step {r r' : Reader} {c : Option Char} {text : List (Option Char)}
    (h : r.step limit c = .ok r') (hm : c ≠ none ∨ r'.mode ≠ .startRecord) :
    Reader.records limit (c :: text) r = Reader.records limit text r' := by
  rw [Reader.records, h]
  exact if_neg fun hn => hm.elim (absurd hn.1) (absurd hn.2)

theorem records_startRecord (h : c ≠ '\n') (h' : c ≠ '\r') (text : List (Option Char)) :
    Reader.records limit (some c :: text) ⟨.startRecord, [], fs⟩ =
      Reader.records limit (some c :: text) ⟨.startField, [], fs⟩ := by
  have hstep : (⟨.startRecord, [], fs⟩ : Reader).step limit (some c) =
      (⟨.startField, [], fs⟩ : Reader).step limit (some c) := by
    simp [Reader.step, Reader.startField, Reader.addChar, Reader.saveField, h, h']
  rw [Reader.records, Reader.records, hstep]

theorem records_doubled (acc : List Char) (fs : List (List Char)) (text : List Char)
    (hl : acc.length + field.length ≤ limit) :
    Reader.records limit (marked (doubled field ++ '"' :: text)) ⟨.inQuotedField, acc, fs⟩ =
      Reader.records limit (marked ('"' :: text)) ⟨.inQuotedField, acc ++ field, fs⟩ := by
  induction field generalizing acc with
  | nil => rw [List.append_nil]; rfl
  | cons c field ih =>
    rw [List.length_cons] at hl
    have hlt : acc.length < limit := by omega
    have hrest := ih (acc ++ [c]) (by rw [List.length_append, List.length_singleton]; omega)
    rw [List.append_assoc, List.singleton_append] at hrest
    have hne : doubled field ++ '"' :: text ≠ [] := by simp
    have hq : ∀ mode, (⟨mode, acc, fs⟩ : Reader).addChar limit c .inQuotedField =
        .ok ⟨.inQuotedField, acc ++ [c], fs⟩ := fun mode => if_neg (by simpa using hlt)
    by_cases hc : c = '"'
    · subst hc
      have he : doubled ('"' :: field) ++ '"' :: text =
          '"' :: '"' :: (doubled field ++ '"' :: text) := by simp [doubled]
      have hopen : (⟨.inQuotedField, acc, fs⟩ : Reader).step limit (some '"') =
          .ok ⟨.quoteInQuotedField, acc, fs⟩ := rfl
      have hstep : (⟨.quoteInQuotedField, acc, fs⟩ : Reader).step limit (some '"') =
          .ok ⟨.inQuotedField, acc ++ ['"'], fs⟩ := hq _
      rw [he, marked_cons (by decide) (by decide) (List.cons_ne_nil _ _),
        marked_cons (by decide) (by decide) hne, records_step hopen (Or.inl (by simp)),
        records_step hstep (Or.inl (by simp))]
      exact hrest
    · have he : doubled (c :: field) ++ '"' :: text = c :: (doubled field ++ '"' :: text) := by
        simp [doubled, hc]
      have hstep : (⟨.inQuotedField, acc, fs⟩ : Reader).step limit (some c) =
          .ok ⟨.inQuotedField, acc ++ [c], fs⟩ := (if_neg hc).trans (hq _)
      rw [he]
      rcases marked_cons_cases c hne with hm | hm
      · rw [hm, records_step hstep (Or.inl (by simp))]
        exact hrest
      · have hmark : (⟨.inQuotedField, acc ++ [c], fs⟩ : Reader).step limit none =
            .ok ⟨.inQuotedField, acc ++ [c], fs⟩ := rfl
        rw [hm, records_step hstep (Or.inl (by simp)), records_step hmark (Or.inr (by simp))]
        exact hrest

theorem records_plain (acc : List Char) (fs : List (List Char))
    (hf : ∀ c ∈ field, special c = false) (hne : text ≠ [])
    (hl : acc.length + field.length ≤ limit) :
    Reader.records limit (marked (field ++ text)) ⟨.inField, acc, fs⟩ =
      Reader.records limit (marked text) ⟨.inField, acc ++ field, fs⟩ := by
  induction field generalizing acc with
  | nil => rw [List.append_nil]; rfl
  | cons c field ih =>
    rw [List.length_cons] at hl
    have hlt : acc.length < limit := by omega
    have hc := hf c List.mem_cons_self
    simp only [special, Bool.or_eq_false_iff, decide_eq_false_iff_not] at hc
    obtain ⟨⟨⟨hcomma, -⟩, hr⟩, hn⟩ := hc
    have hstep : (⟨.inField, acc, fs⟩ : Reader).step limit (some c) =
        .ok ⟨.inField, acc ++ [c], fs⟩ := by
      simp [Reader.step, Reader.addChar, hcomma, hr, hn, hlt]
    have hrest := ih (acc ++ [c]) (fun d hd => hf d (List.mem_cons_of_mem _ hd))
      (by rw [List.length_append, List.length_singleton]; omega)
    rw [List.append_assoc, List.singleton_append] at hrest
    rw [List.cons_append, marked_cons hr hn (by simp [hne]), records_step hstep (Or.inl (by simp))]
    exact hrest

def Closes (r : Reader) : Prop :=
  r.mode = .inField ∨ r.mode = .quoteInQuotedField ∨ (r.mode = .startField ∧ r.field = [])

theorem Closes.step_comma {r : Reader} (h : Closes r) :
    r.step limit (some ',') = .ok (r.saveField .startField) := by
  unfold Reader.step
  rcases h with hm | hm | ⟨hm, -⟩ <;> rw [hm] <;> rfl

theorem Closes.step_return {r : Reader} (h : Closes r) :
    r.step limit (some '\r') = .ok (r.saveField .eatCrnl) := by
  unfold Reader.step
  rcases h with hm | hm | ⟨hm, -⟩ <;> rw [hm] <;> rfl

theorem records_writeField (fs : List (List Char)) (hl : field.length ≤ limit) (hne : text ≠ []) :
    ∃ r : Reader, Closes r ∧ r.saveField = (⟨.startField, field, fs⟩ : Reader).saveField ∧
      Reader.records limit (marked (writeField field ++ text)) ⟨.startField, [], fs⟩ =
        Reader.records limit (marked text) r := by
  unfold writeField
  split
  · refine ⟨⟨.quoteInQuotedField, field, fs⟩, Or.inr (Or.inl rfl), rfl, ?_⟩
    have hopen : (⟨.startField, [], fs⟩ : Reader).step limit (some '"') =
        .ok ⟨.inQuotedField, [], fs⟩ := rfl
    have hclose : (⟨.inQuotedField, field, fs⟩ : Reader).step limit (some '"') =
        .ok ⟨.quoteInQuotedField, field, fs⟩ := rfl
    have hlen : ([] : List Char).length + field.length ≤ limit := by simpa using hl
    have hd := records_doubled [] fs text hlen
    rw [List.nil_append] at hd
    rw [quoted, List.cons_append, List.append_assoc, List.singleton_append,
      marked_cons (by decide) (by decide) (by simp), records_step hopen (Or.inl (by simp)), hd,
      marked_cons (by decide) (by decide) hne, records_step hclose (Or.inl (by simp))]
  · rename_i hs
    rw [Bool.not_eq_true, List.any_eq_false] at hs
    cases field with
    | nil => exact ⟨⟨.startField, [], fs⟩, Or.inr (Or.inr ⟨rfl, rfl⟩), rfl, rfl⟩
    | cons c field =>
      refine ⟨⟨.inField, c :: field, fs⟩, Or.inl rfl, rfl, ?_⟩
      have hc := hs c List.mem_cons_self
      simp only [special, Bool.not_eq_true, Bool.or_eq_false_iff, decide_eq_false_iff_not] at hc
      obtain ⟨⟨⟨hcomma, hquote⟩, hr⟩, hn⟩ := hc
      rw [List.length_cons] at hl
      have hpos : limit ≠ 0 := by omega
      have hstep : (⟨.startField, [], fs⟩ : Reader).step limit (some c) =
          .ok ⟨.inField, [c], fs⟩ := by
        simp [Reader.step, Reader.startField, Reader.addChar, hcomma, hquote, hr, hn, hpos]
      rw [List.cons_append, marked_cons hr hn (by simp [hne]),
        records_step hstep (Or.inl (by simp))]
      refine records_plain [c] fs (fun d hd => ?_) hne ?_
      · exact Bool.eq_false_iff.mpr (hs d (List.mem_cons_of_mem _ hd))
      · rw [List.length_singleton]
        omega

theorem records_crlf {r : Reader} (h : Closes r) (text : List Char) :
    Reader.records limit (marked ('\r' :: '\n' :: text)) r =
      Reader.emit (r.fields ++ [r.field]) (Reader.records limit (marked text) {}) := by
  have hn : (r.saveField .eatCrnl).step limit (some '\n') = .ok (r.saveField .eatCrnl) := rfl
  have hm : (r.saveField .eatCrnl).step limit none = .ok (r.saveField .startRecord) := rfl
  rw [marked_crlf, records_step h.step_return (Or.inl (by simp)),
    records_step hn (Or.inl (by simp)), Reader.records, hm]
  exact if_pos ⟨rfl, rfl⟩

theorem writeFields_cons (field next : List Char) (fields : List (List Char)) :
    writeFields (field :: next :: fields) = writeField field ++ ',' :: writeFields (next :: fields) :=
  rfl

theorem records_writeFields {fields : List (List Char)} (fs : List (List Char))
    (hne : fields ≠ []) (hl : ∀ field ∈ fields, field.length ≤ limit) (text : List Char) :
    Reader.records limit (marked (writeFields fields ++ '\r' :: '\n' :: text))
        ⟨.startField, [], fs⟩ =
      Reader.emit (fs ++ fields) (Reader.records limit (marked text) {}) := by
  induction fields generalizing fs with
  | nil => exact absurd rfl hne
  | cons field fields ih =>
    have hfield := hl field List.mem_cons_self
    cases fields with
    | nil =>
      obtain ⟨r, hc, hs, hr⟩ := records_writeField fs hfield (List.cons_ne_nil '\r' ('\n' :: text))
      have hf := congrArg Reader.fields (congrFun hs .startField)
      dsimp only [Reader.saveField] at hf
      rw [writeFields, hr, records_crlf hc, hf]
    | cons next fields =>
      have hrest := ih (fs ++ [field]) (List.cons_ne_nil _ _)
        fun f hf => hl f (List.mem_cons_of_mem _ hf)
      rw [List.append_assoc, List.singleton_append] at hrest
      obtain ⟨r, hc, hs, hr⟩ := records_writeField fs hfield
        (List.cons_ne_nil ',' (writeFields (next :: fields) ++ '\r' :: '\n' :: text))
      rw [writeFields_cons, List.append_assoc, List.cons_append, hr,
        marked_cons (by decide) (by decide) (by simp), records_step hc.step_comma (Or.inl (by simp)),
        congrFun hs]
      exact hrest

theorem writeFields_starts {fields : List (List Char)} (hne : fields ≠ []) (hone : fields ≠ [[]]) :
    ∃ c rest, writeFields fields = c :: rest ∧ c ≠ '\n' ∧ c ≠ '\r' := by
  obtain ⟨field, fields, rfl⟩ := List.exists_cons_of_ne_nil hne
  have hfield : field ≠ [] →
      ∃ c rest, writeField field = c :: rest ∧ c ≠ '\n' ∧ c ≠ '\r' := by
    intro hf
    obtain ⟨c, field, rfl⟩ := List.exists_cons_of_ne_nil hf
    unfold writeField
    split
    · exact ⟨'"', _, rfl, by decide, by decide⟩
    · rename_i hs
      rw [Bool.not_eq_true, List.any_eq_false] at hs
      have hc := hs c List.mem_cons_self
      simp only [special, Bool.not_eq_true, Bool.or_eq_false_iff, decide_eq_false_iff_not] at hc
      exact ⟨c, field, rfl, hc.2, hc.1.2⟩
  cases fields with
  | nil => exact hfield fun h => hone (by rw [h])
  | cons next fields =>
    by_cases hf : field = []
    · subst hf
      exact ⟨',', writeFields (next :: fields), rfl, by decide, by decide⟩
    · obtain ⟨c, rest, hc, hbreak⟩ := hfield hf
      exact ⟨c, rest ++ ',' :: writeFields (next :: fields), by
        rw [writeFields_cons, hc]
        rfl, hbreak⟩

theorem records_writeRecord {fields : List (List Char)}
    (hl : ∀ field ∈ fields, field.length ≤ limit) (text : List Char) :
    Reader.records limit (marked (writeRecord fields ++ text)) {} =
      Reader.emit fields (Reader.records limit (marked text) {}) := by
  unfold writeRecord
  rw [List.append_assoc]
  by_cases hone : fields = [[]]
  · subst hone
    have hopen : (⟨.startRecord, [], []⟩ : Reader).step limit (some '"') =
        .ok ⟨.inQuotedField, [], []⟩ := rfl
    have hclose : (⟨.inQuotedField, [], []⟩ : Reader).step limit (some '"') =
        .ok ⟨.quoteInQuotedField, [], []⟩ := rfl
    have hq : quoted [] ++ (['\r', '\n'] ++ text) = '"' :: '"' :: '\r' :: '\n' :: text := rfl
    rw [if_pos rfl, hq, marked_cons (by decide) (by decide) (List.cons_ne_nil _ _),
      marked_cons (by decide) (by decide) (List.cons_ne_nil _ _),
      records_step hopen (Or.inl (by simp)), records_step hclose (Or.inl (by simp))]
    exact records_crlf (Or.inr (Or.inl rfl)) text
  · rw [if_neg hone]
    by_cases hne : fields = []
    · subst hne
      have hr : (⟨.startRecord, [], []⟩ : Reader).step limit (some '\r') =
          .ok ⟨.eatCrnl, [], []⟩ := rfl
      have hn : (⟨.eatCrnl, [], []⟩ : Reader).step limit (some '\n') = .ok ⟨.eatCrnl, [], []⟩ := rfl
      have hm : (⟨.eatCrnl, [], []⟩ : Reader).step limit none = .ok ⟨.startRecord, [], []⟩ := rfl
      have hw : writeFields [] ++ (['\r', '\n'] ++ text) = '\r' :: '\n' :: text := rfl
      rw [hw, marked_crlf, records_step hr (Or.inl (by simp)), records_step hn (Or.inl (by simp)),
        Reader.records, hm]
      exact if_pos ⟨rfl, rfl⟩
    · obtain ⟨c, rest, hc, hn, hr⟩ := writeFields_starts hne hone
      have hw := records_writeFields [] hne hl text
      rw [hc] at hw ⊢
      rw [List.cons_append, marked_cons hr hn (by simp)] at hw ⊢
      rw [← records_startRecord hn hr] at hw
      exact hw

theorem read_write {records : List (List (List Char))}
    (hl : ∀ fields ∈ records, ∀ field ∈ fields, field.length ≤ limit) :
    read limit (write records) = (records, none) := by
  induction records with
  | nil => rfl
  | cons fields records ih =>
    have hrest : read limit (write records) = (records, none) :=
      ih fun f hf => hl f (List.mem_cons_of_mem _ hf)
    unfold read at hrest ⊢
    have hw : write (fields :: records) = writeRecord fields ++ write records := rfl
    rw [hw, records_writeRecord (hl fields List.mem_cons_self), hrest]
    rfl

/-- Every field that the reader has is within the limit. -/
structure Reader.Within (r : Reader) (limit : ℕ) : Prop where
  field : r.field.length ≤ limit
  fields : ∀ field ∈ r.fields, field.length ≤ limit

theorem Reader.Within.saveField {r : Reader} (h : r.Within limit) (mode : Mode) :
    (r.saveField mode).Within limit := by
  refine ⟨Nat.zero_le _, fun field hf => ?_⟩
  rcases List.mem_append.mp hf with hf | hf
  · exact h.fields field hf
  · obtain rfl := List.mem_singleton.mp hf
    exact h.field

def Breaks (c : Option Char) : Prop := c = none ∨ c = some '\n' ∨ c = some '\r'

/-- A step only fails at the limit, it keeps the limit, and it skips line breaks behind a line break
only. -/
def Sound (limit : ℕ) (c : Option Char) : Except Error Reader → Prop
  | .error e => e = .fieldLimit
  | .ok r => r.Within limit ∧ (r.mode = .eatCrnl → c ≠ none ∧ Breaks c)

theorem Sound.of_mode {r : Reader} {c : Option Char} (mode : Mode) (h : r.Within limit)
    (hr : r.mode = mode) (hm : mode ≠ .eatCrnl) : Sound limit c (.ok r) :=
  ⟨h, fun he => absurd (hr.symm.trans he) hm⟩

theorem Reader.Within.addChar {r : Reader} (h : r.Within limit) (c : Char) {mode : Mode}
    (hm : mode ≠ .eatCrnl) : Sound limit (some c) (r.addChar limit c mode) := by
  unfold Reader.addChar
  split
  · rfl
  · refine ⟨⟨?_, h.fields⟩, fun he => absurd he hm⟩
    rw [List.length_append, List.length_singleton]
    omega

theorem Reader.Within.endOfLine {r : Reader} (h : r.Within limit) {c : Option Char}
    (hc : Breaks c) : Sound limit c (.ok (r.endOfLine c)) := by
  refine ⟨h.saveField _, fun hm => ⟨fun hn => ?_, hc⟩⟩
  subst hn
  cases hm

theorem Reader.Within.startField {r : Reader} (h : r.Within limit) (c : Option Char) :
    Sound limit c (r.startField limit c) := by
  cases c with
  | none => exact h.endOfLine (Or.inl rfl)
  | some c =>
    dsimp only [Reader.startField]
    split
    · rename_i hc
      exact h.endOfLine (Or.inr (hc.imp (congrArg some) (congrArg some)))
    split
    · exact .of_mode .inQuotedField ⟨h.field, h.fields⟩ rfl (by decide)
    split
    · exact .of_mode .startField (h.saveField _) rfl (by decide)
    · exact h.addChar c (by decide)

theorem step_sound {r : Reader} (h : r.Within limit) {c : Option Char}
    (hc : r.mode = .eatCrnl → Breaks c) : Sound limit c (r.step limit c) := by
  unfold Reader.step
  split
  · rename_i he
    exact .of_mode _ h he (by decide)
  · split
    · rename_i hb
      exact ⟨⟨h.field, h.fields⟩, fun _ =>
        ⟨Option.some_ne_none _, Or.inr (hb.imp (congrArg some) (congrArg some))⟩⟩
    · exact h.startField _
  · exact h.startField _
  · exact h.endOfLine (Or.inl rfl)
  · split
    · rename_i hb
      exact h.endOfLine (Or.inr (hb.imp (congrArg some) (congrArg some)))
    split
    · exact .of_mode .startField (h.saveField _) rfl (by decide)
    · exact h.addChar _ (by decide)
  · rename_i he
    exact .of_mode _ h he (by decide)
  · split
    · exact .of_mode .quoteInQuotedField ⟨h.field, h.fields⟩ rfl (by decide)
    · exact h.addChar _ (by decide)
  · exact h.endOfLine (Or.inl rfl)
  · split
    · exact h.addChar _ (by decide)
    split
    · exact .of_mode .startField (h.saveField _) rfl (by decide)
    split
    · rename_i hb
      exact h.endOfLine (Or.inr (hb.imp (congrArg some) (congrArg some)))
    · exact h.addChar _ (by decide)
  · exact .of_mode .startRecord ⟨h.field, h.fields⟩ rfl (by decide)
  · split
    · rename_i hb
      exact ⟨h, fun _ => ⟨Option.some_ne_none _, Or.inr (hb.imp (congrArg some) (congrArg some))⟩⟩
    · rename_i c he hb
      rcases hc he with hn | hn | hn
      · cases hn
      · exact absurd (Or.inl (Option.some.inj hn)) hb
      · exact absurd (Or.inr (Option.some.inj hn)) hb

/-- Behind a line break comes its mark, or the newline of a carriage return. -/
def Ready (r : Reader) (text : List Char) : Prop := r.mode = .eatCrnl → text.head? = some '\n'

theorem Ready.breaks {r : Reader} (h : Ready r (c :: text)) (hm : r.mode = .eatCrnl) :
    Breaks (some c) := Or.inr (Or.inl (h hm))

/-- The reader failed at the limit if it failed, and the fields it returned are within the limit. -/
structure Fine (limit : ℕ) (out : List (List (List Char)) × Option Error) : Prop where
  error : ∀ e, out.2 = some e → e = .fieldLimit
  fields : ∀ fields ∈ out.1, ∀ field ∈ fields, field.length ≤ limit

theorem fine_nil {r : Reader} (h : r.Within limit) : Fine limit (Reader.records limit [] r) := by
  unfold Reader.records
  constructor
  · rintro e ⟨⟩
  · dsimp only
    split
    · intro fields hf
      obtain rfl := List.mem_singleton.mp hf
      exact (h.saveField .startRecord).fields
    · exact fun _ hf => absurd hf List.not_mem_nil

theorem fine_cons {r : Reader} {c : Option Char} {text : List (Option Char)} (h : r.Within limit)
    (hc : r.mode = .eatCrnl → Breaks c)
    (hrest : ∀ r' : Reader, r'.Within limit → (r'.mode = .eatCrnl → c ≠ none ∧ Breaks c) →
      Fine limit (Reader.records limit text r')) :
    Fine limit (Reader.records limit (c :: text) r) := by
  have hs := step_sound h hc
  unfold Reader.records
  cases hstep : r.step limit c with
  | error e =>
    rw [hstep] at hs
    refine ⟨fun e' he => ?_, fun _ hf => absurd hf List.not_mem_nil⟩
    rw [← Option.some.inj he]
    exact hs
  | ok r' =>
    rw [hstep] at hs
    dsimp only
    split
    · have hfresh := hrest {} ⟨Nat.zero_le _, fun _ hf => absurd hf List.not_mem_nil⟩
        fun hm => absurd hm (by decide)
      refine ⟨hfresh.error, fun fields hf => ?_⟩
      rcases List.mem_cons.mp hf with rfl | hf
      · exact hs.1.fields
      · exact hfresh.fields fields hf
    · exact hrest r' hs.1 hs.2

theorem records_fine {r : Reader} (h : r.Within limit) (hr : Ready r text) :
    Fine limit (Reader.records limit (marked text) r) := by
  induction text using marked.induct generalizing r with
  | case1 => exact fine_nil h
  | case2 c =>
    refine fine_cons h hr.breaks fun r' h' _ => ?_
    exact fine_cons h' (fun _ => Or.inl rfl) fun r'' h'' _ => fine_nil h''
  | case3 c d text hb ih =>
    rw [marked, if_pos hb]
    refine fine_cons h hr.breaks fun r' h' _ => ?_
    refine fine_cons h' (fun _ => Or.inl rfl) fun r'' h'' hm => ?_
    exact ih h'' fun he => absurd rfl (hm he).1
  | case4 c d text hb ih =>
    rw [marked, if_neg hb]
    refine fine_cons h hr.breaks fun r' h' hm => ?_
    refine ih h' fun he => ?_
    -- only a carriage return before a newline breaks a line without a mark
    obtain ⟨hn, hnl⟩ := not_or.mp hb
    rcases (hm he).2 with hc | hc | hc
    · cases hc
    · exact absurd (Option.some.inj hc) hn
    · exact congrArg some (not_not.mp fun hd => hnl ⟨Option.some.inj hc, hd⟩)

theorem read_fine (limit : ℕ) (text : List Char) : Fine limit (read limit text) := by
  refine records_fine ⟨Nat.zero_le _, fun _ hf => absurd hf List.not_mem_nil⟩ fun hm => ?_
  cases hm

end CsvText
