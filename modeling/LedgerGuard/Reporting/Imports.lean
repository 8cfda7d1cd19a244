import LedgerGuard.Reporting.Exports

/-! # Reading spreadsheet text

The offline audit reads its inputs as records under a header, within limits on
the size of a file, of a field and on the number of records. It reads a report
back as it was written, and every cell of a report is inert.
-/

namespace LedgerGuard.Reporting

def maxImport : ℕ := 20 * 1024 * 1024

/-- The limit of Python's reader on a field. -/
def fieldLimit : ℕ := 131072

/-- `path.stat().st_size` -/
def fileSize (file : List Char) : ℕ := (file.map Char.utf8Size).sum

def fileText : List Char → List Char
  | [] => []
  | c :: text => if c = byteOrderMark then text else c :: text

abbrev Record := List (String × String)

/-- The loop over the records: what the reader raises comes after the records before it. -/
def collect (fieldnames : List String) (error : Option CsvText.Error) :
    List (List (List Char)) → ℕ → Except Rejection (List Record)
  | [], _ => error.elim (.ok []) fun e => .error (.csvError e)
  | record :: records, count =>
    if record.length ≠ fieldnames.length then .error (.valueError "Malformed CSV record")
    else if 100000 ≤ count then .error (.valueError "Import exceeds 100,000 records")
    else (collect fieldnames error records (count + 1)).map
      (fieldnames.zip (record.map String.ofList) :: ·)

/-- Records without fields are skipped by the dictionary reader. -/
def rows (file : List Char) (required : List String) : Except Rejection (List Record) :=
  if maxImport < fileSize file then .error (.valueError "Import exceeds 20 MiB")
  else
    match CsvText.read fieldLimit (fileText file) with
    | ([], some e) => .error (.csvError e)
    | ([], none) =>
      .error (.valueError "CSV header is missing required fields or contains duplicates")
    | (header :: records, error) =>
      let fieldnames := header.map String.ofList
      if fieldnames = [] ∨ ¬ fieldnames.Nodup ∨ ¬ required ⊆ fieldnames then
        .error (.valueError "CSV header is missing required fields or contains duplicates")
      else collect fieldnames error (records.filter (· ≠ [])) 0

/-- Records under one header without duplicates, with every field within the limit. -/
structure WellFormed (required : List String) (records : List Record) : Prop where
  count : records.length ≤ 100000
  header : ∃ fieldnames : List String, fieldnames ≠ [] ∧ fieldnames.Nodup ∧
    required ⊆ fieldnames ∧ ∀ record ∈ records, record.map Prod.fst = fieldnames
  fields : ∀ record ∈ records, ∀ field ∈ record, field.2.length ≤ fieldLimit

/-- What a file is refused for: the reader's own errors are not `ValueError`s. -/
def Rejection.Expected (e : Rejection) : Prop :=
  (∃ message, e = .valueError message) ∨ e = .csvError .fieldLimit

def Outcome (P : List Record → Prop) : Except Rejection (List Record) → Prop
  | .error e => e.Expected
  | .ok records => P records

theorem outcome_refused {P : List Record → Prop} (message : String) :
    Outcome P (.error (.valueError message)) := Or.inl ⟨message, rfl⟩

theorem outcome_map {P Q : List Record → Prop} {x : Except Rejection (List Record)}
    {f : List Record → List Record} (h : Outcome P x) (hf : ∀ records, P records → Q (f records)) :
    Outcome Q (x.map f) := by
  cases x with
  | error e => exact h
  | ok records => exact hf records h

theorem collect_outcome (fieldnames : List String) {error : Option CsvText.Error}
    (he : ∀ e, error = some e → e = .fieldLimit) (records : List (List (List Char))) {count : ℕ}
    (hc : count ≤ 100000) :
    Outcome (fun out => count + out.length ≤ 100000 ∧ ∀ record ∈ out, ∃ fields ∈ records,
      fields.length = fieldnames.length ∧ record = fieldnames.zip (fields.map String.ofList))
      (collect fieldnames error records count) := by
  induction records generalizing count with
  | nil =>
    unfold collect
    cases error with
    | none => exact ⟨hc, fun _ hm => absurd hm List.not_mem_nil⟩
    | some error => exact Or.inr (congrArg _ (he error rfl))
  | cons fields records ih =>
    unfold collect
    split
    · exact outcome_refused _
    split
    · exact outcome_refused _
    · rename_i hlen hcount
      refine outcome_map (ih (by omega)) fun out hout => ⟨?_, fun record hm => ?_⟩
      · have hle := hout.1
        rw [List.length_cons]
        omega
      · rcases List.mem_cons.mp hm with rfl | hm
        · exact ⟨fields, List.mem_cons_self, not_not.mp hlen, rfl⟩
        · obtain ⟨fields', hf, hrest⟩ := hout.2 record hm
          exact ⟨fields', List.mem_cons_of_mem _ hf, hrest⟩

theorem zip_record {fieldnames : List String} {fields : List (List Char)}
    (h : fields.length = fieldnames.length) :
    (fieldnames.zip (fields.map String.ofList)).map Prod.fst = fieldnames := by
  rw [List.map_fst_zip]
  rw [List.length_map, h]

theorem rows_satisfies (file : List Char) (required : List String) :
    Outcome (fun records => fileSize file ≤ maxImport ∧ WellFormed required records)
      (rows file required) := by
  have hfine := CsvText.read_fine fieldLimit (fileText file)
  unfold rows
  split
  · exact outcome_refused _
  rename_i hsize
  split
  · rename_i hread
    rw [hread] at hfine
    exact Or.inr (congrArg _ (hfine.error _ rfl))
  · exact outcome_refused _
  · rename_i header fields error hread
    rw [hread] at hfine
    dsimp only
    split
    · exact outcome_refused _
    · rename_i hheader
      obtain ⟨hne, hheader⟩ := not_or.mp hheader
      obtain ⟨hnodup, hreq⟩ := not_or.mp hheader
      have hout := collect_outcome (header.map String.ofList) hfine.error
        (fields.filter (· ≠ [])) (Nat.zero_le _)
      cases hc : collect (header.map String.ofList) error (fields.filter (· ≠ [])) 0 with
      | error e =>
        rw [hc] at hout
        exact hout
      | ok records =>
        rw [hc] at hout
        obtain ⟨hcount, hrecords⟩ := hout
        refine ⟨by omega, by omega, ⟨header.map String.ofList, hne, not_not.mp hnodup,
          not_not.mp hreq, fun record hm => ?_⟩, fun record hm field hf => ?_⟩
        · obtain ⟨fields', -, hlen, rfl⟩ := hrecords record hm
          exact zip_record hlen
        · obtain ⟨fields', hmem, -, rfl⟩ := hrecords record hm
          obtain ⟨text, htext, htext'⟩ := List.mem_map.mp (List.of_mem_zip hf).2
          rw [← htext', String.length_ofList]
          exact hfine.fields fields' (List.mem_cons_of_mem _ (List.mem_of_mem_filter hmem)) text htext

/-- A file that is accepted is well formed, and any other one is refused with a `ValueError` or for a
field over the limit. -/
theorem rows_outcome (file : List Char) (required : List String) :
    (∀ e, rows file required = .error e → e.Expected) ∧
      ∀ records, rows file required = .ok records →
        fileSize file ≤ maxImport ∧ WellFormed required records := by
  have hout := rows_satisfies file required
  constructor
  · intro e h
    rw [h] at hout
    exact hout
  · intro records h
    rw [h] at hout
    exact hout

/-- A spreadsheet takes the text for text. -/
def Inert (text : String) : Prop :=
  (∀ c ∈ (lstrip text.toList).head?, c ∉ formulaStarts) ∧
    ∀ c ∈ text.toList.head?, c ∉ ['\t', '\r', '\n']

theorem inert_iff (text : String) : Inert text ↔ dangerous text.toList = false := by
  unfold Inert dangerous
  cases (lstrip text.toList).head? <;> cases text.toList.head? <;> simp

theorem dangerous_quoted (text : List Char) : dangerous ('\'' :: text) = false := by
  have hspace : isSpace '\'' = false := by decide
  have hstrip : lstrip ('\'' :: text) = '\'' :: text := by simp [lstrip, hspace]
  simp [dangerous, hstrip, formulaStarts]

theorem safeCell_inert (value : Value) : Inert (safeCell value) := by
  rw [inert_iff]
  unfold safeCell
  dsimp only
  split
  · rw [String.toList_append]
    exact dangerous_quoted _
  · rename_i h
    exact Bool.eq_false_iff.mpr h

variable {rs : List Row} {required fieldnames : List String} {records : List (List (List Char))}

theorem collect_eq (h : ∀ record ∈ records, record.length = fieldnames.length) {count : ℕ}
    (hc : count ≤ 100000) :
    collect fieldnames none records count =
      if 100000 < count + records.length then
        .error (.valueError "Import exceeds 100,000 records")
      else .ok (records.map fun record => fieldnames.zip (record.map String.ofList)) := by
  induction records generalizing count with
  | nil => rw [List.length_nil, if_neg (by omega)]; rfl
  | cons record records ih =>
    rw [collect, if_neg (not_not_intro (h record List.mem_cons_self))]
    by_cases hfull : 100000 ≤ count
    · rw [if_pos hfull, List.length_cons, if_pos (by omega)]
    · rw [if_neg hfull, ih (fun r hr => h r (List.mem_cons_of_mem _ hr)) (by omega),
        List.length_cons]
      have hiff : 100000 < count + 1 + records.length ↔ 100000 < count + (records.length + 1) := by
        omega
      by_cases hover : 100000 < count + 1 + records.length
      · rw [if_pos hover, if_pos (hiff.mp hover)]
        rfl
      · rw [if_neg hover, if_neg fun hn => hover (hiff.mpr hn)]
        rfl

/-- What a record of a report is read back as. -/
def Row.record (row : Row) : Record := columns.map fun column => (column, row.cell column)

theorem zip_fields (row : Row) : columns.zip (row.fields.map String.ofList) = row.record := by
  have hcells : row.fields.map String.ofList = columns.map row.cell := by
    simp [Row.fields, Function.comp_def]
  rw [hcells, Row.record, List.map_prod_left_eq_zip]

/-- Within its limits the audit reads a report back cell by cell, and every cell is inert. -/
theorem rows_csvReport (rs : List Row) (required : List String)
    (hlen : ∀ row ∈ rs, ∀ column ∈ columns, (row.cell column).length ≤ fieldLimit) :
    rows (csvReport rs) required =
        (if maxImport < fileSize (csvReport rs) then
          .error (.valueError "Import exceeds 20 MiB")
        else if ¬ required ⊆ columns then
          .error (.valueError "CSV header is missing required fields or contains duplicates")
        else if 100000 < rs.length then .error (.valueError "Import exceeds 100,000 records")
        else .ok (rs.map Row.record)) ∧
      ∀ row ∈ rs, ∀ cell ∈ row.record, Inert cell.2 := by
  constructor
  · have hwritten : ∀ fields ∈ columns.map String.toList :: rs.map Row.fields,
        ∀ field ∈ fields, field.length ≤ fieldLimit := by
      intro fields hm
      rcases List.mem_cons.mp hm with rfl | hm
      · decide +kernel
      · obtain ⟨row, hrow, rfl⟩ := List.mem_map.mp hm
        intro field hf
        obtain ⟨column, hc, rfl⟩ := List.mem_map.mp hf
        exact hlen row hrow column hc
    have hread : CsvText.read fieldLimit (fileText (csvReport rs)) =
        (columns.map String.toList :: rs.map Row.fields, none) := CsvText.read_write hwritten
    have hheader : (columns.map String.toList).map String.ofList = columns := by
      simp [List.map_map, Function.comp_def]
    have hfull : (rs.map Row.fields).filter (· ≠ []) = rs.map Row.fields := by
      rw [List.filter_eq_self]
      intro fields hm
      obtain ⟨row, -, rfl⟩ := List.mem_map.mp hm
      rfl
    have hrecords : (rs.map Row.fields).map (fun record =>
        columns.zip (record.map String.ofList)) = rs.map Row.record := by
      rw [List.map_map]
      exact List.map_congr_left fun row _ => zip_fields row
    have hcollect : collect columns none (rs.map Row.fields) 0 =
        if 100000 < rs.length then .error (.valueError "Import exceeds 100,000 records")
        else .ok (rs.map Row.record) := by
      rw [collect_eq (fun record hm => ?_) (Nat.zero_le _), hrecords, Nat.zero_add, List.length_map]
      obtain ⟨row, -, rfl⟩ := List.mem_map.mp hm
      exact List.length_map _
    unfold rows
    rw [hread]
    dsimp only
    rw [hheader, hfull, hcollect]
    by_cases hreq : required ⊆ columns
    · have hvalid : ¬ (columns = [] ∨ ¬ columns.Nodup ∨ ¬ required ⊆ columns) :=
        not_or.mpr ⟨List.cons_ne_nil _ _, not_or.mpr ⟨by decide, not_not_intro hreq⟩⟩
      rw [if_neg hvalid, if_neg (not_not_intro hreq)]
    · rw [if_pos (Or.inr (Or.inr hreq)), if_pos hreq]
  · intro row _ cell hcell
    obtain ⟨column, -, rfl⟩ := List.mem_map.mp hcell
    exact safeCell_inert _

theorem rows_csvReport_hostile :
    rows (csvReport [hostileRow]) ["finding_key", "store"] = .ok [hostileRow.record] ∧
      ∀ cell ∈ hostileRow.record, Inert cell.2 := by
  obtain ⟨hrows, hinert⟩ := rows_csvReport [hostileRow] ["finding_key", "store"] (by decide +kernel)
  refine ⟨?_, hinert _ List.mem_cons_self⟩
  rw [hrows, if_neg (by decide +kernel), if_neg (by decide), if_neg (by decide)]
  rfl

end LedgerGuard.Reporting
