import Mathlib.Data.List.Basic
import RunAudit.Metrics.Table

/-!
# A table is a ragged transposition

A table is filled record by record, and a record gives its fields to the columns from the left. So
a column depends on the records that reach it and on no others, and a record that is too short
shifts all samples that come later. To say where a sample comes from, the same records are put into
columns once more, each field with the number of its record.

* `getElem?_addRecord`, `columnsOf_eq`: what one record does to a column, and what all records put
  into it.
* `numbered`, `traced`: fields with the numbers of their records, and a column of them.
* `origins_eq_iff`: when the samples of a column come from the first records, one from each.
* `column?_eq_some_iff`: the column that is found by name.
* `table_transposes`: the table of a text.
-/

namespace RunAudit.Metrics.Table

variable {β : Type}

/-! ### Columns -/

/-- **What one record does to a column**: the column takes the field at its place, if there is
one. -/
theorem getElem?_addRecord (columns : List (Array β)) (record : List β) (j : Nat) :
    (addRecord columns record)[j]? =
      columns[j]?.map fun column => (record[j]?.map column.push).getD column := by
  fun_induction addRecord columns record generalizing j with
  | case1 column columns field fields ih =>
    cases j with
    | zero => rfl
    | succ j => simpa using ih j
  | case2 columns record hend =>
    -- there is no column left, or no field
    cases columns with
    | nil => rfl
    | cons column columns =>
      cases record with
      | nil => simp
      | cons field fields => exact absurd rfl (hend column columns field fields rfl)

/-- What records one after another do to a column. -/
theorem getElem?_foldl_addRecord (records : List (List β)) (columns : List (Array β)) (j : Nat) :
    (records.foldl addRecord columns)[j]?.map Array.toList =
      columns[j]?.map fun column => column.toList ++ records.filterMap (·[j]?) := by
  induction records generalizing columns with
  | nil => simp
  | cons record records ih =>
    rw [List.foldl_cons, ih, getElem?_addRecord, Option.map_map]
    cases hf : record[j]? with
    | none => simp [hf, Function.comp_def]
    | some field => simp [hf, Function.comp_def]

/-- **What all records put into the columns.** -/
theorem columnsOf_eq (width : Nat) (records : List (List β)) :
    columnsOf width records = (List.range width).map fun j => records.filterMap (·[j]?) := by
  apply List.ext_getElem?
  intro j
  unfold columnsOf
  rw [List.getElem?_map, getElem?_foldl_addRecord]
  by_cases hj : j < width
  · simp [hj]
  · simp [hj]

theorem columns_ofRecords (header : List String) (records : List (List String)) :
    (ofRecords header records).columns =
      header.mapIdx fun j name => ⟨name, records.filterMap (·[j]?)⟩ := by
  apply List.ext_getElem?
  intro j
  unfold ofRecords
  rw [List.getElem?_zipWith, columnsOf_eq, List.getElem?_mapIdx]
  by_cases hj : j < header.length
  · simp [hj]
  · simp [hj]

/-- The names of the columns are the header, even if no record reaches them. -/
theorem names_ofRecords (header : List String) (records : List (List String)) :
    (ofRecords header records).columns.map (·.name) = header := by
  apply List.ext_getElem?
  intro j
  rw [columns_ofRecords, List.getElem?_map, List.getElem?_mapIdx, Option.map_map]
  exact Option.map_id'

/-- Fields beyond the header do not matter. -/
theorem ofRecords_take (header : List String) (records : List (List String)) :
    ofRecords header (records.map (·.take header.length)) = ofRecords header records := by
  rw [ofRecords, ofRecords, columnsOf_eq, columnsOf_eq]
  congr 2
  apply List.map_congr_left
  intro j hj
  rw [List.filterMap_map]
  apply List.filterMap_congr
  intro record _
  exact List.getElem?_take_of_lt (List.mem_range.1 hj)

/-- A column further to the right has no more samples. -/
theorem length_filterMap_le {j k : Nat} (hjk : j ≤ k) (records : List (List β)) :
    (records.filterMap (·[k]?)).length ≤ (records.filterMap (·[j]?)).length := by
  rw [List.length_filterMap_eq_countP, List.length_filterMap_eq_countP]
  apply List.countP_mono_left
  intro record _ hk
  rw [isSome_getElem?] at hk ⊢
  exact Nat.lt_of_le_of_lt hjk hk

/-! ### Where samples come from -/

/-- Records of which each field bears the number of its record, the first of which is given. -/
def numbered (start : Nat) (records : List (List β)) : List (List (Nat × β)) :=
  (records.zipIdx start).map fun (record, i) => record.map (i, ·)

/-- **A column with the origins of its samples**: what the same records put into it if each field
bears the number of its record. -/
def traced (width : Nat) (records : List (List β)) (j : Nat) : List (Nat × β) :=
  (columnsOf width (numbered 0 records)).getD j []

/-- The numbers of the records that reach a column. -/
def reaching (j : Nat) : Nat → List (List β) → List Nat
  | _, [] => []
  | i, record :: later =>
    if j < record.length then i :: reaching j (i + 1) later else reaching j (i + 1) later

/-- Numbers on the fields do not change where these go. -/
theorem traced_from (start j : Nat) (records : List (List β)) :
    ((numbered start records).filterMap (·[j]?)).map Prod.snd = records.filterMap (·[j]?) ∧
      ((numbered start records).filterMap (·[j]?)).map Prod.fst = reaching j start records := by
  induction records generalizing start with
  | nil => exact ⟨rfl, rfl⟩
  | cons record records ih =>
    obtain ⟨hsamples, horigins⟩ := ih (start + 1)
    have hcons : numbered start (record :: records) =
        record.map (start, ·) :: numbered (start + 1) records := rfl
    rw [hcons, reaching, List.filterMap_cons, List.filterMap_cons, List.getElem?_map]
    by_cases hj : j < record.length
    · rw [if_pos hj, List.getElem?_eq_getElem hj]
      simp [hsamples, horigins]
    · rw [if_neg hj, List.getElem?_eq_none (Nat.le_of_not_lt hj)]
      exact ⟨hsamples, horigins⟩

theorem le_of_mem_reaching {j i n : Nat} {records : List (List β)}
    (h : i ∈ reaching j n records) : n ≤ i := by
  induction records generalizing n with
  | nil => simp [reaching] at h
  | cons record records ih =>
    rw [reaching] at h
    split at h
    · rcases List.mem_cons.1 h with h | h
      · omega
      · have := ih h
        omega
    · have := ih h
      omega

theorem reaching_eq_nil (j n : Nat) (records : List (List β)) :
    reaching j n records = [] ↔ ∀ record ∈ records, ¬ j < record.length := by
  induction records generalizing n with
  | nil => simp [reaching]
  | cons record records ih =>
    rw [reaching, List.forall_mem_cons, ← ih (n + 1)]
    split_ifs with hj <;> simp [hj]

/-- **The samples of a column come from the first records, one from each**, exactly if no record
that falls short of the column comes before one that reaches it. -/
theorem origins_eq_iff (j n : Nat) (records : List (List β)) :
    reaching j n records = List.range' n (reaching j n records).length ↔
      records.Pairwise fun earlier later => j < later.length → j < earlier.length := by
  induction records generalizing n with
  | nil => simp [reaching]
  | cons record records ih =>
    rw [List.pairwise_cons, reaching]
    by_cases hj : j < record.length
    · rw [if_pos hj, List.length_cons, List.range'_succ, List.cons_inj_right, ih]
      simp [hj]
    · -- the first record is passed over, so a later one would be the wrong one
      rw [if_neg hj]
      have hnil : reaching j (n + 1) records =
          List.range' n (reaching j (n + 1) records).length ↔
            reaching j (n + 1) records = [] := by
        constructor
        · intro hrange
          cases hr : reaching j (n + 1) records with
          | nil => rfl
          | cons i later =>
            rw [hr, List.length_cons, List.range'_succ, List.cons.injEq] at hrange
            have hi : n + 1 ≤ i := le_of_mem_reaching (hr ▸ List.mem_cons_self)
            omega
        · intro hr
          rw [hr]
          rfl
      have hshort : (∀ later ∈ records, ¬ j < later.length) ↔
          (∀ later ∈ records, j < later.length → j < record.length) := by
        simp [hj]
      rw [hnil, reaching_eq_nil, ← hshort, iff_self_and]
      intro hall
      exact List.pairwise_of_forall_mem_list fun _ _ later hlater hreach =>
        absurd hreach (hall later hlater)

theorem traced_eq {width j : Nat} (hj : j < width) (records : List (List β)) :
    traced width records j = (numbered 0 records).filterMap (·[j]?) := by
  rw [traced, columnsOf_eq, List.getD_eq_getElem?_getD]
  simp [hj]

/-! ### Columns by name -/

/-- **The column that is found by name** is the last one with that name. -/
theorem column?_eq_some_iff {t : Table} {name : String} {column : Column} :
    t.column? name = some column ↔
      ∃ left right, t.columns = left ++ column :: right ∧ column.name = name ∧
        name ∉ right.map (·.name) := by
  unfold column?
  rw [List.find?_eq_some_iff_append]
  constructor
  · rintro ⟨hname, front, back, hsplit, hfront⟩
    refine ⟨back.reverse, front.reverse, ?_, by simpa using hname, ?_⟩
    · rw [← List.reverse_reverse t.columns, hsplit]
      simp
    · simpa using hfront
  · rintro ⟨left, right, hsplit, hname, hright⟩
    refine ⟨by simpa using hname, right.reverse, left.reverse, ?_, ?_⟩
    · rw [hsplit]
      simp
    · simpa using hright

theorem column?_eq_none_iff {t : Table} {name : String} :
    t.column? name = none ↔ name ∉ t.columns.map (·.name) := by
  unfold column?
  rw [List.find?_eq_none]
  simp

/-! ### The table of a text -/

theorem read?_eq {bytes : List UInt8} {rows : List (List String)}
    (h : readRecords? bytes = some rows) :
    Table.read? bytes = some (ofRecords (rows.headD []) rows.tail) := by
  unfold Table.read?
  rw [h]
  cases rows <;> rfl

/-- **The table of a text is the ragged transposition of its records.** The first record is the
header, and it names the columns. Column `j` has field `j` of each later record with more than `j`
fields, in their order; fields beyond the header are dropped. So no column has more samples than
one to the left of it. Sample `i` is of record `i`, for all `i`, exactly if no record that falls
short of the column comes before one that reaches it. Of several columns with one name, the
right-most is found, and one is found if there is any. -/
theorem table_transposes {bytes : List UInt8} {rows : List (List String)}
    (h : readRecords? bytes = some rows) :
    let header := rows.headD []
    let records := rows.tail
    ∃ t, Table.read? bytes = some t ∧
      t.columns.map (·.name) = header ∧
      t = ofRecords header (records.map (·.take header.length)) ∧
      (∀ j column, t.columns[j]? = some column →
        column.samples = records.filterMap (·[j]?) ∧
        (traced header.length records j).map Prod.snd = column.samples ∧
        ((traced header.length records j).map Prod.fst = List.range column.samples.length ↔
          records.Pairwise fun earlier later => j < later.length → j < earlier.length)) ∧
      (t.columns.Pairwise fun left right => right.samples.length ≤ left.samples.length) ∧
      ∀ name,
        (∀ column, t.column? name = some column ↔
          ∃ left right, t.columns = left ++ column :: right ∧ column.name = name ∧
            name ∉ right.map (·.name)) ∧
        (t.column? name = none ↔ name ∉ header) := by
  intro header records
  have hnames : (ofRecords header records).columns.map (·.name) = header :=
    names_ofRecords header records
  refine ⟨ofRecords header records, read?_eq h, hnames, (ofRecords_take header records).symm,
    ?_, ?_, ?_⟩
  · intro j column hcolumn
    rw [columns_ofRecords, List.getElem?_mapIdx, Option.map_eq_some_iff] at hcolumn
    obtain ⟨name, hname, rfl⟩ := hcolumn
    have hj : j < header.length := (List.getElem?_eq_some_iff.1 hname).1
    obtain ⟨hsamples, horigins⟩ := traced_from 0 j records
    rw [traced_eq hj]
    refine ⟨rfl, hsamples, ?_⟩
    have hlength : (records.filterMap (·[j]?)).length = (reaching j 0 records).length := by
      rw [← hsamples, ← horigins, List.length_map, List.length_map]
    rw [horigins, hlength, List.range_eq_range', origins_eq_iff]
  · rw [columns_ofRecords, List.pairwise_iff_getElem]
    intro j k _ _ hjk
    simp only [List.getElem_mapIdx]
    exact length_filterMap_le (Nat.le_of_lt hjk) records
  · intro name
    refine ⟨fun column => column?_eq_some_iff, ?_⟩
    rw [column?_eq_none_iff, hnames]

/-- A text with two columns of one name, a comment, and records of three lengths. -/
def raggedText : List UInt8 :=
  "round, q2,round\n1\n# paused\n2, 20\n3,30,300,3000\n".toUTF8.data.toList

theorem table_transposes_raggedText :
    readRecords? raggedText =
        some [["round", "q2", "round"], ["1"], ["2", "20"], ["3", "30", "300", "3000"]] ∧
      ∃ t, Table.read? raggedText = some t ∧
        t.columns[1]? = some ⟨"q2", ["20", "30"]⟩ ∧
        t.column? "round" = some ⟨"round", ["300"]⟩ := by
  have hrows : readRecords? raggedText =
      some [["round", "q2", "round"], ["1"], ["2", "20"], ["3", "30", "300", "3000"]] := by
    decide +kernel
  obtain ⟨t, hread, -, ht, -, -, hfound⟩ := table_transposes hrows
  refine ⟨hrows, t, hread, ?_, ?_⟩
  · rw [ht]
    rfl
  · refine ((hfound "round").1 _).2
      ⟨[⟨"round", ["1", "2", "3"]⟩, ⟨"q2", ["20", "30"]⟩], [], ?_, rfl, by simp⟩
    rw [ht]
    rfl

end RunAudit.Metrics.Table
