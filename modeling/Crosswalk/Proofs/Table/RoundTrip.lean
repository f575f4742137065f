import Crosswalk.Table

/-!
# Reading back a written table

A field that is written without quotes holds no character that the reader minds, and in a field that
is written in quotes every quote is doubled, so that the reader finds its end. Hence the records of a
text are those that were written, whether a line feed or a carriage return and a line feed ends each
of them. A table comes back with its headers trimmed and without its blank rows.
-/

namespace Crosswalk

namespace Csv

/-! ### Fields -/

/-- Outside quotes a character that stands for itself is taken over. -/
theorem readPlain_cons {c : Char} (hc : needsQuotes [c] = false) (field : List Char)
    (record : List (List Char)) (rest : List Char) :
    readPlain field record (c :: rest) = readPlain (c :: field) record rest := by
  simp only [needsQuotes, List.any_cons, List.any_nil, Bool.or_false, Bool.or_eq_false_iff,
    decide_eq_false_iff_not] at hc
  obtain ⟨⟨⟨hcomma, hquote⟩, hfeed⟩, hreturn⟩ := hc
  simp [readPlain, hcomma, hquote, hfeed, hreturn]

theorem readPlain_append {cs : List Char} (hcs : needsQuotes cs = false) (field : List Char)
    (record : List (List Char)) (rest : List Char) :
    readPlain field record (cs ++ rest) = readPlain (cs.reverse ++ field) record rest := by
  induction cs generalizing field with
  | nil => rfl
  | cons c cs ih =>
    have hboth : needsQuotes [c] = false ∧ needsQuotes cs = false := by
      simpa [needsQuotes] using hcs
    rw [List.cons_append, readPlain_cons hboth.1, ih hboth.2, List.reverse_cons,
      List.append_assoc]
    rfl

/-- Inside quotes, doubled quotes are read up to the single one that ends the quoted part. -/
theorem readQuoted_doubleQuotes {rest : List Char} (hrest : rest.head? ≠ some '"')
    (cs field : List Char) (record : List (List Char)) :
    readQuoted field record (doubleQuotes cs ++ '"' :: rest) =
      readPlain (cs.reverse ++ field) record rest := by
  induction cs generalizing field with
  | nil =>
    cases rest with
    | nil => simp [doubleQuotes, readQuoted]
    | cons c cs =>
      have hc : c ≠ '"' := fun h => hrest (congrArg some h)
      simp [doubleQuotes, readQuoted, hc]
  | cons c cs ih =>
    have hnext := ih (c :: field)
    rw [List.reverse_cons, List.append_assoc]
    by_cases hc : c = '"'
    · subst hc
      exact hnext
    · have hone : doubleQuotes (c :: cs) = c :: doubleQuotes cs := by
        simp [doubleQuotes, hc]
      rw [hone, List.cons_append, readQuoted, if_neg hc]
      · exact hnext
      · intro _ h
        exact absurd h hc

/-- A written field is read to its end, unless a quote follows it. -/
theorem readPlain_writeField {rest : List Char} (hrest : rest.head? ≠ some '"') (cs : List Char)
    (record : List (List Char)) :
    readPlain [] record (writeField cs ++ rest) = readPlain cs.reverse record rest := by
  unfold writeField
  by_cases hquotes : needsQuotes cs = true
  · have hopen : ∀ text, readPlain [] record ('"' :: text) = readQuoted [] record text :=
      fun text => by simp [readPlain]
    rw [if_pos hquotes, List.append_assoc, List.cons_append, hopen,
      List.singleton_append, readQuoted_doubleQuotes hrest, List.append_nil]
  · rw [Bool.not_eq_true] at hquotes
    rw [hquotes, if_neg Bool.false_ne_true, readPlain_append hquotes, List.append_nil]

/-! ### Records -/

/-- The ends that a record may have. -/
def IsEnding (ending : List Char) : Prop :=
  ending = ['\n'] ∨ ending = ['\r', '\n']

theorem IsEnding.head?_ne {ending : List Char} (h : IsEnding ending) (rest : List Char) :
    (ending ++ rest).head? ≠ some '"' := by
  rcases h with rfl | rfl <;> simp

theorem readPlain_ending {ending : List Char} (h : IsEnding ending) (field : List Char)
    (record : List (List Char)) (rest : List Char) :
    readPlain field record (ending ++ rest) =
      (readPlain [] [] rest).map ((field.reverse :: record).reverse :: ·) := by
  rcases h with rfl | rfl <;> simp [readPlain]

theorem readPlain_writeRecord {ending : List Char} (h : IsEnding ending)
    {fields : List (List Char)} (hfields : fields ≠ []) (record : List (List Char))
    (rest : List Char) :
    readPlain [] record (writeRecord ending fields ++ rest) =
      (readPlain [] [] rest).map ((record.reverse ++ fields) :: ·) := by
  induction fields generalizing record with
  | nil => exact absurd rfl hfields
  | cons field fields ih =>
    cases fields with
    | nil =>
      rw [writeRecord, List.append_assoc, readPlain_writeField (h.head?_ne rest),
        readPlain_ending h, List.reverse_reverse, List.reverse_cons]
    | cons next fields =>
      have hcomma : ∀ text, readPlain field.reverse record (',' :: text) =
          readPlain [] (field :: record) text := fun text => by simp [readPlain]
      rw [writeRecord, List.append_assoc, List.cons_append,
        readPlain_writeField (by simp), hcomma, ih (List.cons_ne_nil next fields),
        List.reverse_cons, List.append_assoc, List.singleton_append]

theorem readPlain_writeRecords {ending : List Char} (h : IsEnding ending)
    {records : List (List (List Char))} (hrecords : ∀ record ∈ records, record ≠ []) :
    readPlain [] [] (records.flatMap (writeRecord ending)) = .ok records := by
  induction records with
  | nil => rfl
  | cons record records ih =>
    have hrest := ih fun r hr => hrecords r (List.mem_cons_of_mem _ hr)
    rw [List.flatMap_cons, readPlain_writeRecord h (hrecords record List.mem_cons_self), hrest]
    rfl

/-- Records that have a field each are read back, whichever of the two ends they were given. -/
theorem read_writeWith {ending : List Char} (h : IsEnding ending) {records : List (List String)}
    (hrecords : ∀ record ∈ records, record ≠ []) : read (writeWith ending records) = .ok records := by
  have hchars : ∀ record ∈ records.map (fun record => record.map String.toList), record ≠ [] := by
    intro record hr
    obtain ⟨fields, hfields, rfl⟩ := List.mem_map.1 hr
    exact fun hnil => hrecords fields hfields (List.map_eq_nil_iff.1 hnil)
  have hread := readPlain_writeRecords h hchars
  rw [List.flatMap_map] at hread
  unfold read writeWith
  rw [String.toList_ofList, hread]
  show Except.ok ((records.map _).map _) = _
  rw [List.map_map]
  refine congrArg _ ((List.map_congr_left fun record _ => ?_).trans (List.map_id records))
  show (record.map String.toList).map String.ofList = record
  rw [List.map_map]
  refine (List.map_congr_left fun s _ => ?_).trans (List.map_id record)
  exact String.ofList_toList

end Csv

namespace Table

/-! ### The byte order mark -/

theorem dropMark_eq_self {s : String} (h : s.toList.head? ≠ some '\uFEFF') : dropMark s = s := by
  unfold dropMark
  split
  · rename_i cs hcs
    rw [hcs] at h
    exact absurd rfl h
  · rfl

/-- A text of records starts with a byte order mark only if its first field does. -/
theorem dropMark_writeWith {ending : List Char} (h : Csv.IsEnding ending) {header : String}
    (hmark : header.toList.head? ≠ some '\uFEFF') (headers : List String)
    (rows : List (List String)) :
    dropMark (Csv.writeWith ending ((header :: headers) :: rows)) =
      Csv.writeWith ending ((header :: headers) :: rows) := by
  apply dropMark_eq_self
  rw [Csv.writeWith, String.toList_ofList, List.flatMap_cons]
  have hfield : ∀ after : List Char, after.head? ≠ some '\uFEFF' →
      (Csv.writeField header.toList ++ after).head? ≠ some '\uFEFF' := by
    intro after hafter
    unfold Csv.writeField
    split
    · simp
    · cases hchars : header.toList with
      | nil => exact hafter
      | cons c cs => rwa [hchars] at hmark
  cases headers with
  | nil =>
    rw [List.map_cons, List.map_nil, Csv.writeRecord, List.append_assoc]
    apply hfield
    rcases h with rfl | rfl <;> simp
  | cons next headers =>
    rw [List.map_cons, List.map_cons, Csv.writeRecord, List.append_assoc]
    apply hfield
    simp

/-! ### Rows -/

/-- A row that is pushed is stored at the width of the headers. -/
theorem push_ok {t u : Table} {row : List String} (h : t.push row = .ok u) :
    u.headers = t.headers ∧ u.rows = t.rows ++ [fit t.headers.length row] := by
  unfold push at h
  split at h
  · cases h
  · cases h
    exact ⟨rfl, rfl⟩

theorem foldlM_push_ok {rows : List (List String)} {t u : Table}
    (h : rows.foldlM push t = .ok u) :
    u.headers = t.headers ∧ u.rows = t.rows ++ rows.map (fit t.headers.length) := by
  induction rows generalizing t with
  | nil =>
    cases h
    exact ⟨rfl, (List.append_nil _).symm⟩
  | cons row rows ih =>
    rw [List.foldlM_cons] at h
    cases hrow : t.push row with
    | error fault =>
      rw [hrow] at h
      cases h
    | ok t' =>
      rw [hrow] at h
      obtain ⟨hheaders, hrows⟩ := push_ok hrow
      obtain ⟨hheaders', hrows'⟩ := ih h
      rw [hheaders] at hheaders' hrows'
      refine ⟨hheaders', ?_⟩
      rw [hrows', hrows, List.append_assoc]
      rfl

/-- Records that are as wide as the headers are all accepted, and the blank ones are left out. -/
theorem pushRecords_eq {records : List (List String)} {t : Table} (number : Nat)
    (h : ∀ record ∈ records, record.length = t.headers.length) :
    ∃ u, t.pushRecords number records = .ok u ∧ u.headers = t.headers ∧
      u.rows = t.rows ++ records.filter fun record => !record.all (· = "") := by
  induction records generalizing t number with
  | nil => exact ⟨t, rfl, rfl, (List.append_nil _).symm⟩
  | cons record records ih =>
    have hwidth := h record List.mem_cons_self
    have hrest : ∀ r ∈ records, r.length = t.headers.length := fun r hr =>
      h r (List.mem_cons_of_mem _ hr)
    rw [pushRecords]
    by_cases hblank : record.all (· = "") = true
    · obtain ⟨u, hu, hheaders, hrows⟩ := ih (number + 1) hrest
      refine ⟨u, ?_, hheaders, ?_⟩
      · rw [if_pos hblank]
        exact hu
      · rw [hrows, List.filter_cons_of_neg (by simp [hblank])]
    · have hpush : t.push record = .ok (t.pushFitted record) := by
        unfold push
        rw [List.drop_of_length_le (Nat.le_of_eq hwidth)]
        rfl
      obtain ⟨u, hu, hheaders, hrows⟩ := ih (t := t.pushFitted record) (number + 1) hrest
      refine ⟨u, ?_, hheaders, ?_⟩
      · rw [if_neg hblank, hpush]
        exact hu
      · have hpushed : (t.pushFitted record).rows = t.rows ++ [record] :=
          congrArg (fun row => t.rows ++ [row]) (fit_eq_self hwidth)
        rw [hrows, hpushed, List.append_assoc,
          List.filter_cons_of_pos (by simpa using hblank)]
        rfl

/-! ### The round trip -/

/-- A text of the headers and rows of a table is read as the table with its headers trimmed and
without its blank rows. -/
theorem ofCsv_writeWith {ending : List Char} (h : Csv.IsEnding ending) {t : Table}
    {header : String} {headers : List String} (hheaders : t.headers = header :: headers)
    (hmark : header.toList.head? ≠ some '\uFEFF') :
    ∃ u, (ofHeaders (t.headers.map Text.trim)).pushRecords 2 t.rows = .ok u ∧
      ofCsv (Csv.writeWith ending (t.headers :: t.rows)) = .ok u ∧
      u.headers = t.headers.map Text.trim ∧
      u.rows = t.rows.filter fun row => !row.all (· = "") := by
  have hwidths : ∀ row ∈ t.rows,
      row.length = (ofHeaders (t.headers.map Text.trim)).headers.length := by
    intro row hrow
    rw [ofHeaders, List.length_map]
    exact t.widths row hrow
  have hnonempty : ∀ record ∈ t.headers :: t.rows, record ≠ [] := by
    intro record hr hnil
    have hlength : record.length = t.headers.length := by
      rcases List.mem_cons.1 hr with rfl | hr
      · rfl
      · exact t.widths record hr
    rw [hnil, hheaders] at hlength
    cases hlength
  obtain ⟨u, hu, huheaders, hurows⟩ := pushRecords_eq 2 hwidths
  refine ⟨u, hu, ?_, huheaders, hurows⟩
  have hread := Csv.read_writeWith h hnonempty
  unfold ofCsv
  rw [hheaders, dropMark_writeWith h hmark, ← hheaders, hread]
  exact hu

/-- A table that has been filled row by row is read back from its text: each header trimmed, each
row that is not blank cell for cell. It does not matter which of the two ends the records have. -/
theorem ofCsv_toCsv {header : String} {headers : List String} {rows : List (List String)}
    {t : Table} (hmark : header.toList.head? ≠ some '\uFEFF')
    (hpush : rows.foldlM push (ofHeaders (header :: headers)) = .ok t) :
    t.headers = header :: headers ∧ t.rows = rows.map (fit (header :: headers).length) ∧
      ∃ u, ofCsv t.toCsv = .ok u ∧
        ofCsv (Csv.writeWith ['\r', '\n'] (t.headers :: t.rows)) = .ok u ∧
        u.headers = t.headers.map Text.trim ∧
        u.rows = t.rows.filter fun row => !row.all (· = "") := by
  obtain ⟨hheaders, hrows⟩ := foldlM_push_ok hpush
  refine ⟨hheaders, hrows, ?_⟩
  obtain ⟨u, hu, hfeed, huheaders, hurows⟩ := ofCsv_writeWith (.inl rfl) hheaders hmark
  obtain ⟨v, hv, hreturn, -⟩ := ofCsv_writeWith (.inr rfl) hheaders hmark
  obtain rfl : u = v := Except.ok.inj (hu.symm.trans hv)
  exact ⟨u, hfeed, hreturn, huheaders, hurows⟩

/-- Cells with quotes, both ends of records and nothing; a blank row, a short one and one with a
surplus of empty cells. -/
theorem ofCsv_toCsv_of_special_cells :
    "name, kind".toList.head? ≠ some '\uFEFF' ∧
      ∃ t, [["\"a\"\"", "b\r\nc"], ["", ""], ["\r"], [" ", "", ""]].foldlM push
          (ofHeaders ["name, kind", " note "]) = .ok t ∧
        ∃ u, ofCsv t.toCsv = .ok u ∧
          ofCsv (Csv.writeWith ['\r', '\n'] (t.headers :: t.rows)) = .ok u ∧
          u.headers = ["name, kind", "note"] ∧
          u.rows = [["\"a\"\"", "b\r\nc"], ["\r", ""], [" ", ""]] := by
  have hmark : "name, kind".toList.head? ≠ some '\uFEFF' := by decide
  have hpush : [["\"a\"\"", "b\r\nc"], ["", ""], ["\r"], [" ", "", ""]].foldlM push
      (ofHeaders ["name, kind", " note "]) = .ok ⟨["name, kind", " note "],
        [["\"a\"\"", "b\r\nc"], ["", ""], ["\r", ""], [" ", ""]], by decide⟩ := by
    rfl
  obtain ⟨-, -, u, hu, hreturn, hheaders, hrows⟩ := ofCsv_toCsv hmark hpush
  refine ⟨hmark, _, hpush, u, hu, hreturn, hheaders.trans ?_, hrows.trans ?_⟩
  · decide
  · decide

end Table

end Crosswalk
