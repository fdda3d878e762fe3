import SeqQuad.Proofs.Exact.Matrix

/-!
# Storage of a matrix made from its rows

A matrix that is made from its rows can be read everywhere, and a change on its pattern is a
change of each entry of its rows. Well-formed compressed rows, which leave no entry out and
overlap nowhere, are such a matrix.
-/

namespace SeqQuad.SparseMatrix

variable {α : Type}

/-- The entries of the rows in order, each with the number of its row. -/
def labelled (rs : List (List (ℕ × α))) : List (ℕ × ℕ × α) :=
  (rs.mapIdx fun i row => row.map fun e => (i, e)).flatten

/-- Compressed rows that cover the whole storage, one after another. -/
structure WellFormed (A : SparseMatrix α) : Prop where
  starts_pos : 0 < A.starts.size
  start_zero : A.start 0 = 0
  start_le : ∀ i < A.height, A.start i ≤ A.start (i + 1)
  start_height : A.start A.height = A.stored
  paired : A.columns.size = A.stored
  col_lt : ∀ j ∈ A.columns, j < A.cols

/-! ## Entries with their rows -/

theorem map_mapIdx {β γ δ : Type} (l : List β) (f : ℕ → β → γ) (g : γ → δ) :
    (l.mapIdx f).map g = l.mapIdx fun i b => g (f i b) := by
  apply List.ext_getElem <;> simp

theorem map_snd_labelled (rs : List (List (ℕ × α))) :
    (labelled rs).map Prod.snd = rs.flatten := by
  rw [labelled, List.map_flatten, map_mapIdx]
  congr 1
  apply List.ext_getElem <;> simp

theorem map_labelled {β : Type} (rs : List (List (ℕ × α))) (f : ℕ × α → β) :
    (labelled rs).map (fun p => f p.2) = rs.flatten.map f := by
  rw [← map_snd_labelled, List.map_map]
  rfl

theorem length_labelled (rs : List (List (ℕ × α))) :
    (labelled rs).length = rs.flatten.length := by
  rw [← map_snd_labelled, List.length_map]

/-- A list of rows is listed by row numbers as well. -/
theorem map_range_eq_mapIdx {β γ : Type} (rs : List β) (f : ℕ → γ) (g : ℕ → β → γ)
    (h : ∀ i (hi : i < rs.length), f i = g i rs[i]) :
    (List.range rs.length).map f = rs.mapIdx g := by
  apply List.ext_getElem
  · simp
  · intro i hi _
    simpa using h i (by simpa using hi)

/-! ## Reading -/

theorem size_columns_ofRows (cols : ℕ) (rs : List (List (ℕ × α))) :
    (ofRows cols rs).columns.size = rs.flatten.length := by
  rw [← Array.length_toList, toList_columns_ofRows, List.length_map]

theorem stored_ofRows (cols : ℕ) (rs : List (List (ℕ × α))) :
    (ofRows cols rs).stored = rs.flatten.length := by
  rw [stored, ← Array.length_toList, toList_values_ofRows, List.length_map]

theorem length_flatten_take_le {β : Type} (rs : List (List β)) (i : ℕ) :
    (rs.take i).flatten.length ≤ rs.flatten.length := by
  conv_rhs => rw [← List.take_append_drop i rs, List.flatten_append, List.length_append]
  omega

theorem endsBy_ofRows (cols : ℕ) (rs : List (List (ℕ × α))) {size : ℕ}
    (h : rs.flatten.length ≤ size) : (ofRows cols rs).EndsBy size := by
  intro i hi
  rw [height_ofRows] at hi
  right
  rw [start_ofRows cols rs hi]
  exact (length_flatten_take_le rs (i + 1)).trans h

theorem inBounds_ofRows (cols : ℕ) (rs : List (List (ℕ × α))) : (ofRows cols rs).InBounds := by
  apply endsBy_ofRows
  rw [size_columns_ofRows, stored_ofRows, min_self]

theorem sliceable_ofRows (cols : ℕ) (rs : List (List (ℕ × α))) : (ofRows cols rs).Sliceable := by
  intro i hi
  rw [height_ofRows] at hi
  rw [IsPart, start_ofRows cols rs hi.le, start_ofRows cols rs hi, size_columns_ofRows,
    stored_ofRows, min_self]
  refine ⟨?_, length_flatten_take_le rs (i + 1)⟩
  rw [List.take_succ_eq_append_getElem hi, List.flatten_append, List.length_append]
  omega

theorem readable_ofRows_iff {cols : ℕ} {rs : List (List (ℕ × α))} :
    (ofRows cols rs).Readable ↔ ∀ row ∈ rs, ∀ e ∈ row, e.1 < cols := by
  rw [Readable, rows_ofRows, cols_ofRows]
  exact ⟨fun h => h.2, fun h => ⟨inBounds_ofRows cols rs, h⟩⟩

/-! ## Changes on the pattern -/

theorem eq_ofRows {A : SparseMatrix α} {cols : ℕ} {rs : List (List (ℕ × α))}
    (hcols : A.cols = cols) (hstarts : A.starts.toList = 0 :: endsFrom 0 (rs.map List.length))
    (hcolumns : A.columns.toList = rs.flatten.map Prod.fst)
    (hvalues : A.values.toList = rs.flatten.map Prod.snd) : A = ofRows cols rs := by
  rcases A with ⟨c, starts, columns, values⟩
  have hs : starts = (ofRows cols rs).starts := by
    rw [← Array.toList_inj, toList_starts_ofRows]
    exact hstarts
  have hc : columns = (ofRows cols rs).columns := by
    rw [← Array.toList_inj, toList_columns_ofRows]
    exact hcolumns
  have hv : values = (ofRows cols rs).values := by
    rw [← Array.toList_inj, toList_values_ofRows]
    exact hvalues
  have hcol : c = (ofRows cols rs).cols := by
    rw [cols_ofRows]
    exact hcols
  rw [hs, hc, hv, hcol]

theorem rowColumns_ofRows (cols : ℕ) (rs : List (List (ℕ × α))) {i : ℕ} (h : i < rs.length) :
    (ofRows cols rs).rowColumns i = rs[i].map Prod.fst := by
  rw [rowColumns, Array.toList_extract, toList_columns_ofRows, extract_flatten_ofRows cols rs _ h]

theorem mem_positions_iff {A : SparseMatrix α} {i j : ℕ} :
    (i, j) ∈ A.positions ↔ i < A.height ∧ j ∈ A.rowColumns i := by
  simp only [positions, List.mem_flatMap, List.mem_range, List.mem_map, Prod.mk.injEq]
  constructor
  · rintro ⟨k, hk, c, hc, rfl, rfl⟩
    exact ⟨hk, hc⟩
  · rintro ⟨hi, hj⟩
    exact ⟨i, hi, j, hj, rfl, rfl⟩

theorem positions_ofRows (cols : ℕ) (rs : List (List (ℕ × α))) :
    (ofRows cols rs).positions = (labelled rs).map fun p => (p.1, p.2.1) := by
  rw [positions, List.flatMap_def, height_ofRows, labelled, List.map_flatten, map_mapIdx]
  congr 1
  apply map_range_eq_mapIdx
  intro i hi
  rw [rowColumns_ofRows cols rs hi, List.map_map, List.map_map]
  rfl

theorem mergeWith_map {β γ : Type} (f : α → β → α) (g : γ → α) (h : γ → β) (l : List γ) :
    Vec.mergeWith f (l.map g) (l.map h) = l.map fun c => f (g c) (h c) := by
  induction l with
  | nil => rfl
  | cons c l ih => simp [Vec.mergeWith, ih]

/-- A change on the pattern changes each entry of each row. -/
theorem mapStored_ofRows (cols : ℕ) (rs : List (List (ℕ × α))) (f : ℕ → ℕ → α → α) :
    (ofRows cols rs).mapStored f =
      ofRows cols (rs.mapIdx fun i row => row.map fun e => (e.1, f i e.1 e.2)) := by
  have hflat : (rs.mapIdx fun i row => row.map fun e => (e.1, f i e.1 e.2)).flatten =
      (labelled rs).map fun p => (p.2.1, f p.1 p.2.1 p.2.2) := by
    rw [labelled, List.map_flatten, map_mapIdx]
    congr 1
    apply List.ext_getElem <;> simp
  apply eq_ofRows
  · rw [cols_mapStored, cols_ofRows]
  · show (ofRows cols rs).starts.toList = _
    rw [toList_starts_ofRows, map_mapIdx]
    congr 2
    apply List.ext_getElem <;> simp
  · show (ofRows cols rs).columns.toList = _
    rw [toList_columns_ofRows, hflat, List.map_map]
    exact (map_labelled rs Prod.fst).symm
  · rw [mapStored, toList_values_ofRows, ← map_labelled, positions_ofRows, mergeWith_map, hflat,
      List.map_map]
    rfl

/-- A change on the pattern leaves what can be read. -/
theorem readable_mapStored_ofRows {cols : ℕ} {rs : List (List (ℕ × α))}
    (h : (ofRows cols rs).Readable) (f : ℕ → ℕ → α → α) :
    ((ofRows cols rs).mapStored f).Readable := by
  rw [readable_ofRows_iff] at h
  rw [mapStored_ofRows, readable_ofRows_iff]
  intro row hrow e he
  obtain ⟨i, hi, rfl⟩ := List.mem_mapIdx.mp hrow
  obtain ⟨e', he', rfl⟩ := List.mem_map.mp he
  exact h rs[i] (List.getElem_mem hi) e' he'

/-! ## Well-formed compressed rows -/

/-- Consecutive parts of a list make up its beginning. -/
theorem flatten_extract {β : Type} (l : List β) (s : ℕ → ℕ) (hs : s 0 = 0) (k : ℕ)
    (hmono : ∀ i < k, s i ≤ s (i + 1)) :
    ((List.range k).map fun i => l.extract (s i) (s (i + 1))).flatten = l.take (s k) := by
  induction k with
  | zero => simp [hs]
  | succ k ih =>
      have hle : s k ≤ s (k + 1) := hmono k (by omega)
      rw [List.range_succ, List.map_append, List.flatten_append,
        ih fun i hi => hmono i (by omega)]
      simp only [List.map_cons, List.map_nil, List.flatten_singleton, List.extract_eq_take_drop]
      conv_rhs => rw [← Nat.add_sub_cancel' hle, List.take_add]

namespace WellFormed

variable {A : SparseMatrix α} (h : A.WellFormed)
include h

theorem start_le_stored (k : ℕ) (hk : k ≤ A.height) : A.start k ≤ A.stored := by
  rw [← h.start_height]
  induction hk using Nat.decreasingInduction with
  | self => exact le_rfl
  | of_succ i hi ih => exact (h.start_le i hi).trans ih

theorem length_rowColumns {i : ℕ} (hi : i < A.height) :
    (A.rowColumns i).length = A.start (i + 1) - A.start i := by
  have hle : A.start (i + 1) ≤ A.columns.size := by
    rw [h.paired]
    exact h.start_le_stored (i + 1) hi
  rw [rowColumns, Array.length_toList, Array.size_extract, min_eq_left hle]

theorem length_rowValues {i : ℕ} (hi : i < A.height) :
    (A.rowValues i).length = A.start (i + 1) - A.start i := by
  have hle : A.start (i + 1) ≤ A.values.size := h.start_le_stored (i + 1) hi
  rw [rowValues, Array.length_toList, Array.size_extract, min_eq_left hle]

theorem map_fst_row {i : ℕ} (hi : i < A.height) : (A.row i).map Prod.fst = A.rowColumns i := by
  rw [row, List.map_fst_zip]
  rw [h.length_rowColumns hi, h.length_rowValues hi]

theorem map_snd_row {i : ℕ} (hi : i < A.height) : (A.row i).map Prod.snd = A.rowValues i := by
  rw [row, List.map_snd_zip]
  rw [h.length_rowColumns hi, h.length_rowValues hi]

omit h in
theorem map_flatten_rows {β : Type} (f : ℕ × α → β) (part : ℕ → List β)
    (hpart : ∀ i < A.height, (A.row i).map f = part i) :
    A.rows.flatten.map f = ((List.range A.height).map part).flatten := by
  rw [List.map_flatten, rows, List.map_map]
  congr 1
  apply List.map_congr_left
  intro i hi
  exact hpart i (List.mem_range.mp hi)

theorem flatten_rowColumns (k : ℕ) (hk : k ≤ A.height) :
    ((List.range k).map A.rowColumns).flatten = A.columns.toList.take (A.start k) := by
  rw [← flatten_extract A.columns.toList A.start h.start_zero k
    fun i hi => h.start_le i (by omega)]
  congr 2
  funext i
  rw [rowColumns, Array.toList_extract]

theorem columns_eq : A.columns.toList = A.rows.flatten.map Prod.fst := by
  rw [map_flatten_rows Prod.fst A.rowColumns fun i hi => h.map_fst_row hi,
    h.flatten_rowColumns A.height le_rfl, h.start_height, ← h.paired]
  simp

theorem values_eq : A.values.toList = A.rows.flatten.map Prod.snd := by
  rw [map_flatten_rows Prod.snd A.rowValues fun i hi => h.map_snd_row hi]
  have hv : A.rowValues = fun i => A.values.toList.extract (A.start i) (A.start (i + 1)) := by
    funext i
    rw [rowValues, Array.toList_extract]
  rw [hv, flatten_extract _ _ h.start_zero _ fun i hi => h.start_le i hi, h.start_height, stored]
  simp

theorem length_flatten_take_rows (k : ℕ) (hk : k ≤ A.height) :
    (A.rows.take k).flatten.length = A.start k := by
  have hmap : ((A.rows.take k).flatten.map Prod.fst) = A.columns.toList.take (A.start k) := by
    rw [← h.flatten_rowColumns k hk, List.map_flatten, rows, ← List.map_take, List.take_range,
      min_eq_left hk, List.map_map]
    congr 1
    apply List.map_congr_left
    intro i hi
    exact h.map_fst_row (by have := List.mem_range.mp hi; omega)
  rw [← List.length_map (f := Prod.fst), hmap, List.length_take, Array.length_toList, h.paired]
  exact min_eq_left (h.start_le_stored k hk)

theorem starts_eq : A.starts.toList = 0 :: endsFrom 0 (A.rows.map List.length) := by
  have hpos := h.starts_pos
  have hrows : A.rows.length = A.height := by simp [rows]
  apply List.ext_getElem?
  intro k
  by_cases hk : k ≤ A.height
  · rw [getElem?_cons_endsFrom 0 A.rows (by omega), h.length_flatten_take_rows k hk, zero_add,
      Array.getElem?_toList, start]
    have hlt : k < A.starts.size := by rw [height] at hk; omega
    simp [hlt]
  · rw [List.getElem?_eq_none, List.getElem?_eq_none]
    · simp [length_endsFrom, hrows]
      omega
    · rw [height] at hk
      simp
      omega

/-- Well-formed compressed rows are made from their rows. -/
theorem eq_ofRows_rows : A = ofRows A.cols A.rows :=
  eq_ofRows rfl h.starts_eq h.columns_eq h.values_eq

theorem readable : A.Readable := by
  rw [h.eq_ofRows_rows, readable_ofRows_iff]
  intro row hrow e he
  apply h.col_lt
  have hmem : e.1 ∈ A.columns.toList := by
    rw [h.columns_eq]
    exact List.mem_map_of_mem (List.mem_flatten_of_mem hrow he)
  simpa using hmem

end WellFormed

/-- A matrix that is made from rows covers its storage, if its columns are in range. -/
theorem wellFormed_ofRows {cols : ℕ} {rs : List (List (ℕ × α))}
    (h : ∀ row ∈ rs, ∀ e ∈ row, e.1 < cols) : (ofRows cols rs).WellFormed where
  starts_pos := by
    rw [← Array.length_toList, toList_starts_ofRows]
    simp
  start_zero := by
    rw [start_ofRows cols rs (Nat.zero_le _)]
    rfl
  start_le i hi := by
    rw [height_ofRows] at hi
    rw [start_ofRows cols rs hi.le, start_ofRows cols rs hi, List.take_succ_eq_append_getElem hi,
      List.flatten_append, List.length_append]
    omega
  start_height := by
    rw [height_ofRows, start_ofRows cols rs le_rfl, List.take_length, stored_ofRows]
  paired := by rw [size_columns_ofRows, stored_ofRows]
  col_lt j hj := by
    rw [← Array.mem_toList_iff, toList_columns_ofRows] at hj
    rcases List.mem_map.mp hj with ⟨e, he, rfl⟩
    rcases List.mem_flatten.mp he with ⟨row, hrow, hmem⟩
    rw [cols_ofRows]
    exact h row hrow e hmem

end SeqQuad.SparseMatrix
