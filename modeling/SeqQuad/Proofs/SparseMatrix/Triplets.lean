import SeqQuad.Proofs.SparseMatrix.Pattern
import SeqQuad.SparseMatrix.Assembly

/-!
# Triplets and assembly

The triplets of a matrix made from its rows are its entries in order. A matrix assembled from
triplets has increasing columns in every row, stores a position just when a triplet names it, and
stands for the sums of the triplets.
-/

namespace SeqQuad.SparseMatrix

open Extended

/-! ## Listing the entries -/

section Listing

variable {α : Type}

theorem getElem?_foldl_setIfInBounds (labels : Array ℕ) (i : ℕ) (ks : List ℕ) (p : ℕ) :
    (ks.foldl (fun acc k => acc.setIfInBounds k i) labels)[p]? =
      if p ∈ ks ∧ p < labels.size then some i else labels[p]? := by
  induction ks generalizing labels with
  | nil => simp
  | cons k ks ih =>
      rw [List.foldl_cons, ih, Array.size_setIfInBounds, Array.getElem?_setIfInBounds]
      by_cases hk : k = p <;> by_cases hp : p ∈ ks <;> by_cases hs : p < labels.size <;>
        simp_all [eq_comm]

theorem toList_label {labels : Array ℕ} {l m r : List ℕ} (i : ℕ)
    (h : labels.toList = l ++ m ++ r) :
    (label labels i l.length (l.length + m.length)).toList =
      l ++ List.replicate m.length i ++ r := by
  have hsize : labels.size = l.length + m.length + r.length := by
    rw [← Array.length_toList, h, List.length_append, List.length_append]
  apply List.ext_getElem?
  intro p
  rw [Array.getElem?_toList, label, getElem?_foldl_setIfInBounds, ← Array.getElem?_toList, h]
  have hmem : p ∈ List.range' l.length (min (l.length + m.length) labels.size - l.length) ↔
      l.length ≤ p ∧ p < l.length + m.length := by
    rw [List.mem_range'_1]
    omega
  simp only [hmem]
  by_cases hl : p < l.length
  · rw [if_neg (by omega), List.append_assoc, List.append_assoc, List.getElem?_append_left hl,
      List.getElem?_append_left hl]
  · by_cases hm : p < l.length + m.length
    · rw [if_pos (by omega), List.append_assoc, List.getElem?_append_right (by omega),
        List.getElem?_append_left (by simpa using by omega), List.getElem?_replicate,
        if_pos (by omega)]
    · rw [if_neg (by omega), List.getElem?_append_right (by simpa using by omega),
        List.getElem?_append_right (by simpa using by omega)]
      simp

theorem labelled_take_succ (rs : List (List (ℕ × α))) {k : ℕ} (h : k < rs.length) :
    labelled (rs.take (k + 1)) = labelled (rs.take k) ++ rs[k].map fun e => (k, e) := by
  have hk : (rs.take k).length = k := by simpa using h.le
  rw [List.take_succ_eq_append_getElem h, labelled, List.mapIdx_append, List.flatten_append,
    labelled, hk]
  simp

theorem length_labelled_take (cols : ℕ) (rs : List (List (ℕ × α))) {k : ℕ}
    (h : k ≤ rs.length) : (labelled (rs.take k)).length = (ofRows cols rs).start k := by
  rw [length_labelled, start_ofRows cols rs h]

/-- The labels after the first `k` rows: those rows are labelled, the rest is not yet. -/
theorem toList_foldl_label (cols : ℕ) (rs : List (List (ℕ × α))) (k : ℕ) (h : k ≤ rs.length) :
    ((List.range k).foldl
        (fun labels i => label labels i ((ofRows cols rs).start i) ((ofRows cols rs).start (i + 1)))
        (Array.replicate (ofRows cols rs).stored 0)).toList =
      (labelled (rs.take k)).map Prod.fst ++
        List.replicate ((rs.drop k).flatten.length) 0 := by
  induction k with
  | zero => simp [stored_ofRows, labelled]
  | succ k ih =>
      have hk : k < rs.length := h
      have hstart : (ofRows cols rs).start k =
          ((labelled (rs.take k)).map Prod.fst).length := by
        rw [List.length_map, length_labelled_take cols rs hk.le]
      have hnext : (ofRows cols rs).start (k + 1) =
          ((labelled (rs.take k)).map Prod.fst).length + (List.replicate rs[k].length 0).length := by
        rw [← length_labelled_take cols rs h, labelled_take_succ rs hk]
        simp
      have hdrop : (rs.drop k).flatten.length =
          rs[k].length + (rs.drop (k + 1)).flatten.length := by
        rw [List.drop_eq_getElem_cons hk, List.flatten_cons, List.length_append]
      have ih' := ih hk.le
      rw [hdrop, ← List.replicate_append_replicate, ← List.append_assoc] at ih'
      rw [List.range_succ, List.foldl_append, List.foldl_cons, List.foldl_nil, hstart, hnext,
        toList_label k ih', labelled_take_succ rs hk]
      simp

theorem rowLabels_ofRows (cols : ℕ) (rs : List (List (ℕ × α))) :
    (ofRows cols rs).rowLabels.toList = (labelled rs).map Prod.fst := by
  rw [rowLabels, height_ofRows, toList_foldl_label cols rs rs.length le_rfl]
  simp

theorem toTriplets_ofRows (cols : ℕ) (rs : List (List (ℕ × α))) :
    (ofRows cols rs).toTriplets = (labelled rs).map fun p => ⟨p.1, p.2.1, p.2.2⟩ := by
  rw [toTriplets, rowLabels_ofRows, toList_columns_ofRows, toList_values_ofRows, List.zip_map',
    ← map_labelled rs fun e => (e.1, e.2), List.zipWith_map, List.zipWith_self]

theorem flatten_mapIdx_ite {β γ : Type} (rs : List β) (i : ℕ) (g : β → List γ) :
    (rs.mapIdx fun k row => if k = i then g row else []).flatten = (rs[i]?.map g).getD [] := by
  induction rs generalizing i with
  | nil => simp
  | cons row rs ih =>
      rw [List.mapIdx_cons, List.flatten_cons]
      cases i with
      | zero => simp [List.mapIdx_eq_zipIdx_map]
      | succ i => simpa using ih i

/-- The triplets of one row are its entries. -/
theorem filter_toTriplets {A : SparseMatrix α} (h : A.WellFormed) {i : ℕ} (hi : i < A.height) :
    (A.toTriplets.filter fun t => t.row == i) = (A.row i).map fun e => ⟨i, e.1, e.2⟩ := by
  have hrow : A.rows[i]? = some (A.row i) := by simp [rows, hi]
  have hite : ∀ (k : ℕ) (row : List (ℕ × α)),
      ((row.map fun e => (⟨k, e.1, e.2⟩ : Triplet α)).filter fun t => t.row == i) =
        if k = i then row.map fun e => ⟨i, e.1, e.2⟩ else [] := by
    intro k row
    rw [List.filter_map]
    by_cases hk : k = i <;> simp [hk, Function.comp_def]
  rw [h.eq_ofRows_rows, toTriplets_ofRows, labelled, List.map_flatten, map_mapIdx,
    List.filter_flatten, map_mapIdx]
  simp only [List.map_map, Function.comp_def]
  simp only [hite]
  rw [flatten_mapIdx_ite, hrow, ← h.eq_ofRows_rows]
  rfl

/-- Every triplet lies in one of the rows. -/
theorem row_lt_of_mem_toTriplets {A : SparseMatrix α} (h : A.WellFormed) {t : Triplet α}
    (ht : t ∈ A.toTriplets) : t.row < A.height := by
  rw [h.eq_ofRows_rows, toTriplets_ofRows] at ht
  rcases List.mem_map.mp ht with ⟨⟨i, e⟩, hie, rfl⟩
  obtain ⟨row, hrow, hmem⟩ := List.mem_flatten.mp hie
  obtain ⟨k, hk, rfl⟩ := List.mem_mapIdx.mp hrow
  obtain ⟨e', -, he'⟩ := List.mem_map.mp hmem
  obtain ⟨rfl, -⟩ := Prod.mk.inj he'
  simpa [rows] using hk

theorem toTriplets?_eq_some {A : SparseMatrix α} {ts : List (Triplet α)}
    (h : A.toTriplets? = some ts) : A.toTriplets = ts := by
  unfold toTriplets? at h
  exact (Option.ite_none_right_eq_some.mp h).2 |> Option.some.inj

end Listing

/-! ## Adding up a row -/

section Accumulate

variable {α : Type} [Scalar α]

/-- The columns of a row increase. -/
def Increasing (row : List (ℕ × α)) : Prop :=
  row.Pairwise fun e e' => e.1 < e'.1

/-- The row that a list of triplets adds up to. -/
def gather (ts : List (Triplet α)) : List (ℕ × α) :=
  ts.foldl (fun row t => accumulate row t.col t.value) []

theorem mem_map_fst_accumulate {row : List (ℕ × α)} {j : ℕ} {v : α} {c : ℕ} :
    c ∈ (accumulate row j v).map Prod.fst ↔ c = j ∨ c ∈ row.map Prod.fst := by
  induction row with
  | nil => simp [accumulate]
  | cons e row ih =>
      rcases e with ⟨k, w⟩
      rw [accumulate]
      split
      · simp
      · split
        case isTrue hjk => simp [hjk]
        case isFalse => simp only [List.map_cons, List.mem_cons, ih]; tauto

theorem Increasing.accumulate {row : List (ℕ × α)} (h : Increasing row) (j : ℕ) (v : α) :
    Increasing (accumulate row j v) := by
  induction row with
  | nil => simp [Increasing, SparseMatrix.accumulate]
  | cons e row ih =>
      rcases e with ⟨k, w⟩
      rcases List.pairwise_cons.mp h with ⟨hk, hrow⟩
      rw [SparseMatrix.accumulate]
      split
      case isTrue hjk =>
        refine List.pairwise_cons.mpr ⟨?_, h⟩
        rintro e' (_ | ⟨_, he'⟩)
        · exact hjk
        · exact hjk.trans (hk e' he')
      case isFalse hkj =>
        split
        case isTrue => exact List.pairwise_cons.mpr ⟨hk, hrow⟩
        case isFalse hne =>
          refine List.pairwise_cons.mpr ⟨?_, ih hrow⟩
          intro e' he'
          have hcol := mem_map_fst_accumulate.mp (List.mem_map_of_mem (f := Prod.fst) he')
          rcases hcol with hj | hmem
          · show k < e'.1
            omega
          · rcases List.mem_map.mp hmem with ⟨e'', he'', hfst⟩
            show k < e'.1
            rw [← hfst]
            exact hk e'' he''

theorem increasing_foldl_accumulate {ts : List (Triplet α)} {row : List (ℕ × α)}
    (h : Increasing row) :
    Increasing (ts.foldl (fun row t => accumulate row t.col t.value) row) := by
  induction ts generalizing row with
  | nil => exact h
  | cons t ts ih => exact ih (h.accumulate t.col t.value)

theorem increasing_gather (ts : List (Triplet α)) : Increasing (gather ts) :=
  increasing_foldl_accumulate List.Pairwise.nil

theorem mem_map_fst_foldl_accumulate {ts : List (Triplet α)} {row : List (ℕ × α)} {c : ℕ} :
    c ∈ (ts.foldl (fun row t => accumulate row t.col t.value) row).map Prod.fst ↔
      c ∈ row.map Prod.fst ∨ ∃ t ∈ ts, t.col = c := by
  induction ts generalizing row with
  | nil => simp
  | cons t ts ih =>
      rw [List.foldl_cons, ih, mem_map_fst_accumulate]
      simp only [List.mem_cons, exists_eq_or_imp, eq_comm (a := c)]
      tauto

theorem mem_map_fst_gather {ts : List (Triplet α)} {c : ℕ} :
    c ∈ (gather ts).map Prod.fst ↔ ∃ t ∈ ts, t.col = c := by
  rw [gather, mem_map_fst_foldl_accumulate]
  simp

theorem row_ofTriplets {height cols : ℕ} {ts : List (Triplet α)} {i : ℕ} (h : i < height) :
    (ofTriplets height cols ts).row i = gather (ts.filter fun t => t.row == i) := by
  have hsome : (addTriplets (Array.replicate height []) ts)[i]? =
      some (gather (ts.filter fun t => t.row == i)) := by
    rw [getElem?_addTriplets]
    simp [h, gather]
  rw [← Array.getElem?_toList, List.getElem?_eq_some_iff] at hsome
  rcases hsome with ⟨hi, hrow⟩
  rw [ofTriplets_eq_ofRows, row_ofRows _ _ hi, hrow]

theorem increasing_row_ofTriplets {height cols : ℕ} {ts : List (Triplet α)} :
    ∀ row ∈ (ofTriplets height cols ts).rows, Increasing row := by
  intro row hrow
  obtain ⟨i, hi, rfl⟩ := mem_rows.mp hrow
  rw [height_ofTriplets] at hi
  rw [row_ofTriplets hi]
  exact increasing_gather _

theorem wellFormed_ofTriplets {height cols : ℕ} {ts : List (Triplet α)}
    (hcol : ∀ t ∈ ts, t.col < cols) : (ofTriplets height cols ts).WellFormed := by
  have hrows : ∀ row ∈ (ofTriplets height cols ts).rows, ∀ e ∈ row, e.1 < cols := by
    intro row hrow e he
    obtain ⟨i, hi, rfl⟩ := mem_rows.mp hrow
    rw [height_ofTriplets] at hi
    rw [row_ofTriplets hi] at he
    obtain ⟨t, ht, hfst⟩ := mem_map_fst_gather.mp (List.mem_map_of_mem (f := Prod.fst) he)
    rw [← hfst]
    exact hcol t (List.mem_of_mem_filter ht)
  rw [rows_ofTriplets] at hrows
  rw [ofTriplets_eq_ofRows]
  exact wellFormed_ofRows hrows

/-- A position is stored just when a triplet names it. -/
theorem mem_positions_ofTriplets {height cols : ℕ} {ts : List (Triplet α)}
    (hcol : ∀ t ∈ ts, t.col < cols) {i j : ℕ} (hi : i < height) :
    (i, j) ∈ (ofTriplets height cols ts).positions ↔ ∃ t ∈ ts, t.row = i ∧ t.col = j := by
  have hheight : i < (ofTriplets height cols ts).height := by rwa [height_ofTriplets]
  rw [mem_positions_iff, ← (wellFormed_ofTriplets hcol).map_fst_row hheight, row_ofTriplets hi,
    mem_map_fst_gather]
  simp [hi, and_assoc]

end Accumulate

/-! ## The meaning of an assembled matrix -/

theorem isReal_accumulate {row : List (ℕ × Extended)} (hrow : ∀ e ∈ row, e.2.IsReal) {j : ℕ}
    {v : Extended} (hv : v.IsReal) : ∀ e ∈ accumulate row j v, e.2.IsReal := by
  induction row with
  | nil => simpa [accumulate] using hv
  | cons e row ih =>
      rcases e with ⟨k, w⟩
      rcases List.forall_mem_cons.mp hrow with ⟨hw, hrow'⟩
      rw [accumulate]
      split
      · exact List.forall_mem_cons.mpr ⟨hv, hrow⟩
      · split
        · exact List.forall_mem_cons.mpr ⟨isReal_add_iff.mpr ⟨hw, hv⟩, hrow'⟩
        · exact List.forall_mem_cons.mpr ⟨hw, ih hrow'⟩

theorem rowEntry_accumulate {row : List (ℕ × Extended)} (hrow : ∀ e ∈ row, e.2.IsReal) {j : ℕ}
    {v : Extended} (hv : v.IsReal) (c : ℕ) :
    rowEntry (accumulate row j v) c = rowEntry row c + if j = c then v.toReal else 0 := by
  induction row with
  | nil => simp [accumulate, rowEntry]
  | cons e row ih =>
      rcases e with ⟨k, w⟩
      rcases List.forall_mem_cons.mp hrow with ⟨⟨w, rfl⟩, hrow'⟩
      rcases hv with ⟨v, rfl⟩
      rw [accumulate]
      split
      · simp only [rowEntry_cons]
        ring
      · split
        case isTrue hjk =>
          simp only [rowEntry_cons, hjk, real_add_real, toReal_real]
          split <;> ring
        case isFalse =>
          rw [rowEntry_cons, ih hrow', rowEntry_cons]
          ring

/-- A row that is added up stands for the sums of its triplets. -/
theorem rowEntry_foldl_accumulate {ts : List (Triplet Extended)} {row : List (ℕ × Extended)}
    (hts : ∀ t ∈ ts, t.value.IsReal) (hrow : ∀ e ∈ row, e.2.IsReal) (c : ℕ) :
    (∀ e ∈ ts.foldl (fun row t => accumulate row t.col t.value) row, e.2.IsReal) ∧
      rowEntry (ts.foldl (fun row t => accumulate row t.col t.value) row) c =
        rowEntry row c + (ts.map fun t => if t.col = c then t.value.toReal else 0).sum := by
  induction ts generalizing row with
  | nil => exact ⟨hrow, by simp⟩
  | cons t ts ih =>
      rcases List.forall_mem_cons.mp hts with ⟨ht, hts⟩
      have hnext := ih hts (isReal_accumulate hrow ht (j := t.col))
      refine ⟨hnext.1, ?_⟩
      rw [List.foldl_cons, hnext.2, rowEntry_accumulate hrow ht, List.map_cons, List.sum_cons,
        add_assoc]

section Gather

variable {ts : List (Triplet Extended)} (hts : ∀ t ∈ ts, t.value.IsReal)
include hts

theorem isReal_gather : ∀ e ∈ gather ts, e.2.IsReal :=
  (rowEntry_foldl_accumulate hts (List.forall_mem_nil _) 0).1

theorem rowEntry_gather (c : ℕ) :
    rowEntry (gather ts) c = (ts.map fun t => if t.col = c then t.value.toReal else 0).sum := by
  rw [gather, (rowEntry_foldl_accumulate hts (by simp) c).2, rowEntry_nil, zero_add]

end Gather

theorem isReal_of_rows {cols : ℕ} {rs : List (List (ℕ × Extended))}
    (h : ∀ row ∈ rs, ∀ e ∈ row, e.2.IsReal) : (ofRows cols rs).IsReal := by
  intro v hv
  rw [← Array.mem_toList_iff, toList_values_ofRows] at hv
  rcases List.mem_map.mp hv with ⟨e, he, rfl⟩
  rcases List.mem_flatten.mp he with ⟨row, hrow, hmem⟩
  exact h row hrow e hmem

end SeqQuad.SparseMatrix
