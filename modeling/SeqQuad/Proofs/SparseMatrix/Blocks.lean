import SeqQuad.LinearSystem
import SeqQuad.Proofs.SparseMatrix.Triplets

/-!
# Blocks of a bordered matrix

Triplets stand for the dense matrix of their sums, whatever rows they come from. A block with a
border of rows and of their transpose, assembled from triplets, stands for the block matrix, and
its rows are its columns when the block is symmetric.
-/

namespace SeqQuad.SparseMatrix

open Extended Matrix

/-! ## Sums at a position -/

/-- What a list of triplets adds up to at one position. -/
noncomputable def entrySum (ts : List (Triplet Extended)) (i j : ℕ) : ℝ :=
  (ts.map fun t => if t.row = i ∧ t.col = j then t.value.toReal else 0).sum

/-- The dense matrix that a list of triplets adds up to. -/
noncomputable def denseTriplets (m n : ℕ) (ts : List (Triplet Extended)) :
    Matrix (Fin m) (Fin n) ℝ :=
  Matrix.of fun i j => entrySum ts i j

/-- The dense matrix with the given sparse rows. -/
noncomputable def denseRows (m n : ℕ) (rs : List (List (ℕ × Extended))) :
    Matrix (Fin m) (Fin n) ℝ :=
  Matrix.of fun i j => rowEntry (rs.getD i []) j

theorem dense_eq_denseRows {A : SparseMatrix Extended} {m n : ℕ} (h : A.height = m) :
    A.dense m n = denseRows m n A.rows := by
  funext i j
  have hi : (i : ℕ) < A.height := h ▸ i.isLt
  simp [dense, denseRows, rows, hi]

section Sums

variable (i j : ℕ)

@[simp]
theorem entrySum_nil : entrySum [] i j = 0 :=
  rfl

theorem entrySum_cons (t : Triplet Extended) (ts : List (Triplet Extended)) :
    entrySum (t :: ts) i j =
      (if t.row = i ∧ t.col = j then t.value.toReal else 0) + entrySum ts i j :=
  rfl

theorem entrySum_append (ts us : List (Triplet Extended)) :
    entrySum (ts ++ us) i j = entrySum ts i j + entrySum us i j := by
  simp [entrySum]

theorem entrySum_flatten (ls : List (List (Triplet Extended))) :
    entrySum ls.flatten i j = (ls.map fun ts => entrySum ts i j).sum := by
  induction ls with
  | nil => rfl
  | cons ts ls ih => rw [List.flatten_cons, entrySum_append, ih, List.map_cons, List.sum_cons]

theorem entrySum_flatMap {β : Type} (l : List β) (f : β → List (Triplet Extended)) :
    entrySum (l.flatMap f) i j = (l.map fun b => entrySum (f b) i j).sum := by
  rw [List.flatMap_def, entrySum_flatten, List.map_map]
  rfl

/-- Nothing is added at a position that no triplet names. -/
theorem entrySum_eq_zero {ts : List (Triplet Extended)} (h : ∀ t ∈ ts, t.row = i → t.col ≠ j) :
    entrySum ts i j = 0 := by
  apply List.sum_eq_zero
  intro a ha
  obtain ⟨t, ht, rfl⟩ := List.mem_map.mp ha
  exact if_neg fun hpos => h t ht hpos.1 hpos.2

theorem entrySum_zeroDiagonal (n : ℕ) : entrySum (zeroDiagonal n) i j = 0 := by
  apply List.sum_eq_zero
  intro a ha
  obtain ⟨t, ht, rfl⟩ := List.mem_map.mp ha
  obtain ⟨k, -, rfl⟩ := List.mem_map.mp ht
  simp

/-- The sum at a position takes the triplets of its row only. -/
theorem entrySum_eq_sum_filter (ts : List (Triplet Extended)) :
    entrySum ts i j = ((ts.filter fun t => t.row == i).map fun t =>
      if t.col = j then t.value.toReal else 0).sum := by
  induction ts with
  | nil => rfl
  | cons t ts ih =>
      rw [entrySum_cons, ih, List.filter_cons]
      by_cases hrow : t.row = i <;> simp [hrow]

end Sums

/-- An assembled row stands for the sums of the triplets at its positions. -/
theorem rowEntry_ofTriplets {height cols : ℕ} {ts : List (Triplet Extended)}
    (hts : ∀ t ∈ ts, t.value.IsReal) {i : ℕ} (hi : i < height) (j : ℕ) :
    rowEntry ((ofTriplets height cols ts).row i) j = entrySum ts i j := by
  rw [row_ofTriplets hi, rowEntry_gather fun t ht => hts t (List.mem_of_mem_filter ht),
    entrySum_eq_sum_filter]

/-- The triplets of a matrix add up to what it stands for. -/
theorem entrySum_toTriplets {A : SparseMatrix Extended} (hA : A.WellFormed) {i : ℕ}
    (hi : i < A.height) (j : ℕ) : entrySum A.toTriplets i j = rowEntry (A.row i) j := by
  rw [entrySum_eq_sum_filter, filter_toTriplets hA hi, List.map_map]
  rfl

/-- The triplets of a matrix hold its values, at columns that it has. -/
theorem mem_toTriplets {α : Type} {A : SparseMatrix α} (hA : A.WellFormed) {t : Triplet α}
    (ht : t ∈ A.toTriplets) : t.row < A.height ∧ t.col < A.cols ∧ t.value ∈ A.values := by
  have hrow := row_lt_of_mem_toTriplets hA ht
  have hmem : t ∈ A.toTriplets.filter fun u => u.row == t.row :=
    List.mem_filter.mpr ⟨ht, beq_self_eq_true _⟩
  rw [filter_toTriplets hA hrow] at hmem
  obtain ⟨e, he, htrip⟩ := List.mem_map.mp hmem
  rw [← htrip]
  exact ⟨hrow, hA.readable.col_lt hrow e he, value_mem_of_mem_row he⟩

/-! ## Rows times rows -/

/-- Scaled entries of one row, all in the row `k` of a matrix. -/
theorem entrySum_map_scaled {row : List (ℕ × Extended)} (hrow : ∀ e ∈ row, e.2.IsReal)
    {c : Extended} (hc : c.IsReal) (k i j : ℕ) :
    entrySum (row.map fun e => ⟨k, e.1, c * e.2⟩) i j =
      (if k = i then c.toReal else 0) * rowEntry row j := by
  induction row with
  | nil => simp
  | cons e row ih =>
      obtain ⟨⟨v, hv⟩, hrow⟩ := List.forall_mem_cons.mp hrow
      obtain ⟨c, rfl⟩ := hc
      rw [List.map_cons, entrySum_cons, ih hrow, rowEntry_cons, hv]
      by_cases hk : k = i <;> by_cases hj : e.1 = j <;> simp [hk, hj, mul_add]

/-- All products of two entries of a row add up to the products of its sums. -/
theorem entrySum_outer {row : List (ℕ × Extended)} (hrow : ∀ e ∈ row, e.2.IsReal)
    {d : Extended} (hd : d.IsReal) (i j : ℕ) :
    entrySum (row.flatMap fun a => row.map fun b => ⟨a.1, b.1, d * a.2 * b.2⟩) i j =
      d.toReal * rowEntry row i * rowEntry row j := by
  have hinner : (row.map fun a =>
      entrySum (row.map fun b => ⟨a.1, b.1, d * a.2 * b.2⟩) i j) =
      row.map fun a => (if a.1 = i then a.2.toReal else 0) * (d.toReal * rowEntry row j) := by
    apply List.map_congr_left
    intro a ha
    obtain ⟨v, hv⟩ := hrow a ha
    obtain ⟨d, rfl⟩ := hd
    rw [hv, real_mul_real, entrySum_map_scaled hrow (isReal_real (d * v))]
    simp only [toReal_real]
    split <;> ring
  rw [entrySum_flatMap, hinner, List.sum_map_mul_right]
  show rowEntry row i * _ = _
  ring

/-! ## Borders -/

/-- One border row and its transpose. -/
theorem entrySum_borderRow (row : List (ℕ × Extended)) (k i j : ℕ) :
    entrySum (row.flatMap fun e => [⟨k, e.1, e.2⟩, ⟨e.1, k, e.2⟩]) i j =
      (if k = i then rowEntry row j else 0) + if k = j then rowEntry row i else 0 := by
  induction row with
  | nil => simp
  | cons e row ih =>
      have hboth : entrySum [⟨k, e.1, e.2⟩, ⟨e.1, k, e.2⟩] i j =
          (if k = i then if e.1 = j then e.2.toReal else 0 else 0) +
            if k = j then if e.1 = i then e.2.toReal else 0 else 0 := by
        simp [entrySum_cons, ite_and, and_comm (a := e.1 = i)]
      rw [List.flatMap_cons, entrySum_append, ih, hboth, rowEntry_cons, rowEntry_cons]
      split_ifs <;> ring

theorem entrySum_border (nx : ℕ) (ae : List (List (ℕ × Extended))) (i j : ℕ) :
    entrySum (LinearSystem.border nx ae) i j =
      ∑ r : Fin ae.length, ((if nx + r = i then rowEntry ae[r] j else 0) +
        if nx + r = j then rowEntry ae[r] i else 0) := by
  rw [LinearSystem.border, entrySum_flatten, map_mapIdx, List.mapIdx_eq_ofFn, List.sum_ofFn]
  exact Finset.sum_congr rfl fun r _ => entrySum_borderRow _ _ _ _

end SeqQuad.SparseMatrix

namespace SeqQuad.LinearSystem

open Extended Matrix SparseMatrix

section Assembly

variable {α : Type} {nx : ℕ} {m : List (Triplet α)} {ae : List (List (ℕ × α))}

theorem mem_border {t : Triplet α} : t ∈ border nx ae ↔ ∃ r row, ae[r]? = some row ∧
    ∃ e ∈ row, t = ⟨nx + r, e.1, e.2⟩ ∨ t = ⟨e.1, nx + r, e.2⟩ := by
  rw [border, List.mem_flatten]
  constructor
  · rintro ⟨ts, hts, ht⟩
    obtain ⟨r, hr, rfl⟩ := List.mem_mapIdx.mp hts
    obtain ⟨e, he, ht⟩ := List.mem_flatMap.mp ht
    exact ⟨r, ae[r], List.getElem?_eq_getElem hr, e, he, List.mem_pair.mp ht⟩
  · rintro ⟨r, row, hrow, e, he, ht⟩
    obtain ⟨hr, rfl⟩ := List.getElem?_eq_some_iff.mp hrow
    exact ⟨_, List.mem_mapIdx.mpr ⟨r, hr, rfl⟩,
      List.mem_flatMap.mpr ⟨e, he, List.mem_pair.mpr ht⟩⟩

variable [Scalar α]

@[simp]
theorem height_kktMatrix : (kktMatrix nx m ae).height = nx + ae.length :=
  height_ofTriplets _ _ _

@[simp]
theorem cols_kktMatrix : (kktMatrix nx m ae).cols = nx + ae.length :=
  cols_ofTriplets _ _ _

/-- A triplet comes from the block, from the diagonal or from the border. -/
theorem mem_kktTriplets {t : Triplet α} : t ∈ kktTriplets nx m ae ↔
    t ∈ m ∨ (∃ k < nx + ae.length, t = ⟨k, k, 0⟩) ∨ ∃ r row, ae[r]? = some row ∧
      ∃ e ∈ row, t = ⟨nx + r, e.1, e.2⟩ ∨ t = ⟨e.1, nx + r, e.2⟩ := by
  simp only [kktTriplets, List.mem_append, mem_border, zeroDiagonal, List.mem_map, List.mem_range,
    or_assoc, eq_comm (a := t)]

variable (hm : ∀ t ∈ m, t.row < nx) (hae : ∀ row ∈ ae, ∀ e ∈ row, e.1 < nx)
include hm hae

theorem row_lt_of_mem_kktTriplets : ∀ t ∈ kktTriplets nx m ae, t.row < nx + ae.length := by
  intro t ht
  rcases mem_kktTriplets.mp ht with ht | ⟨k, hk, rfl⟩ | ⟨r, row, hrow, e, he, ht⟩
  · exact (hm t ht).trans_le (Nat.le_add_right _ _)
  · exact hk
  · obtain ⟨hr, rfl⟩ := List.getElem?_eq_some_iff.mp hrow
    have hcol := hae ae[r] (List.getElem_mem hr) e he
    rcases ht with rfl | rfl
    · exact Nat.add_lt_add_left hr nx
    · exact hcol.trans_le (Nat.le_add_right _ _)

/-- The matrix can be assembled as far as there is room for it. -/
theorem kktMatrix?_eq_some (hblock : Vec.fits (m.length + (nx + ae.length)))
    (hstarts : Vec.fits (nx + ae.length + 1)) :
    kktMatrix? nx m ae = some (kktMatrix nx m ae) :=
  (if_pos hblock).trans (ofTriplets?_eq_some_iff.mpr
    ⟨⟨hstarts, row_lt_of_mem_kktTriplets hm hae⟩, rfl⟩)

end Assembly

section Blocks

variable {nx : ℕ} {m : List (Triplet Extended)} {ae : List (List (ℕ × Extended))}
  (hm : ∀ t ∈ m, t.row < nx ∧ t.col < nx ∧ t.value.IsReal)
  (hae : ∀ row ∈ ae, ∀ e ∈ row, e.1 < nx ∧ e.2.IsReal)
include hm hae

theorem col_lt_of_mem_kktTriplets : ∀ t ∈ kktTriplets nx m ae, t.col < nx + ae.length := by
  intro t ht
  rcases mem_kktTriplets.mp ht with ht | ⟨k, hk, rfl⟩ | ⟨r, row, hrow, e, he, ht⟩
  · exact (hm t ht).2.1.trans_le (Nat.le_add_right _ _)
  · exact hk
  · obtain ⟨hr, rfl⟩ := List.getElem?_eq_some_iff.mp hrow
    have hcol := (hae ae[r] (List.getElem_mem hr) e he).1
    rcases ht with rfl | rfl
    · exact hcol.trans_le (Nat.le_add_right _ _)
    · exact Nat.add_lt_add_left hr nx

theorem wellFormed_kktMatrix : (kktMatrix nx m ae).WellFormed :=
  wellFormed_ofTriplets (col_lt_of_mem_kktTriplets hm hae)

/-- The rows of the assembled matrix stay within its columns. -/
theorem col_lt_of_mem_rows_kktMatrix :
    ∀ row ∈ (kktMatrix nx m ae).rows, ∀ e ∈ row, e.1 < nx + ae.length := by
  rw [← cols_kktMatrix]
  exact (wellFormed_kktMatrix hm hae).readable.2

theorem isReal_kktTriplets : ∀ t ∈ kktTriplets nx m ae, t.value.IsReal := by
  intro t ht
  rcases mem_kktTriplets.mp ht with ht | ⟨k, -, rfl⟩ | ⟨r, row, hrow, e, he, ht⟩
  · exact (hm t ht).2.2
  · exact isReal_real 0
  · have hreal := (hae row (List.mem_of_getElem? hrow) e he).2
    rcases ht with rfl | rfl <;> exact hreal

theorem isReal_rows_kktMatrix : ∀ row ∈ (kktMatrix nx m ae).rows, ∀ e ∈ row, e.2.IsReal := by
  intro row hrow
  obtain ⟨i, hi, rfl⟩ := mem_rows.mp hrow
  rw [height_kktMatrix] at hi
  rw [kktMatrix, row_ofTriplets hi]
  exact isReal_gather fun t ht => isReal_kktTriplets hm hae t (List.mem_of_mem_filter ht)

omit hm in
/-- The four blocks of a border: its rows lie below the block and their transpose beside it. -/
theorem dense_border {k : ℕ} (hk : ae.length = k) :
    (denseTriplets (nx + k) (nx + k) (border nx ae)).submatrix finSumFinEquiv finSumFinEquiv =
      fromBlocks 0 (denseRows k nx ae)ᵀ (denseRows k nx ae) 0 := by
  subst hk
  have hrow : ∀ r : Fin ae.length, ∀ c, rowEntry ae[r] (nx + c) = 0 := by
    intro r c
    refine rowEntry_eq_zero fun e he => ?_
    have hcol := (hae ae[r] (List.getElem_mem r.isLt) e he).1
    omega
  have hsingle : ∀ (s : Fin ae.length) (f : Fin ae.length → ℝ),
      ∑ r : Fin ae.length, (if nx + (r : ℕ) = nx + s then f r else 0) = f s := by
    intro s f
    simp [Fin.val_inj]
  have hnone : ∀ (i : Fin nx) (f : Fin ae.length → ℝ),
      ∑ r : Fin ae.length, (if nx + (r : ℕ) = i then f r else 0) = 0 := by
    intro i f
    exact Finset.sum_eq_zero fun r _ => if_neg (by omega)
  ext a b
  rcases a with i | r <;> rcases b with j | s
  all_goals
    simp only [submatrix_apply, denseTriplets, of_apply, entrySum_border, Finset.sum_add_distrib,
      finSumFinEquiv_apply_left, finSumFinEquiv_apply_right, Fin.val_castAdd, Fin.val_natAdd,
      hsingle, hnone, hrow]
    simp [denseRows]

omit hae in
/-- The triplets of a block leave everything outside it at zero. -/
theorem dense_block (k : ℕ) :
    (denseTriplets (nx + k) (nx + k) m).submatrix finSumFinEquiv finSumFinEquiv =
      fromBlocks (denseTriplets nx nx m) 0 0 0 := by
  ext a b
  rcases a with i | r <;> rcases b with j | s
  · rfl
  all_goals
    refine entrySum_eq_zero _ _ fun t ht hrow hcol => ?_
    obtain ⟨hr, hc, -⟩ := hm t ht
    simp at hrow hcol
    omega

/-- The assembled matrix stands for the block with its border. -/
theorem dense_kktMatrix {k : ℕ} (hk : ae.length = k) :
    ((kktMatrix nx m ae).dense (nx + k) (nx + k)).submatrix finSumFinEquiv finSumFinEquiv =
      fromBlocks (denseTriplets nx nx m) (denseRows k nx ae)ᵀ (denseRows k nx ae) 0 := by
  subst hk
  have hentry : (kktMatrix nx m ae).dense (nx + ae.length) (nx + ae.length) =
      denseTriplets _ _ m + denseTriplets _ _ (border nx ae) := by
    ext i j
    rw [Matrix.add_apply, dense, denseTriplets, denseTriplets, of_apply, of_apply, of_apply,
      kktMatrix, rowEntry_ofTriplets (isReal_kktTriplets hm hae) i.isLt, kktTriplets,
      entrySum_append, entrySum_append, entrySum_zeroDiagonal, add_zero]
  rw [hentry, submatrix_add, Pi.add_apply, Pi.add_apply, dense_block hm, dense_border hae rfl,
    fromBlocks_add]
  simp

/-- A symmetric block keeps its symmetry with a border, so the rows of the matrix are its columns.
-/
theorem isSymm_kktMatrix {k : ℕ} (hk : ae.length = k) (hsymm : (denseTriplets nx nx m).IsSymm) :
    ((kktMatrix nx m ae).dense (nx + k) (nx + k)).IsSymm := by
  have hblocks := dense_kktMatrix hm hae hk
  have hsymm' := hsymm.fromBlocks (transpose_transpose (denseRows k nx ae)) isSymm_zero
  rw [← hblocks] at hsymm'
  have hback := hsymm'.submatrix finSumFinEquiv.symm
  rwa [submatrix_submatrix, finSumFinEquiv.self_comp_symm, submatrix_id_id] at hback

/-- A solution of the bordered system solves two equations, one for each part of it. -/
theorem split_of_kktMatrix {k : ℕ} (hk : ae.length = k) {x b : List Extended}
    (h : (kktMatrix nx m ae).dense (nx + k) (nx + k) *ᵥ Vec.reals (nx + k) x =
      Vec.reals (nx + k) b) :
    denseTriplets nx nx m *ᵥ Vec.reals nx (x.take nx) +
        (denseRows k nx ae)ᵀ *ᵥ Vec.reals k (x.drop nx) = Vec.reals nx (b.take nx) ∧
      denseRows k nx ae *ᵥ Vec.reals nx (x.take nx) = Vec.reals k (b.drop nx) := by
  have hparts := congrArg (· ∘ finSumFinEquiv) h
  have hx : Vec.reals (nx + k) x = (Vec.reals (nx + k) x ∘ finSumFinEquiv) ∘
      finSumFinEquiv.symm := by
    rw [Function.comp_assoc, finSumFinEquiv.self_comp_symm, Function.comp_id]
  simp only [Vec.reals_comp_finSumFinEquiv] at hparts
  rw [hx, ← submatrix_mulVec_equiv, dense_kktMatrix hm hae hk, Vec.reals_comp_finSumFinEquiv,
    fromBlocks_mulVec] at hparts
  simpa [Sum.elim_eq_iff] using hparts

end Blocks

end SeqQuad.LinearSystem
