import SeqQuad.Proofs.SparseMatrix.Blocks

/-!
# The assembled bordered matrix

The assembled matrix stores exactly the diagonal and the positions that the block and its border
name, each once and in increasing order, and stands for the block with its border. The rows of a
symmetric one are its columns, so a solver that is given columns is given the intended system.
-/

namespace SeqQuad

open Extended Matrix

namespace SparseMatrix

/-- The dense matrix with the given sparse columns. -/
noncomputable def denseColumns (m n : ℕ) (cs : List (List (ℕ × Extended))) :
    Matrix (Fin m) (Fin n) ℝ :=
  Matrix.of fun i j => rowEntry (cs.getD j []) i

theorem denseColumns_eq_transpose (m n : ℕ) (cs : List (List (ℕ × Extended))) :
    denseColumns m n cs = (denseRows n m cs)ᵀ :=
  rfl

end SparseMatrix

namespace LinearSystem

open SparseMatrix

section Pattern

variable {α : Type} {nx : ℕ} {ae : List (List (ℕ × α))}

/-- A border row has an entry in row `i` and column `j`. -/
def InBorder (nx : ℕ) (ae : List (List (ℕ × α))) (i j : ℕ) : Prop :=
  ∃ r row, ae[r]? = some row ∧ i = nx + r ∧ j ∈ row.map Prod.fst

/-- The border names the positions of its rows and of their transpose. -/
theorem exists_mem_border {i j : ℕ} :
    (∃ t ∈ border nx ae, t.row = i ∧ t.col = j) ↔ InBorder nx ae i j ∨ InBorder nx ae j i := by
  constructor
  · rintro ⟨t, ht, rfl, rfl⟩
    obtain ⟨r, row, hrow, e, he, rfl | rfl⟩ := mem_border.mp ht
    · exact .inl ⟨r, row, hrow, rfl, List.mem_map_of_mem he⟩
    · exact .inr ⟨r, row, hrow, rfl, List.mem_map_of_mem he⟩
  · rintro (⟨r, row, hrow, rfl, hj⟩ | ⟨r, row, hrow, rfl, hi⟩)
    · obtain ⟨e, he, rfl⟩ := List.mem_map.mp hj
      exact ⟨_, mem_border.mpr ⟨r, row, hrow, e, he, .inl rfl⟩, rfl, rfl⟩
    · obtain ⟨e, he, rfl⟩ := List.mem_map.mp hi
      exact ⟨_, mem_border.mpr ⟨r, row, hrow, e, he, .inr rfl⟩, rfl, rfl⟩

variable [Scalar α] {m : List (Triplet α)}

theorem exists_mem_kktTriplets {i j : ℕ} :
    (∃ t ∈ kktTriplets nx m ae, t.row = i ∧ t.col = j) ↔
      (i = j ∧ i < nx + ae.length) ∨ (∃ t ∈ m, t.row = i ∧ t.col = j) ∨
        InBorder nx ae i j ∨ InBorder nx ae j i := by
  rw [← exists_mem_border]
  simp only [kktTriplets, zeroDiagonal, List.mem_append, List.mem_map, List.mem_range]
  constructor
  · rintro ⟨t, (ht | ⟨k, hk, rfl⟩) | ht, hi, hj⟩
    · exact .inr (.inl ⟨t, ht, hi, hj⟩)
    · exact .inl ⟨hi.symm.trans hj, hi ▸ hk⟩
    · exact .inr (.inr ⟨t, ht, hi, hj⟩)
  · rintro (⟨rfl, hi⟩ | ⟨t, ht, hpos⟩ | ⟨t, ht, hpos⟩)
    · exact ⟨_, .inl (.inr ⟨i, hi, rfl⟩), rfl, rfl⟩
    · exact ⟨t, .inl (.inl ht), hpos⟩
    · exact ⟨t, .inr ht, hpos⟩

end Pattern

section Assembled

variable {nx : ℕ} {m : List (Triplet Extended)} {ae : List (List (ℕ × Extended))}

/-- The block matrix of `m` of order `nx` with the rows `ae` as its border. -/
noncomputable def bordered (nx : ℕ) (m : List (Triplet Extended))
    (ae : List (List (ℕ × Extended))) :
    Matrix (Fin nx ⊕ Fin ae.length) (Fin nx ⊕ Fin ae.length) ℝ :=
  fromBlocks (denseTriplets nx nx m) (denseRows ae.length nx ae)ᵀ (denseRows ae.length nx ae) 0

/-- The matrix `K` stores the block `m` with the border `ae`, and stands for it by its rows, and by
its columns if the block is symmetric. -/
structure Borders (nx : ℕ) (m : List (Triplet Extended)) (ae : List (List (ℕ × Extended)))
    (K : SparseMatrix Extended) : Prop where
  wellFormed : K.WellFormed
  height : K.height = nx + ae.length
  cols : K.cols = nx + ae.length
  increasing : ∀ row ∈ K.rows, Increasing row
  diagonal : ∀ i < nx + ae.length, (i, i) ∈ K.positions
  pattern : ∀ i j, (i, j) ∈ K.positions ↔
    (i = j ∧ i < nx + ae.length) ∨ (∃ t ∈ m, t.row = i ∧ t.col = j) ∨
      InBorder nx ae i j ∨ InBorder nx ae j i
  real : K.IsReal
  by_rows : (denseRows (nx + ae.length) (nx + ae.length) K.rows).submatrix finSumFinEquiv
    finSumFinEquiv = bordered nx m ae
  by_columns : (denseTriplets nx nx m).IsSymm →
    (denseColumns (nx + ae.length) (nx + ae.length) K.rows).submatrix finSumFinEquiv
      finSumFinEquiv = bordered nx m ae
  /-- A solver of systems that are given by their columns is given these. -/
  handed : ∀ (solver : LinearSolver Extended) (call : ℕ) (b : List Extended),
    b.length = nx + ae.length →
    solveSymmetric solver call K b = (solver.solve call K.rows b).mapError (Failure.map .solver)

section

variable (hm : ∀ t ∈ m, t.row < nx ∧ t.col < nx ∧ t.value.IsReal)
  (hae : ∀ row ∈ ae, ∀ e ∈ row, e.1 < nx ∧ e.2.IsReal)
include hm hae

theorem mem_positions_kktMatrix {i j : ℕ} : (i, j) ∈ (kktMatrix nx m ae).positions ↔
    (i = j ∧ i < nx + ae.length) ∨ (∃ t ∈ m, t.row = i ∧ t.col = j) ∨
      InBorder nx ae i j ∨ InBorder nx ae j i := by
  have hcol := col_lt_of_mem_kktTriplets hm hae
  have hrow := row_lt_of_mem_kktTriplets (fun t ht => (hm t ht).1)
    fun row hrow e he => (hae row hrow e he).1
  rw [← exists_mem_kktTriplets]
  constructor
  · intro hpos
    have hi := (mem_positions_iff.mp hpos).1
    rw [height_kktMatrix] at hi
    exact (mem_positions_ofTriplets hcol hi).mp hpos
  · rintro ⟨t, ht, rfl, rfl⟩
    exact (mem_positions_ofTriplets hcol (hrow t ht)).mpr ⟨t, ht, rfl, rfl⟩

theorem isReal_kktMatrix : (kktMatrix nx m ae).IsReal := by
  have hrows := isReal_rows_kktMatrix hm hae
  rw [kktMatrix, rows_ofTriplets] at hrows
  rw [kktMatrix, ofTriplets_eq_ofRows]
  exact isReal_of_rows hrows

theorem borders_kktMatrix : Borders nx m ae (kktMatrix nx m ae) where
  wellFormed := wellFormed_kktMatrix hm hae
  height := height_kktMatrix
  cols := cols_kktMatrix
  increasing := increasing_row_ofTriplets
  diagonal i hi := (mem_positions_kktMatrix hm hae).mpr (.inl ⟨rfl, hi⟩)
  pattern _ _ := mem_positions_kktMatrix hm hae
  real := isReal_kktMatrix hm hae
  by_rows := by
    rw [← dense_eq_denseRows height_kktMatrix]
    exact dense_kktMatrix hm hae rfl
  by_columns hsymm := by
    rw [denseColumns_eq_transpose, ← dense_eq_denseRows height_kktMatrix,
      (isSymm_kktMatrix hm hae rfl hsymm).eq]
    exact dense_kktMatrix hm hae rfl
  handed solver call b hb := by
    refine if_pos ⟨?_, ?_⟩
    · rw [height_kktMatrix, cols_kktMatrix]
    · rw [height_kktMatrix, hb]

/-- The assembled matrix stores and stands for the block with its border, and is there whenever
there is room for it. -/
theorem borders_assembled :
    kktMatrix? nx m ae =
        (if Vec.fits (m.length + (nx + ae.length)) ∧ Vec.fits (nx + ae.length + 1) then
          some (kktMatrix nx m ae) else none) ∧
      Borders nx m ae (kktMatrix nx m ae) := by
  refine ⟨?_, borders_kktMatrix hm hae⟩
  split
  case isTrue hroom =>
    exact kktMatrix?_eq_some (fun t ht => (hm t ht).1) (fun row hrow e he => (hae row hrow e he).1)
      hroom.1 hroom.2
  case isFalse hroom =>
    rw [Option.eq_none_iff_forall_ne_some]
    intro K hK
    obtain ⟨hblock, hassembled⟩ := Option.ite_none_right_eq_some.mp hK
    exact hroom ⟨hblock, (ofTriplets?_eq_some_iff.mp hassembled).1.1⟩

end

end Assembled

/-! ## A block and a row with repeated positions -/

section Repeated

/-- A symmetric block of order two that gives its first position twice. -/
noncomputable def repeatedBlock : List (Triplet Extended) :=
  [⟨0, 1, 1⟩, ⟨0, 0, 1⟩, ⟨1, 0, 1⟩, ⟨0, 0, 1⟩]

/-- One row that gives its second position twice. -/
noncomputable def repeatedRows : List (List (ℕ × Extended)) :=
  [[(1, 1), (0, 1), (1, 1)]]

theorem dense_repeatedBlock : denseTriplets 2 2 repeatedBlock = !![2, 1; 1, 0] := by
  ext i j
  fin_cases i <;> fin_cases j <;> simp [denseTriplets, entrySum, repeatedBlock]
  norm_num

theorem dense_repeatedRows : denseRows 1 2 repeatedRows = !![1, 2] := by
  ext i j
  fin_cases i
  fin_cases j <;> simp [denseRows, rowEntry, repeatedRows]
  norm_num

/-- The repeated positions are stored once and hold the sums. -/
theorem repeated_borders :
    (∀ t ∈ repeatedBlock, t.row < 2 ∧ t.col < 2 ∧ t.value.IsReal) ∧
      (∀ row ∈ repeatedRows, ∀ e ∈ row, e.1 < 2 ∧ e.2.IsReal) ∧
      (denseTriplets 2 2 repeatedBlock).IsSymm ∧
      ∃ K, kktMatrix? 2 repeatedBlock repeatedRows = some K ∧
        (denseColumns 3 3 K.rows).submatrix finSumFinEquiv finSumFinEquiv =
          fromBlocks !![2, 1; 1, 0] !![1, 2]ᵀ !![1, 2] 0 := by
  have hblock : ∀ t ∈ repeatedBlock, t.row < 2 ∧ t.col < 2 ∧ t.value.IsReal := by
    simp [repeatedBlock]
  have hrows : ∀ row ∈ repeatedRows, ∀ e ∈ row, e.1 < 2 ∧ e.2.IsReal := by
    simp [repeatedRows, or_imp, forall_and]
  have hsymm : (denseTriplets 2 2 repeatedBlock).IsSymm := by
    rw [dense_repeatedBlock]
    ext i j
    fin_cases i <;> fin_cases j <;> rfl
  obtain ⟨hassembled, hborders⟩ := borders_assembled hblock hrows
  refine ⟨hblock, hrows, hsymm, _, hassembled.trans (if_pos (by decide)), ?_⟩
  exact (hborders.by_columns hsymm).trans
    (congrArg₂ (fun M A => fromBlocks M Aᵀ A 0) dense_repeatedBlock dense_repeatedRows)

end Repeated

end LinearSystem

end SeqQuad
