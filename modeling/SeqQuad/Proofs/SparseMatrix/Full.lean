import SeqQuad.Proofs.Exact.Matrix
import SeqQuad.Proofs.SparseMatrix.Triplets

/-!
# The full pattern

A square matrix that stores every position, row after row, is a function of row and column. A
change on the pattern changes the function.
-/

namespace SeqQuad.SparseMatrix

section Pattern

variable {α : Type}

/-- The matrix that stores every position. -/
def ofFunction (n : ℕ) (f : ℕ → ℕ → α) : SparseMatrix α :=
  ofRows n ((List.range n).map fun i => (List.range n).map fun j => (j, f i j))

variable {n : ℕ} {f : ℕ → ℕ → α}

theorem denseIdentity_eq [Scalar α] (n : ℕ) (scale : α) :
    denseIdentity n scale = ofFunction n fun i j => if i = j then scale else 0 :=
  rfl

@[simp]
theorem cols_ofFunction : (ofFunction n f).cols = n :=
  cols_ofRows n _

@[simp]
theorem height_ofFunction : (ofFunction n f).height = n := by
  simp [ofFunction]

theorem row_ofFunction {i : ℕ} (hi : i < n) :
    (ofFunction n f).row i = (List.range n).map fun j => (j, f i j) := by
  rw [ofFunction, row_ofRows _ _ (by simpa using hi)]
  simp

theorem rowColumns_ofFunction {i : ℕ} (hi : i < n) :
    (ofFunction n f).rowColumns i = List.range n := by
  rw [ofFunction, rowColumns_ofRows _ _ (by simpa using hi)]
  simp [Function.comp_def]

theorem mem_positions_ofFunction {i j : ℕ} :
    (i, j) ∈ (ofFunction n f).positions ↔ i < n ∧ j < n := by
  rw [mem_positions_iff, height_ofFunction]
  refine and_congr_right fun hi => ?_
  rw [rowColumns_ofFunction hi, List.mem_range]

theorem flatten_length_ofFunction :
    ((List.range n).map fun i => (List.range n).map fun j => (j, f i j)).flatten.length =
      n * n := by
  rw [List.length_flatten, List.map_map]
  have hconst : (List.length ∘ fun i => (List.range n).map fun j => (j, f i j)) = fun _ => n := by
    funext i
    simp
  rw [hconst]
  simp

@[simp]
theorem stored_ofFunction : (ofFunction n f).stored = n * n := by
  rw [ofFunction, stored_ofRows, flatten_length_ofFunction]

theorem length_positions_ofFunction : (ofFunction n f).positions.length = n * n := by
  rw [ofFunction, positions_ofRows, List.length_map, length_labelled, flatten_length_ofFunction]

theorem readable_ofFunction : (ofFunction n f).Readable := by
  apply readable_ofRows_iff.mpr
  intro row hrow e he
  rcases List.mem_map.mp hrow with ⟨i, _, rfl⟩
  rcases List.mem_map.mp he with ⟨j, hj, rfl⟩
  exact List.mem_range.mp hj

/-- The pattern does not depend on the values. -/
theorem starts_ofFunction {β : Type} (g : ℕ → ℕ → β) :
    (ofFunction n f).starts = (ofFunction n g).starts := by
  rw [← Array.toList_inj, ofFunction, ofFunction, toList_starts_ofRows, toList_starts_ofRows]
  simp [Function.comp_def]

theorem columns_ofFunction {β : Type} (g : ℕ → ℕ → β) :
    (ofFunction n f).columns = (ofFunction n g).columns := by
  rw [← Array.toList_inj, ofFunction, ofFunction, toList_columns_ofRows, toList_columns_ofRows,
    List.map_flatten, List.map_flatten]
  simp [Function.comp_def]

theorem mapStored_ofFunction (g : ℕ → ℕ → α → α) :
    (ofFunction n f).mapStored g = ofFunction n fun i j => g i j (f i j) := by
  rw [ofFunction, mapStored_ofRows]
  congr 1
  apply List.ext_getElem
  · simp
  · intro i hi _
    simp [Function.comp_def]

/-- An outer product is added to the function, and the vectors reach every position. -/
theorem addOuter?_ofFunction [Scalar α] {c : α} {u v : List α} {B : SparseMatrix α}
    (h : (ofFunction n f).addOuter? c u v = some B) :
    n ≤ u.length ∧ n ≤ v.length ∧
      B = ofFunction n fun i j => f i j + c * Vec.coord u i * Vec.coord v j := by
  unfold addOuter? at h
  rw [Option.ite_none_right_eq_some] at h
  rcases h with ⟨⟨_, hreach⟩, hB⟩
  rw [stored_ofFunction, ← length_positions_ofFunction (f := f), List.take_length] at hreach
  have hlast : ∀ k < n, k < u.length ∧ k < v.length := fun k hk =>
    hreach (k, k) (mem_positions_ofFunction.mpr ⟨hk, hk⟩)
  refine ⟨?_, ?_, ?_⟩
  · by_contra hlt
    exact absurd (hlast u.length (by omega)).1 (by omega)
  · by_contra hlt
    exact absurd (hlast v.length (by omega)).2 (by omega)
  · rw [← Option.some.inj hB, addOuter, mapStored_ofFunction]

/-- Vectors that reach every position have an outer product to add. -/
theorem exists_addOuter_ofFunction [Scalar α] (c : α) {u v : List α} (hu : n ≤ u.length)
    (hv : n ≤ v.length) : ∃ B, (ofFunction n f).addOuter? c u v = some B := by
  have hlocated : (ofFunction n f).Located := by
    apply endsBy_ofRows
    exact (size_columns_ofRows n _).ge
  refine ⟨_, if_pos ⟨hlocated, fun p hp => ?_⟩⟩
  obtain ⟨hi, hj⟩ := mem_positions_ofFunction.mp (List.mem_of_mem_take hp)
  exact ⟨hi.trans_le hu, hj.trans_le hv⟩

end Pattern

/-! ## Values -/

section Values

variable {n : ℕ} {f : ℕ → ℕ → Extended}

theorem isReal_ofFunction (h : ∀ i < n, ∀ j < n, (f i j).IsReal) : (ofFunction n f).IsReal := by
  apply isReal_of_rows
  intro row hrow e he
  rcases List.mem_map.mp hrow with ⟨i, hi, rfl⟩
  rcases List.mem_map.mp he with ⟨j, hj, rfl⟩
  exact h i (List.mem_range.mp hi) j (List.mem_range.mp hj)

theorem isReal_of_isReal_ofFunction (h : (ofFunction n f).IsReal) {i j : ℕ} (hi : i < n)
    (hj : j < n) : (f i j).IsReal := by
  have hmem : (j, f i j) ∈ (ofFunction n f).row i := by
    rw [row_ofFunction hi]
    exact List.mem_map.mpr ⟨j, List.mem_range.mpr hj, rfl⟩
  exact h.row i _ hmem

theorem rowEntry_map_range (g : ℕ → Extended) {j : ℕ} (hj : j < n) :
    rowEntry ((List.range n).map fun k => (k, g k)) j = (g j).toReal := by
  rw [rowEntry, List.map_map]
  induction n with
  | zero => omega
  | succ n ih =>
      rw [List.range_succ, List.map_append, List.sum_append]
      by_cases hlast : j = n
      · subst hlast
        have hzero : ((List.range j).map ((fun e : ℕ × Extended =>
            if e.1 = j then e.2.toReal else 0) ∘ fun k => (k, g k))).sum = 0 := by
          apply List.sum_eq_zero
          intro a ha
          rcases List.mem_map.mp ha with ⟨k, hk, rfl⟩
          have hlt := List.mem_range.mp hk
          simp [hlt.ne]
        rw [hzero]
        simp
      · rw [ih (by omega)]
        simp [Ne.symm hlast]

theorem dense_ofFunction (i j : Fin n) : (ofFunction n f).dense n n i j = (f i j).toReal := by
  show rowEntry ((ofFunction n f).row i) j = _
  rw [row_ofFunction i.isLt, rowEntry_map_range _ j.isLt]

end Values

end SeqQuad.SparseMatrix
