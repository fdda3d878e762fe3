import SeqQuad.Nonlinear.Solve
import SeqQuad.Proofs.SparseMatrix.Triplets

/-!
# Conditioned Hessians

Joining a matrix with its diagonal does not change what it stands for, and the Gershgorin shift
adds a multiple of the identity: every diagonal position is then stored exactly once.
-/

namespace SeqQuad

open Extended Matrix

namespace SparseMatrix

/-! ## Joining the diagonal -/

section Join

variable {α : Type} [Scalar α]

/-- The triplets that make up row `i` of a matrix joined with its diagonal. -/
def joinedRow (A : SparseMatrix α) (i : ℕ) : List (Triplet α) :=
  ((A.row i).map fun e => ⟨i, e.1, e.2⟩) ++ if i < A.cols then [⟨i, i, 0⟩] else []

theorem filter_zeroDiagonal (n i : ℕ) :
    ((zeroDiagonal n : List (Triplet α)).filter fun t => t.row == i) =
      if i < n then [⟨i, i, 0⟩] else [] := by
  induction n with
  | zero => simp [zeroDiagonal]
  | succ n ih =>
      have hsucc : (zeroDiagonal (n + 1) : List (Triplet α)) =
          zeroDiagonal n ++ [⟨n, n, 0⟩] := by
        simp [zeroDiagonal, List.range_succ]
      rw [hsucc, List.filter_append, ih]
      rcases lt_trichotomy i n with h | h | h
      · rw [if_pos h, if_pos (by omega)]
        simp [h.ne']
      · subst h
        simp
      · rw [if_neg (by omega), if_neg (by omega)]
        simp [h.ne]

theorem withDiagonal?_eq_some {A B : SparseMatrix α} (h : A.withDiagonal? = some B) :
    B = ofTriplets A.height A.cols (A.toTriplets ++ zeroDiagonal (min A.height A.cols)) := by
  unfold withDiagonal? at h
  rcases Option.bind_eq_some_iff.mp h with ⟨ts, hts, hB⟩
  rw [← (ofTriplets?_eq_some_iff.mp hB).2, toTriplets?_eq_some hts]

/-- The diagonal can be joined to well-formed rows when there is room for their starts. -/
theorem exists_withDiagonal {A : SparseMatrix α} (hA : A.WellFormed)
    (hroom : Vec.fits (A.height + 1)) : ∃ B, A.withDiagonal? = some B := by
  have hlisted : A.toTriplets? = some A.toTriplets := if_pos ⟨hA.paired, hA.readable.1⟩
  refine ⟨_, Option.bind_eq_some_iff.mpr ⟨_, hlisted, ofTriplets?_eq_some_iff.mpr
    ⟨⟨hroom, fun t ht => ?_⟩, rfl⟩⟩⟩
  rcases List.mem_append.mp ht with ht | ht
  · exact row_lt_of_mem_toTriplets hA ht
  · obtain ⟨i, hi, rfl⟩ := List.mem_map.mp ht
    exact (List.mem_range.mp hi).trans_le (min_le_left _ _)

variable {A B : SparseMatrix α} (hA : A.WellFormed) (h : A.withDiagonal? = some B)
include hA h

theorem row_withDiagonal {i : ℕ} (hi : i < A.height) : B.row i = gather (A.joinedRow i) := by
  rw [withDiagonal?_eq_some h, row_ofTriplets hi, List.filter_append, filter_toTriplets hA hi,
    filter_zeroDiagonal, joinedRow]
  congr 2
  by_cases hc : i < A.cols
  · rw [if_pos hc, if_pos (by omega)]
  · rw [if_neg hc, if_neg (by omega)]

theorem increasing_withDiagonal {i : ℕ} (hi : i < A.height) : Increasing (B.row i) := by
  rw [row_withDiagonal hA h hi]
  exact increasing_gather _

theorem col_lt_withDiagonal {i : ℕ} (hi : i < A.height) : ∀ e ∈ B.row i, e.1 < A.cols := by
  rw [row_withDiagonal hA h hi]
  intro e he
  obtain ⟨t, ht, hcol⟩ := mem_map_fst_gather.mp (List.mem_map_of_mem (f := Prod.fst) he)
  rw [← hcol]
  rcases List.mem_append.mp ht with ht | ht
  · obtain ⟨e', he', rfl⟩ := List.mem_map.mp ht
    exact hA.readable.col_lt hi e' he'
  · split at ht
    · rename_i hc
      rw [List.mem_singleton.mp ht]
      exact hc
    · simp at ht

theorem mem_diagonal_withDiagonal {i : ℕ} (hi : i < A.height) (hc : i < A.cols) :
    i ∈ (B.row i).map Prod.fst := by
  rw [row_withDiagonal hA h hi, mem_map_fst_gather]
  exact ⟨⟨i, i, 0⟩, by simp [joinedRow, hc], rfl⟩

end Join

theorem withDiagonal_eq_ofRows {α : Type} [Scalar α] {A B : SparseMatrix α}
    (h : A.withDiagonal? = some B) : B = ofRows B.cols B.rows ∧ B.height = A.height ∧
      B.cols = A.cols := by
  rw [withDiagonal?_eq_some h]
  refine ⟨?_, by simp, by simp⟩
  rw [rows_ofTriplets, cols_ofTriplets, ← ofTriplets_eq_ofRows]

theorem readable_withDiagonal {α : Type} [Scalar α] {A B : SparseMatrix α} (hA : A.WellFormed)
    (h : A.withDiagonal? = some B) : B.Readable := by
  obtain ⟨hrows, hheight, hcols⟩ := withDiagonal_eq_ofRows h
  rw [hrows, readable_ofRows_iff]
  intro row hrow
  obtain ⟨i, hi, rfl⟩ := mem_rows.mp hrow
  rw [hcols]
  exact col_lt_withDiagonal hA h (hheight ▸ hi)

section JoinMeaning

variable {A B : SparseMatrix Extended} (hA : A.WellFormed) (hreal : A.IsReal)
include hreal

theorem isReal_joinedRow (i : ℕ) : ∀ t ∈ A.joinedRow i, t.value.IsReal := by
  intro t ht
  rcases List.mem_append.mp ht with ht | ht
  · rcases List.mem_map.mp ht with ⟨e, he, rfl⟩
    exact hreal.row i e he
  · split at ht
    · obtain rfl := List.mem_singleton.mp ht
      exact isReal_real 0
    · simp at ht

include hA

theorem isReal_row_withDiagonal (h : A.withDiagonal? = some B) {i : ℕ} (hi : i < A.height) :
    ∀ e ∈ B.row i, e.2.IsReal := by
  rw [row_withDiagonal hA h hi]
  exact isReal_gather (isReal_joinedRow hreal i)

/-- Joining the diagonal keeps every row sum. -/
theorem rowEntry_withDiagonal (h : A.withDiagonal? = some B) {i : ℕ} (hi : i < A.height)
    (j : ℕ) : rowEntry (B.row i) j = rowEntry (A.row i) j := by
  have hzero : ((if i < A.cols then [(⟨i, i, 0⟩ : Triplet Extended)] else []).map
      fun t => if t.col = j then t.value.toReal else 0).sum = 0 := by
    split <;> simp
  rw [row_withDiagonal hA h hi, rowEntry_gather (isReal_joinedRow hreal i), joinedRow,
    List.map_append, List.sum_append, hzero, add_zero, List.map_map]
  rfl

end JoinMeaning

/-! ## Shifting the diagonal -/

/-- A row that stores the column `i` once gains the shift there. -/
theorem rowEntry_shift {row : List (ℕ × Extended)} (hrow : ∀ e ∈ row, e.2.IsReal)
    (hinc : Increasing row) {i : ℕ} (hi : i ∈ row.map Prod.fst) (d : ℝ) (j : ℕ) :
    rowEntry (row.map fun e => (e.1, if i = e.1 then e.2 + d else e.2)) j =
      rowEntry row j + if i = j then d else 0 := by
  induction row with
  | nil => simp at hi
  | cons e row ih =>
      rcases List.forall_mem_cons.mp hrow with ⟨he, hrow'⟩
      rcases List.pairwise_cons.mp hinc with ⟨hlt, hinc'⟩
      rcases e with ⟨k, v⟩
      rcases he with ⟨v, rfl⟩
      rw [List.map_cons, rowEntry_cons, rowEntry_cons]
      by_cases hik : i = k
      · subst hik
        have hsame : (row.map fun e => (e.1, if i = e.1 then e.2 + (d : Extended) else e.2)) =
            row.map id := by
          apply List.map_congr_left
          intro e' he'
          rw [if_neg (hlt e' he').ne]
          rfl
        rw [List.map_id] at hsame
        rw [hsame]
        by_cases hij : i = j
        · simp [hij]
          ring
        · simp [hij]
      · have hmem : i ∈ row.map Prod.fst := by
          rw [List.map_cons, List.mem_cons] at hi
          exact hi.resolve_left hik
        rw [ih hrow' hinc' hmem, if_neg hik]
        ring

theorem shiftDiagonal_ofRows {α : Type} [Scalar α] (cols : ℕ) (rs : List (List (ℕ × α))) (d : α) :
    (ofRows cols rs).shiftDiagonal d =
      ofRows cols
        (rs.mapIdx fun i row => row.map fun e => (e.1, if i = e.1 then e.2 + d else e.2)) :=
  mapStored_ofRows cols rs _

theorem row_eq_getElem {α : Type} {A : SparseMatrix α} {i : ℕ} (hi : i < A.rows.length) :
    A.rows[i] = A.row i := by
  simp [rows]

end SparseMatrix

namespace Gershgorin

open SparseMatrix

theorem isReal_rowBound {i : ℕ} {row : List (ℕ × Extended)} (hrow : ∀ e ∈ row, e.2.IsReal) :
    (rowBound i row).IsReal := by
  have hl : Vec.IsReal (row.map fun e => if i = e.1 then e.2 else -Scalar.magnitude e.2) := by
    intro a ha
    rcases List.mem_map.mp ha with ⟨e, he, rfl⟩
    obtain ⟨v, hv⟩ := hrow e he
    rw [hv]
    split <;> simp
  rw [rowBound, Vec.sum_eq hl]
  exact isReal_real _

/-- The shift is the least number, zero or above, that leaves no row bound negative. -/
theorem isLeast_shift {h : SparseMatrix Extended} (hreal : h.IsReal) :
    ∃ r : ℝ, shift h = r ∧
      IsLeast {s : ℝ | 0 ≤ s ∧ ∀ i < h.height, ((-s : ℝ) : Extended) ≤ rowBound i (h.row i)} r := by
  have hbounds : h.rows.mapIdx rowBound =
      (List.range h.height).map fun i => rowBound i (h.row i) := by
    rw [← map_range_eq_mapIdx h.rows _ rowBound fun i hi => by rw [row_eq_getElem hi]]
    simp [rows]
  have hl : Vec.IsReal ((List.range h.height).map fun i => rowBound i (h.row i)) := by
    rintro a ha
    obtain ⟨i, -, rfl⟩ := List.mem_map.mp ha
    exact isReal_rowBound (hreal.row i)
  obtain ⟨r, hr, ⟨hle, hmem⟩, hgreatest⟩ := Vec.isGreatest_foldl_minNum hl 0
  simp only [List.forall_mem_map, List.mem_range] at hmem
  refine ⟨-r, by rw [shift, hbounds, zero_eq, hr, neg_real], ⟨by linarith, ?_⟩, ?_⟩
  · rwa [neg_neg]
  · rintro s ⟨h0, hs⟩
    have hlower : -s ≤ r := hgreatest ⟨by linarith, by
      simpa only [List.forall_mem_map, List.mem_range] using hs⟩
    linarith

/-- The shift is a real number and not negative. -/
theorem shift_real {h : SparseMatrix Extended} (hreal : h.IsReal) :
    ∃ r : ℝ, shift h = r ∧ 0 ≤ r := by
  obtain ⟨r, hr, ⟨h0, -⟩, -⟩ := isLeast_shift hreal
  exact ⟨r, hr, h0⟩

/-- The regularized matrix stands for the matrix plus the shift times the identity. -/
theorem rowEntry_regularize {h : SparseMatrix Extended} (hrows : h = ofRows h.cols h.rows)
    (hreal : h.IsReal) {i : ℕ} (hi : i < h.height) (hinc : Increasing (h.row i))
    (hdiag : i ∈ (h.row i).map Prod.fst) (j : ℕ) :
    rowEntry ((regularize h).1.row i) j =
      rowEntry (h.row i) j + if i = j then (regularize h).2.toReal else 0 := by
  obtain ⟨r, hr, hr0⟩ := shift_real hreal
  have hlen : i < h.rows.length := by simpa [rows] using hi
  have hsnd : (regularize h).2 = r := hr
  by_cases hpos : 0 < r
  · have hfst : (regularize h).1 = h.shiftDiagonal r := by
      simp [regularize, hr, hpos]
    rw [hsnd, hfst, hrows, shiftDiagonal_ofRows, row_ofRows _ _ (by simpa using hlen),
      List.getElem_mapIdx, row_eq_getElem, ← hrows,
      rowEntry_shift (hreal.row i) hinc hdiag r j]
    rfl
  · have hzero : r = 0 := le_antisymm (not_lt.mp hpos) hr0
    have hfst : (regularize h).1 = h := by
      simp [regularize, hr, hzero]
    rw [hsnd, hfst, hzero]
    simp

end Gershgorin

/-! ## The conditioned Hessian -/

namespace Nonlinear

open SparseMatrix

theorem isReal_withDiagonal {A B : SparseMatrix Extended} (hA : A.WellFormed) (hreal : A.IsReal)
    (h : A.withDiagonal? = some B) : B.IsReal := by
  obtain ⟨hrows, hheight, _⟩ := withDiagonal_eq_ofRows h
  rw [hrows]
  apply isReal_of_rows
  intro row hrow
  rcases mem_rows.mp hrow with ⟨i, hi, rfl⟩
  exact isReal_row_withDiagonal hA hreal h (hheight ▸ hi)

/-- A well-formed Hessian can be conditioned, and without regularization the result can be read
and is not shifted. -/
theorem exists_conditioned {α : Type} [Scalar α] {h : SparseMatrix α} (hh : h.WellFormed)
    (hroom : Vec.fits (h.height + 1)) :
    ∃ b, conditioned? false h = some (b, 0) ∧ b.Readable := by
  obtain ⟨b, hb⟩ := exists_withDiagonal hh hroom
  exact ⟨b, Option.map_eq_some_iff.mpr ⟨b, hb, rfl⟩, readable_withDiagonal hh hb⟩

/-- A well-formed Hessian can be conditioned, shifted or not. -/
theorem conditioned_isSome {α : Type} [Scalar α] (regularize : Bool) {h : SparseMatrix α}
    (hh : h.WellFormed) (hroom : Vec.fits (h.height + 1)) :
    ∃ r, conditioned? regularize h = some r := by
  obtain ⟨b, hb⟩ := exists_withDiagonal hh hroom
  exact ⟨_, Option.map_eq_some_iff.mpr ⟨b, hb, rfl⟩⟩

/-- Conditioning keeps the dimensions, and the result can be read. -/
theorem shape_conditioned {α : Type} [Scalar α] {regularize : Bool} {h b : SparseMatrix α} {r : α}
    (hh : h.WellFormed) (hcond : conditioned? regularize h = some (b, r)) :
    b.height = h.height ∧ b.cols = h.cols ∧ b.Readable := by
  obtain ⟨d, hd, hb⟩ := Option.map_eq_some_iff.mp hcond
  obtain ⟨hrows, hheight, hcols⟩ := withDiagonal_eq_ofRows hd
  have hread := readable_withDiagonal hh hd
  cases regularize with
  | false =>
      obtain ⟨rfl, rfl⟩ := Prod.mk.inj hb
      exact ⟨hheight, hcols, hread⟩
  | true =>
      obtain ⟨rfl, -⟩ := Prod.mk.inj (show Gershgorin.regularize d = (b, r) from hb)
      split
      · refine ⟨hheight, hcols, ?_⟩
        rw [hrows] at hread ⊢
        exact readable_mapStored_ofRows hread _
      · exact ⟨hheight, hcols, hread⟩

/-- The regularizer reads no row beyond the storage of a matrix joined with its diagonal. -/
theorem regularize?_withDiagonal {α : Type} [Scalar α] {h d : SparseMatrix α}
    (hd : h.withDiagonal? = some d) :
    Gershgorin.regularize? d = some (Gershgorin.regularize d) := by
  have hslice : d.Sliceable := by
    rw [(withDiagonal_eq_ofRows hd).1]
    exact sliceable_ofRows _ _
  exact if_pos hslice

/-- A conditioned Hessian is real, and so is its shift. -/
theorem isReal_conditioned {reg : Bool} {h b : SparseMatrix Extended} {r : Extended}
    (hh : h.WellFormed) (hreal : h.IsReal) (hcond : conditioned? reg h = some (b, r)) :
    b.IsReal ∧ r.IsReal := by
  rcases Option.map_eq_some_iff.mp hcond with ⟨d, hd, hb⟩
  have hdreal := isReal_withDiagonal hh hreal hd
  cases reg with
  | false =>
      obtain ⟨rfl, rfl⟩ := Prod.mk.inj hb
      exact ⟨hdreal, isReal_real 0⟩
  | true =>
      have hb' : Gershgorin.regularize d = (b, r) := hb
      obtain ⟨hfst, hsnd⟩ := Prod.mk.inj hb'
      obtain ⟨c, hc, _⟩ := Gershgorin.shift_real hdreal
      refine ⟨?_, hsnd ▸ ⟨c, hc⟩⟩
      rw [← hfst]
      split
      · exact isReal_mapStored hdreal fun i j v hv => by split <;> simp [hv, hc]
      · exact hdreal

/-- A conditioned Hessian stands for the given one plus the shift times the identity. -/
theorem dense_conditioned {n : ℕ} {reg : Bool} {h b : SparseMatrix Extended} {r : Extended}
    (hh : h.WellFormed) (hreal : h.IsReal) (hheight : h.height = n) (hcols : h.cols = n)
    (hcond : conditioned? reg h = some (b, r)) :
    b.dense n n = h.dense n n + r.toReal • (1 : Matrix (Fin n) (Fin n) ℝ) := by
  rcases Option.map_eq_some_iff.mp hcond with ⟨d, hd, hb⟩
  obtain ⟨hrows, hdheight, _⟩ := withDiagonal_eq_ofRows hd
  funext i j
  have hi : (i : ℕ) < h.height := by rw [hheight]; exact i.isLt
  have hjoin : rowEntry (d.row i) j = rowEntry (h.row i) j :=
    rowEntry_withDiagonal hh hreal hd hi j
  have hone : (1 : Matrix (Fin n) (Fin n) ℝ) i j = if (i : ℕ) = j then 1 else 0 := by
    simp [Matrix.one_apply, Fin.ext_iff]
  simp only [dense, Matrix.of_apply, Matrix.add_apply, Matrix.smul_apply, smul_eq_mul, hone]
  cases reg with
  | false =>
      obtain ⟨rfl, rfl⟩ := Prod.mk.inj hb
      simp [hjoin]
  | true =>
      have hb' : Gershgorin.regularize d = (b, r) := hb
      have hshift := Gershgorin.rowEntry_regularize hrows (isReal_withDiagonal hh hreal hd)
        (i := i) (by omega) (increasing_withDiagonal hh hd hi)
        (mem_diagonal_withDiagonal hh hd hi (by omega)) j
      rw [hb'] at hshift
      rw [hshift, hjoin]
      split <;> simp

end Nonlinear

end SeqQuad
