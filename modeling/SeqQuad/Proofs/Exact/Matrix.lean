import SeqQuad.Proofs.Exact.Vector
import SeqQuad.SparseMatrix

/-!
# Matrices in exact arithmetic

A sparse matrix stands for the dense matrix of the sums of its entries, whatever the order and
the number of the entries of a row. The products of the library are the products with that
matrix.
-/

namespace SeqQuad.SparseMatrix

open Extended Matrix

/-- The sum of the entries of a row in column `j`. -/
noncomputable def rowEntry (row : List (ℕ × Extended)) (j : ℕ) : ℝ :=
  (row.map fun e => if e.1 = j then e.2.toReal else 0).sum

noncomputable def dense (A : SparseMatrix Extended) (m n : ℕ) : Matrix (Fin m) (Fin n) ℝ :=
  Matrix.of fun i j => rowEntry (A.row i) j

def IsReal (A : SparseMatrix Extended) : Prop :=
  ∀ v ∈ A.values, v.IsReal

/-! ## Rows -/

theorem mem_rows {α : Type} {A : SparseMatrix α} {row : List (ℕ × α)} :
    row ∈ A.rows ↔ ∃ i < A.height, A.row i = row := by
  simp [rows]

theorem value_mem_of_mem_row {α : Type} {A : SparseMatrix α} {i : ℕ} {e : ℕ × α}
    (h : e ∈ A.row i) : e.2 ∈ A.values := by
  have hv : e.2 ∈ A.rowValues i := (List.of_mem_zip h).2
  rw [rowValues, Array.toList_extract, List.extract_eq_take_drop] at hv
  exact Array.mem_toList_iff.mp (List.mem_of_mem_drop (List.mem_of_mem_take hv))

theorem IsReal.row {A : SparseMatrix Extended} (h : A.IsReal) (i : ℕ) :
    ∀ e ∈ A.row i, e.2.IsReal :=
  fun _ he => h _ (value_mem_of_mem_row he)

theorem Readable.col_lt {α : Type} {A : SparseMatrix α} (h : A.Readable) {i : ℕ}
    (hi : i < A.height) : ∀ e ∈ A.row i, e.1 < A.cols :=
  h.2 _ (mem_rows.mpr ⟨i, hi, rfl⟩)

@[simp]
theorem rowEntry_nil (j : ℕ) : rowEntry [] j = 0 :=
  rfl

theorem rowEntry_cons (e : ℕ × Extended) (row : List (ℕ × Extended)) (j : ℕ) :
    rowEntry (e :: row) j = (if e.1 = j then e.2.toReal else 0) + rowEntry row j :=
  rfl

theorem rowEntry_eq_zero {row : List (ℕ × Extended)} {j : ℕ} (h : ∀ e ∈ row, e.1 ≠ j) :
    rowEntry row j = 0 := by
  apply List.sum_eq_zero
  intro a ha
  obtain ⟨e, he, rfl⟩ := List.mem_map.mp ha
  exact if_neg (h e he)

/-- A weighted sum over the entries of a row gathers the entries of each column. -/
theorem sum_row_eq {n : ℕ} {row : List (ℕ × Extended)} (hcol : ∀ e ∈ row, e.1 < n)
    (f : ℕ → ℝ) :
    (row.map fun e => e.2.toReal * f e.1).sum = ∑ j : Fin n, rowEntry row j * f j := by
  induction row with
  | nil => simp
  | cons e row ih =>
      rcases List.forall_mem_cons.mp hcol with ⟨he, hrow⟩
      have hsingle : ∑ j : Fin n, (if e.1 = j then e.2.toReal else 0) * f j =
          e.2.toReal * f e.1 := by
        rw [Finset.sum_eq_single ⟨e.1, he⟩]
        · simp
        · intro j _ hj
          rw [if_neg fun h => hj (Fin.ext h.symm), zero_mul]
        · simp
      simp only [rowEntry_cons, add_mul, Finset.sum_add_distrib]
      rw [List.map_cons, List.sum_cons, ih hrow, hsingle]

/-! ## Products -/

theorem rowDot_eq {n : ℕ} {row : List (ℕ × Extended)} {x : List Extended}
    (hcol : ∀ e ∈ row, e.1 < n) (hrow : ∀ e ∈ row, e.2.IsReal) (hx : Vec.IsReal x) :
    rowDot row x = ((∑ j : Fin n, rowEntry row j * Vec.reals n x j : ℝ) : Extended) := by
  have hl : Vec.IsReal (row.map fun e => e.2 * Vec.coord x e.1) := by
    rintro a ha
    rcases List.mem_map.mp ha with ⟨e, he, rfl⟩
    exact isReal_mul_iff.mpr ⟨hrow e he, hx.coord _⟩
  have hsum := Vec.foldl_add_real hl 0
  rw [List.foldl_map] at hsum
  rw [rowDot, zero_eq, hsum, zero_add, List.map_map]
  congr 1
  have hmap : row.map (toReal ∘ fun e => e.2 * Vec.coord x e.1) =
      row.map fun e => e.2.toReal * (Vec.coord x e.1).toReal := by
    apply List.map_congr_left
    intro e he
    rw [Function.comp_apply, (hrow e he).eq, (hx.coord e.1).eq, real_mul_real]
    rfl
  rw [hmap]
  exact sum_row_eq hcol fun j => (Vec.coord x j).toReal

theorem coord_apply {α : Type} [Scalar α] (A : SparseMatrix α) (x : List α) {i : ℕ}
    (h : i < A.height) : Vec.coord (A.apply x) i = rowDot (A.row i) x := by
  rw [apply, rows, List.map_map]
  exact Vec.coord_map_range ((rowDot · x) ∘ A.row) h

section Product

variable {A : SparseMatrix Extended} {x y : List Extended} (hA : A.IsReal) (hr : A.Readable)
include hA hr

theorem coord_apply_eq (hx : Vec.IsReal x) {i : ℕ} (h : i < A.height) :
    Vec.coord (A.apply x) i =
      ((∑ j : Fin A.cols, rowEntry (A.row i) j * Vec.reals A.cols x j : ℝ) : Extended) := by
  rw [coord_apply A x h, rowDot_eq (hr.col_lt h) (hA.row i) hx]

theorem isReal_apply (hx : Vec.IsReal x) : Vec.IsReal (A.apply x) := by
  apply Vec.isReal_of_coord
  intro i hi
  rw [coord_apply_eq hA hr hx (by simpa using hi)]
  exact isReal_real _

/-- The product with a sparse matrix is the product with its dense meaning. -/
theorem reals_apply (hx : Vec.IsReal x) :
    Vec.reals A.height (A.apply x) = A.dense A.height A.cols *ᵥ Vec.reals A.cols x := by
  funext i
  rw [Vec.reals, coord_apply_eq hA hr hx i.isLt]
  rfl

theorem reals_apply_of_eq {m n : ℕ} (hm : A.height = m) (hn : A.cols = n) (hx : Vec.IsReal x) :
    Vec.reals m (A.apply x) = A.dense m n *ᵥ Vec.reals n x := by
  subst hm hn
  exact reals_apply hA hr hx

end Product

/-! ## Transposed products -/

theorem coord_modify {α : Type} [Scalar α] (x : List α) (f : α → α) (i j : ℕ) :
    Vec.coord (x.modify i f) j =
      if i = j ∧ j < x.length then f (Vec.coord x j) else Vec.coord x j := by
  rw [Vec.coord, Vec.coord, List.getElem?_modify]
  by_cases hij : i = j <;> by_cases hj : j < x.length <;> simp [hij, hj]

section Scatter

variable {row : List (ℕ × Extended)} {x : List Extended} {c : Extended}

theorem isReal_scatter (hrow : ∀ e ∈ row, e.2.IsReal) (hc : c.IsReal) (hx : Vec.IsReal x) :
    Vec.IsReal (Vec.scatter x row c) := by
  unfold Vec.scatter
  induction row generalizing x with
  | nil => exact hx
  | cons e row ih =>
      rcases List.forall_mem_cons.mp hrow with ⟨he, hrow⟩
      refine ih hrow (Vec.isReal_of_coord fun j _ => ?_)
      rw [coord_modify]
      split
      · simp [hx.coord j, he, hc]
      · exact hx.coord j

/-- Each coordinate gains its multiple of the entries of the row. -/
theorem reals_scatter {n : ℕ} (hlen : n ≤ x.length) (hrow : ∀ e ∈ row, e.2.IsReal)
    (hc : c.IsReal) (hx : Vec.IsReal x) :
    Vec.reals n (Vec.scatter x row c) =
      Vec.reals n x + c.toReal • fun j : Fin n => rowEntry row j := by
  induction row generalizing x with
  | nil =>
      funext j
      simp [Vec.scatter]
  | cons e row ih =>
      rcases List.forall_mem_cons.mp hrow with ⟨he, hrow'⟩
      have hstep : Vec.scatter x (e :: row) c =
          Vec.scatter (x.modify e.1 (· + e.2 * c)) row c := rfl
      have hone : Vec.scatter x [e] c = x.modify e.1 (· + e.2 * c) := rfl
      have hx' : Vec.IsReal (x.modify e.1 (· + e.2 * c)) :=
        hone ▸ isReal_scatter (by simpa using he) hc hx
      rw [hstep, ih (by simpa using hlen) hrow' hx']
      funext j
      have hj : (j : ℕ) < x.length := by omega
      rcases he with ⟨v, hv⟩
      rcases hc with ⟨w, rfl⟩
      simp only [Vec.reals, Pi.add_apply, Pi.smul_apply, smul_eq_mul, rowEntry_cons,
        coord_modify, hj, and_true, hv]
      rw [(hx.coord j).eq]
      split
      · simp only [real_mul_real, real_add_real, toReal_real]
        ring
      · simp

end Scatter

/-- A fold that scatters rows adds up the multiples of the rows. -/
theorem reals_foldl_scatter {β : Type} (l : List β) (row : β → List (ℕ × Extended))
    (c : β → Extended) {n : ℕ} {x : List Extended} (hlen : n ≤ x.length) (hx : Vec.IsReal x)
    (hl : ∀ e ∈ l, (∀ v ∈ row e, v.2.IsReal) ∧ (c e).IsReal) :
    Vec.IsReal (l.foldl (fun acc e => Vec.scatter acc (row e) (c e)) x) ∧
      Vec.reals n (l.foldl (fun acc e => Vec.scatter acc (row e) (c e)) x) =
        Vec.reals n x +
          fun j : Fin n => (l.map fun e => (c e).toReal * rowEntry (row e) j).sum := by
  induction l generalizing x with
  | nil => exact ⟨hx, by funext j; simp⟩
  | cons e l ih =>
      rcases List.forall_mem_cons.mp hl with ⟨he, hl⟩
      have hlen' : n ≤ (Vec.scatter x (row e) (c e)).length := by simpa using hlen
      have hnext := ih hlen' (isReal_scatter he.1 he.2 hx) hl
      refine ⟨hnext.1, ?_⟩
      rw [List.foldl_cons, hnext.2, reals_scatter hlen he.1 he.2 hx]
      funext j
      simp [add_assoc]

theorem length_foldl_scatter {α β : Type} [Scalar α] (l : List β) (row : β → List (ℕ × α))
    (c : β → α) (x : List α) :
    (l.foldl (fun acc e => Vec.scatter acc (row e) (c e)) x).length = x.length := by
  induction l generalizing x with
  | nil => rfl
  | cons e l ih => rw [List.foldl_cons, ih, Vec.length_scatter]

section Transpose

variable {A : SparseMatrix Extended} {y : List Extended} (hA : A.IsReal) (hy : Vec.IsReal y)
include hA hy

theorem real_rows_zip : ∀ e ∈ A.rows.zip y, (∀ v ∈ e.1, v.2.IsReal) ∧ e.2.IsReal := by
  intro e he
  obtain ⟨hrow, hval⟩ := List.of_mem_zip he
  rcases mem_rows.mp hrow with ⟨i, _, hi⟩
  exact ⟨hi ▸ hA.row i, hy _ hval⟩

theorem isReal_applyTranspose : Vec.IsReal (A.applyTranspose y) :=
  (reals_foldl_scatter (A.rows.zip y) Prod.fst Prod.snd (n := A.cols) (by simp)
    (Vec.isReal_zeros _) (real_rows_zip hA hy)).1

/-- The product with the transpose is the product with the transpose of the dense meaning. -/
theorem reals_applyTranspose (hlen : y.length = A.height) :
    Vec.reals A.cols (A.applyTranspose y) =
      (A.dense A.height A.cols)ᵀ *ᵥ Vec.reals A.height y := by
  rw [applyTranspose, (reals_foldl_scatter (A.rows.zip y) Prod.fst Prod.snd (n := A.cols)
    (by simp) (Vec.isReal_zeros _) (real_rows_zip hA hy)).2, Vec.reals_zeros, zero_add]
  funext j
  have hzip : A.rows.zip y =
      List.ofFn fun i : Fin A.height => (A.row i, Vec.coord y i) := by
    conv_lhs => rw [Vec.eq_ofFn hlen]
    apply List.ext_getElem
    · simp [rows]
    · intro i _ _
      simp [rows]
  rw [hzip, List.map_ofFn, List.sum_ofFn]
  apply Finset.sum_congr rfl
  intro i _
  exact mul_comm _ _

end Transpose

/-! ## Changes on the pattern -/

theorem isReal_mergeWith {β : Type} {f : Extended → β → Extended}
    (hf : ∀ a b, a.IsReal → (f a b).IsReal) {x : List Extended} (hx : Vec.IsReal x)
    (y : List β) : Vec.IsReal (Vec.mergeWith f x y) := by
  induction x generalizing y with
  | nil => exact Vec.isReal_nil
  | cons a x ih =>
      rcases Vec.isReal_cons.mp hx with ⟨ha, hx'⟩
      cases y with
      | nil => exact hx
      | cons b y => exact Vec.isReal_cons.mpr ⟨hf a b ha, ih hx' y⟩

theorem isReal_mapStored {A : SparseMatrix Extended} (hA : A.IsReal)
    {f : ℕ → ℕ → Extended → Extended} (hf : ∀ i j v, v.IsReal → (f i j v).IsReal) :
    (A.mapStored f).IsReal := by
  intro v hv
  have hx : Vec.IsReal A.values.toList := fun a ha => hA a (Array.mem_toList_iff.mp ha)
  exact isReal_mergeWith (fun a p ha => hf p.1 p.2 a ha) hx A.positions v
    (Array.mem_toList_iff.mpr hv)

end SeqQuad.SparseMatrix
