import SeqQuad.Proofs.Nonlinear.Recast
import SeqQuad.Proofs.Quadratic.Rewriting

/-!
# Forms of the same constraints

Three ways to write the constraints of a quadratic program anew: with the rows in another order,
with a row negated, and with the bounds on a variable as a row. The interior point method does not
tell them apart.
-/

namespace SeqQuad

open Extended Scalar SparseMatrix

namespace QuadraticProgram

variable (qp : QuadraticProgram Extended)

/-! ## Other rows -/

/-- The same program with other rows and other bounds. -/
noncomputable def withRows (lbx ubx : List Extended) (rows : List (List (ℕ × Extended)))
    (lba uba : List Extended) : QuadraticProgram Extended where
  h := qp.h
  g := qp.g
  lbx := lbx
  ubx := ubx
  a := .ofRows qp.a.cols rows
  lba := lba
  uba := uba

section WithRows

variable {qp} {lbx ubx lba uba : List Extended} {rows : List (List (ℕ × Extended))}

theorem rowCount_withRows : (qp.withRows lbx ubx rows lba uba).rowCount = rows.length :=
  height_ofRows _ _

/-- A row of the program with other rows. -/
theorem coefAt_withRows (k : Fin (qp.withRows lbx ubx rows lba uba).rowCount) :
    (qp.withRows lbx ubx rows lba uba).coefAt (.inr k) =
      rows.get ⟨k, k.isLt.trans_eq rowCount_withRows⟩ :=
  row_ofRows _ _ _

theorem Consistent.withRows (h : qp.Consistent)
    (hrows : ∀ row ∈ rows, ∀ e ∈ row, e.1 < qp.variableCount ∧ e.2.IsReal)
    (hlbx : lbx.length = qp.variableCount) (hubx : ubx.length = qp.variableCount)
    (hlba : lba.length = rows.length) (huba : uba.length = rows.length) :
    (qp.withRows lbx ubx rows lba uba).Consistent where
  exact := ⟨h.exact.hessian, h.exact.gradient,
    isReal_of_rows fun row hrow e he => (hrows row hrow e he).2⟩
  hessian := h.hessian
  constraints := wellFormed_ofRows fun row hrow e he => by
    rw [h.constraint_cols]
    exact (hrows row hrow e he).1
  height := h.height
  cols := h.cols
  constraint_cols := (cols_ofRows _ _).trans h.constraint_cols
  lbx := hlbx
  ubx := hubx
  lba := hlba.trans rowCount_withRows.symm
  uba := huba.trans rowCount_withRows.symm
  symmetric := h.symmetric

theorem Consistent.mem_rows (h : qp.Consistent) :
    ∀ row ∈ qp.a.rows, ∀ e ∈ row, e.1 < qp.variableCount ∧ e.2.IsReal := by
  intro row hrow e he
  obtain ⟨k, -, rfl⟩ := SparseMatrix.mem_rows.mp hrow
  refine ⟨?_, h.exact.constraints.row k e he⟩
  rw [← h.constraint_cols]
  exact h.constraints.readable.2 _ hrow e he

theorem length_rows : qp.a.rows.length = qp.rowCount := by
  rw [SparseMatrix.rows, List.length_map, List.length_range, rowCount]

theorem getElem_rows {k : ℕ} (hk : k < qp.a.rows.length) : qp.a.rows[k] = qp.a.row k := by
  simp [SparseMatrix.rows]

end WithRows

/-! ## Rows in another order -/

/-- The same program with its rows in another order. -/
noncomputable def permuted (σ : Equiv.Perm (Fin qp.rowCount)) : QuadraticProgram Extended :=
  qp.withRows qp.lbx qp.ubx (List.ofFn fun k => qp.a.row (σ k))
    (List.ofFn fun k => Vec.coord qp.lba (σ k)) (List.ofFn fun k => Vec.coord qp.uba (σ k))

section Permuted

variable {qp} (σ : Equiv.Perm (Fin qp.rowCount))

theorem rowCount_permuted : (qp.permuted σ).rowCount = qp.rowCount :=
  rowCount_withRows.trans List.length_ofFn

theorem Consistent.permuted (h : qp.Consistent) : (qp.permuted σ).Consistent :=
  h.withRows (List.forall_mem_ofFn_iff.mpr fun k =>
      h.mem_rows _ (SparseMatrix.mem_rows.mpr ⟨σ k, (σ k).isLt, rfl⟩))
    h.lbx h.ubx (by simp) (by simp)

/-- The places of the rows. -/
noncomputable def rowPermuted : Fin qp.rowCount ≃ Fin (qp.permuted σ).rowCount :=
  σ.symm.trans (finCongr (rowCount_permuted σ).symm)

/-- Every row has changed its place. -/
noncomputable def rewritingPermuted : Rewriting qp (qp.permuted σ) where
  pair := Sum.map id (rowPermuted σ)
  turned _ := false
  injective := Function.injective_id.sumMap (rowPermuted σ).injective
  hessian := rfl
  gradient := rfl
  kept i _ := by
    cases i with
    | inl j => exact ⟨rfl, rfl, rfl⟩
    | inr k =>
        refine ⟨?_, ?_, (coefAt_withRows _).trans ?_⟩
        · exact (Vec.coord_ofFn _ (σ.symm k)).trans (by rw [Equiv.apply_symm_apply]; rfl)
        · exact (Vec.coord_ofFn _ (σ.symm k)).trans (by rw [Equiv.apply_symm_apply]; rfl)
        · simp [rowPermuted, coefAt]
  flipped _ h := nomatch h
  gapped _ h := nomatch h
  free i' h := by
    obtain ⟨i, hi⟩ := Function.surjective_id.sumMap (rowPermuted σ).surjective i'
    exact absurd hi (h i)

end Permuted

/-! ## A row negated -/

/-- The same program with the row `k` negated and its bounds turned around. -/
noncomputable def negated (k : ℕ) : QuadraticProgram Extended :=
  qp.withRows qp.lbx qp.ubx (qp.a.rows.modify k fun row => row.map fun e => (e.1, -e.2))
    (qp.lba.set k (-Vec.coord qp.uba k)) (qp.uba.set k (-Vec.coord qp.lba k))

section Negated

variable {qp} {k : ℕ}

theorem rowCount_negated : (qp.negated k).rowCount = qp.rowCount := by
  rw [negated, rowCount_withRows, List.length_modify, length_rows]

theorem Consistent.negated (h : qp.Consistent) : (qp.negated k).Consistent := by
  refine h.withRows (fun row hrow => ?_) h.lbx h.ubx ?_ ?_
  · obtain ⟨i, hi, rfl⟩ := List.getElem_of_mem hrow
    rw [List.length_modify] at hi
    have hmem := h.mem_rows _ (List.getElem_mem hi)
    rw [List.getElem_modify]
    split
    · intro e he
      obtain ⟨v, hv, rfl⟩ := List.mem_map.mp he
      exact ⟨(hmem v hv).1, isReal_neg_iff.mpr (hmem v hv).2⟩
    · exact hmem
  · rw [List.length_set, List.length_modify, length_rows, h.lba]
  · rw [List.length_set, List.length_modify, length_rows, h.uba]

/-- The row `k` is turned around. -/
noncomputable def rewritingNegated (h : qp.Consistent) (k : Fin qp.rowCount)
    (hgap : qp.Gapped (.inr k)) : Rewriting qp (qp.negated k) where
  pair := Sum.map id (finCongr rowCount_negated.symm)
  turned
    | .inl _ => false
    | .inr l => decide (l = k)
  injective := Function.injective_id.sumMap (finCongr rowCount_negated.symm).injective
  hessian := rfl
  gradient := rfl
  kept i hi := by
    cases i with
    | inl j => exact ⟨rfl, rfl, rfl⟩
    | inr l =>
        have hne : (l : ℕ) ≠ k := fun heq => (of_decide_eq_false hi) (Fin.ext heq)
        refine ⟨Vec.coord_set_of_ne hne _, Vec.coord_set_of_ne hne _,
          (coefAt_withRows _).trans ?_⟩
        simp [hne.symm, getElem_rows, coefAt]
  flipped i hi := by
    cases i with
    | inl j => cases hi
    | inr l =>
        obtain rfl : l = k := of_decide_eq_true hi
        refine ⟨Vec.coord_set_self (by rw [h.lba]; exact l.isLt) _,
          Vec.coord_set_self (by rw [h.uba]; exact l.isLt) _, (coefAt_withRows _).trans ?_⟩
        simp [getElem_rows, coefAt]
  gapped i hi := by
    cases i with
    | inl j => cases hi
    | inr l =>
        obtain rfl : l = k := of_decide_eq_true hi
        exact hgap
  free i' h := by
    obtain ⟨i, hi⟩ :=
      Function.surjective_id.sumMap (finCongr rowCount_negated.symm).surjective i'
    exact absurd hi (h i)

end Negated

/-! ## Bounds as a row -/

/-- The program whose last row has taken over the bounds on the variable `j`. -/
noncomputable def withBoundRow (j : ℕ) : QuadraticProgram Extended :=
  qp.withRows (qp.lbx.set j negInf) (qp.ubx.set j posInf) (qp.a.rows ++ [[(j, 1)]])
    (qp.lba ++ [Vec.coord qp.lbx j]) (qp.uba ++ [Vec.coord qp.ubx j])

section Recast

variable {qp}

theorem Consistent.recast_eq (h : qp.Consistent) (j : ℕ) : qp.recast j = qp.withBoundRow j := by
  rw [recast, pushUnit_of_readable h.constraints.readable]
  rfl

theorem rowCount_withBoundRow (j : ℕ) : (qp.withBoundRow j).rowCount = qp.rowCount + 1 := by
  rw [withBoundRow, rowCount_withRows, List.length_append, length_rows]
  rfl

theorem Consistent.withBoundRow (h : qp.Consistent) (j : Fin qp.variableCount) :
    (qp.withBoundRow j).Consistent := by
  refine h.withRows (List.forall_mem_append.mpr ⟨h.mem_rows, ?_⟩) ?_ ?_ ?_ ?_
  · rintro row (_ | ⟨_, ⟨⟩⟩) e (_ | ⟨_, ⟨⟩⟩)
    exact ⟨j.isLt, isReal_real 1⟩
  · rw [List.length_set, h.lbx]
  · rw [List.length_set, h.ubx]
  · rw [List.length_append, List.length_append, length_rows, h.lba]
    rfl
  · rw [List.length_append, List.length_append, length_rows, h.uba]
    rfl

/-- The last row. -/
noncomputable def boundRow (qp : QuadraticProgram Extended) (j : ℕ) :
    Fin (qp.withBoundRow j).rowCount :=
  (Fin.last qp.rowCount).cast (rowCount_withBoundRow j).symm

/-- A row that was there before. -/
noncomputable def oldRow (j : ℕ) (k : Fin qp.rowCount) : Fin (qp.withBoundRow j).rowCount :=
  k.castSucc.cast (rowCount_withBoundRow j).symm

theorem eq_boundRow_or_oldRow (j : ℕ) (k' : Fin (qp.withBoundRow j).rowCount) :
    k' = qp.boundRow j ∨ ∃ k, k' = oldRow j k := by
  rcases Fin.eq_castSucc_or_eq_last (k'.cast (rowCount_withBoundRow j)) with ⟨k, hk⟩ | hk
  · exact .inr ⟨k, Fin.cast_injective (rowCount_withBoundRow j) hk⟩
  · exact .inl (Fin.cast_injective (rowCount_withBoundRow j) hk)

theorem oldRow_ne_boundRow (j : ℕ) (k : Fin qp.rowCount) : oldRow j k ≠ qp.boundRow j :=
  fun h => Fin.castSucc_ne_last k (Fin.cast_injective _ h)

/-- The last row and its bounds. -/
theorem Consistent.boundRow_eq (h : qp.Consistent) (j : Fin qp.variableCount) :
    (qp.withBoundRow j).lowerAt (.inr (qp.boundRow j)) = qp.lowerAt (.inl j) ∧
      (qp.withBoundRow j).upperAt (.inr (qp.boundRow j)) = qp.upperAt (.inl j) ∧
      (qp.withBoundRow j).coefAt (.inr (qp.boundRow j)) = qp.coefAt (.inl j) := by
  refine ⟨Vec.coord_append_last h.lba _, Vec.coord_append_last h.uba _,
    (coefAt_withRows _).trans ?_⟩
  have hlen : qp.a.rows.length = qp.rowCount := length_rows
  simp [boundRow, coefAt, hlen]

theorem Consistent.oldRow_eq (h : qp.Consistent) (j : ℕ) (k : Fin qp.rowCount) :
    (qp.withBoundRow j).lowerAt (.inr (oldRow j k)) = qp.lowerAt (.inr k) ∧
      (qp.withBoundRow j).upperAt (.inr (oldRow j k)) = qp.upperAt (.inr k) ∧
      (qp.withBoundRow j).coefAt (.inr (oldRow j k)) = qp.coefAt (.inr k) := by
  have hk : (k : ℕ) < qp.a.rows.length := length_rows.symm ▸ k.isLt
  refine ⟨Vec.coord_append_of_lt (h.lba.symm ▸ k.isLt) _,
    Vec.coord_append_of_lt (h.uba.symm ▸ k.isLt) _, (coefAt_withRows _).trans ?_⟩
  simp [oldRow, coefAt, hk, getElem_rows]

/-- The other variables keep their bounds. -/
theorem otherVariable_eq {i j : Fin qp.variableCount} (hij : i ≠ j) :
    (qp.withBoundRow j).lowerAt (.inl i) = qp.lowerAt (.inl i) ∧
      (qp.withBoundRow j).upperAt (.inl i) = qp.upperAt (.inl i) ∧
      (qp.withBoundRow j).coefAt (.inl i) = qp.coefAt (.inl i) :=
  have hne : (i : ℕ) ≠ j := fun h => hij (Fin.ext h)
  ⟨Vec.coord_set_of_ne hne _, Vec.coord_set_of_ne hne _, rfl⟩

/-- The bounds on the variable `j` have become the last row. -/
noncomputable def rewritingRecast (h : qp.Consistent) (j : Fin qp.variableCount) :
    Rewriting qp (qp.withBoundRow j) where
  pair
    | .inl i => if i = j then .inr (qp.boundRow j) else .inl i
    | .inr k => .inr (oldRow j k)
  turned _ := false
  injective := by
    rintro (i | k) (i' | k') heq
    · dsimp only at heq
      split at heq <;> split at heq
      · rename_i hi hi'
        rw [hi, hi']
      · cases heq
      · cases heq
      · exact congrArg Sum.inl (Sum.inl.inj heq)
    · dsimp only at heq
      split at heq
      · exact absurd (Sum.inr.inj heq).symm (oldRow_ne_boundRow j k')
      · cases heq
    · dsimp only at heq
      split at heq
      · exact absurd (Sum.inr.inj heq) (oldRow_ne_boundRow j k)
      · cases heq
    · have hcast := Fin.cast_injective _ (Sum.inr.inj heq)
      exact congrArg Sum.inr (Fin.castSucc_injective _ hcast)
  hessian := rfl
  gradient := rfl
  kept i _ := by
    cases i with
    | inl i =>
        dsimp only
        split
        · rename_i hi
          rw [hi]
          exact h.boundRow_eq j
        · rename_i hi
          exact otherVariable_eq hi
    | inr k => exact h.oldRow_eq j k
  flipped _ h := nomatch h
  gapped _ h := nomatch h
  free i' hi' := by
    cases i' with
    | inl i =>
        by_cases hij : i = j
        · have hlower : (qp.withBoundRow j).lowerAt (.inl i) = negInf :=
            hij ▸ Vec.coord_set_self (h.lbx.symm ▸ i.isLt) _
          have hupper : (qp.withBoundRow j).upperAt (.inl i) = posInf :=
            hij ▸ Vec.coord_set_self (h.ubx.symm ▸ i.isLt) _
          rw [hlower, hupper]
          exact ⟨not_isReal_negInf, not_isReal_posInf⟩
        · exact absurd (if_neg hij) (hi' (.inl i))
    | inr k' =>
        rcases eq_boundRow_or_oldRow j k' with rfl | ⟨k, rfl⟩
        · exact absurd (if_pos rfl) (hi' (.inl j))
        · exact absurd rfl (hi' (.inr k))

end Recast

end QuadraticProgram

/-! ## Answers -/

namespace QuadraticSolution

/-- The same answer with the multipliers of the rows in another order. -/
noncomputable def permuted {n : ℕ} (σ : Equiv.Perm (Fin n)) (sol : QuadraticSolution Extended) :
    QuadraticSolution Extended :=
  { sol with lamA := List.ofFn fun k => Vec.coord sol.lamA (σ k) }

/-- The same answer with the multiplier of the row `k` negated. -/
noncomputable def negated (k : ℕ) (sol : QuadraticSolution Extended) :
    QuadraticSolution Extended :=
  { sol with lamA := sol.lamA.modify k (- ·) }

end QuadraticSolution

namespace QuadraticProgram

section Answers

variable {qp : QuadraticProgram Extended} {sol sol' : QuadraticSolution Extended}

theorem eq_permuted {σ : Equiv.Perm (Fin qp.rowCount)}
    (h : (rewritingPermuted σ).Answers sol sol') : sol' = sol.permuted σ := by
  have hlamX : sol'.lamX = sol.lamX :=
    Vec.ext_coord h.lengths'.1 h.lengths.1 fun j => h.kept (.inl j) rfl
  have hlamA : sol'.lamA = List.ofFn fun k => Vec.coord sol.lamA (σ k) := by
    refine Vec.ext_coord (h.lengths'.2.trans (rowCount_permuted σ)) List.length_ofFn fun k => ?_
    have hkept : Vec.coord sol'.lamA (σ.symm (σ k)) = Vec.coord sol.lamA (σ k) :=
      h.kept (.inr (σ k)) rfl
    rw [Vec.coord_ofFn, ← hkept, Equiv.symm_apply_apply]
  rw [QuadraticSolution.permuted, ← h.x, ← hlamX, ← hlamA]

theorem eq_negated (hqp : qp.Consistent) {k : Fin qp.rowCount} (hgap : qp.Gapped (.inr k))
    (h : (rewritingNegated hqp k hgap).Answers sol sol') : sol' = sol.negated k := by
  have hlamX : sol'.lamX = sol.lamX :=
    Vec.ext_coord h.lengths'.1 h.lengths.1 fun j => h.kept (.inl j) rfl
  have hlamA : sol'.lamA = sol.lamA.modify k (- ·) := by
    refine Vec.ext_coord (h.lengths'.2.trans rowCount_negated)
      ((List.length_modify ..).trans h.lengths.2) fun l => ?_
    have hl : (l : ℕ) < sol.lamA.length := h.lengths.2.symm ▸ l.isLt
    rw [coord_modify]
    by_cases hlk : l = k
    · rw [if_pos ⟨congrArg Fin.val hlk.symm, hl⟩]
      exact h.flipped (.inr l) (decide_eq_true hlk)
    · rw [if_neg fun hkl => hlk (Fin.ext hkl.1.symm)]
      exact h.kept (.inr l) (decide_eq_false hlk)
  rw [QuadraticSolution.negated, ← h.x, ← hlamX, ← hlamA]

theorem eq_recast (hqp : qp.Consistent) {j : Fin qp.variableCount}
    (h : (rewritingRecast hqp j).Answers sol sol') : sol' = sol.recast j := by
  have hlamX : sol'.lamX = sol.lamX.set j 0 := by
    refine Vec.ext_coord h.lengths'.1 ((List.length_set ..).trans h.lengths.1) fun i => ?_
    by_cases hij : i = j
    · rw [hij, Vec.coord_set_self (h.lengths.1.symm ▸ j.isLt)]
      refine h.free (.inl j) fun i' hi' => ?_
      cases i' with
      | inl i' =>
          by_cases hne : i' = j
          · cases (if_pos hne).symm.trans hi'
          · exact hne (Sum.inl.inj ((if_neg hne).symm.trans hi'))
      | inr k => cases hi'
    · have hkept := h.kept (.inl i) rfl
      rw [Vec.coord_set_of_ne fun hval => hij (Fin.ext hval)]
      have hpair : (rewritingRecast hqp j).pair (.inl i) = .inl i := if_neg hij
      rw [hpair] at hkept
      exact hkept
  have hlamA : sol'.lamA = sol.lamA ++ [Vec.coord sol.lamX j] := by
    refine Vec.ext_coord h.lengths'.2 ?_ fun k' => ?_
    · rw [List.length_append, h.lengths.2, rowCount_withBoundRow]
      rfl
    · rcases eq_boundRow_or_oldRow j k' with rfl | ⟨k, rfl⟩
      · have hkept := h.kept (.inl j) rfl
        have hpair : (rewritingRecast hqp j).pair (.inl j) = .inr (qp.boundRow j) := if_pos rfl
        rw [hpair] at hkept
        exact hkept.trans (Vec.coord_append_last h.lengths.2 _).symm
      · exact (h.kept (.inr k) rfl).trans
          (Vec.coord_append_of_lt (h.lengths.2.symm ▸ k.isLt) _).symm
  rw [QuadraticSolution.recast, ← h.x, ← hlamX, ← hlamA]

end Answers

end QuadraticProgram

namespace InteriorPoint

open QuadraticProgram

/-- A solve does not depend on how the constraints are written: rows in another order, a row that
is negated while its bounds are turned around, and the bounds on a variable as a new row lead to
the same point or to an error as well, and to the same multipliers in their new places. -/
theorem solve_rewritten {qp : QuadraticProgram Extended} {opt : Options Extended}
    {solver : LinearSolver Extended} {x0 : List Extended} (hqp : qp.Consistent)
    (hx0 : Vec.IsReal x0) (hopt : opt.Sound) (hregular : solver.SolvesRegular)
    (hsingular : solver.RefusesSingular) :
    (∀ σ : Equiv.Perm (Fin qp.rowCount), Alike (fun _ => ()) (·.permuted σ)
      (solve opt solver qp x0).outcome (solve opt solver (qp.permuted σ) x0).outcome) ∧
    (∀ k : Fin qp.rowCount, qp.Gapped (.inr k) → Alike (fun _ => ()) (·.negated k)
      (solve opt solver qp x0).outcome (solve opt solver (qp.negated k) x0).outcome) ∧
    (∀ j : Fin qp.variableCount, Alike (fun _ => ()) (·.recast j)
      (solve opt solver qp x0).outcome (solve opt solver (qp.recast j) x0).outcome) := by
  refine ⟨fun σ => ?_, fun k hgap => ?_, fun j => ?_⟩
  · exact (rewritingPermuted σ).alike_solve hqp (hqp.permuted σ) hx0 hopt hregular hsingular
      fun _ _ => eq_permuted
  · exact (rewritingNegated hqp k hgap).alike_solve hqp hqp.negated hx0 hopt hregular hsingular
      fun _ _ => eq_negated hqp hgap
  · rw [hqp.recast_eq]
    exact (rewritingRecast hqp j).alike_solve hqp (hqp.withBoundRow j) hx0 hopt hregular hsingular
      fun _ _ => eq_recast hqp

section TwoRows

/-- Minimize half the square of `x` over `x = 1`, `x ≤ 1` and `0 ≤ x`. -/
noncomputable def twoRows : QuadraticProgram Extended where
  h := .ofRows 1 [[(0, 1)]]
  g := [0]
  lbx := [0]
  ubx := [posInf]
  a := .ofRows 1 [[(0, 1)], [(0, 1)]]
  lba := [1, negInf]
  uba := [1, 1]

theorem twoRows_consistent : twoRows.Consistent where
  exact := ⟨isReal_of_rows (by simp), by simp [twoRows, Vec.IsReal], isReal_of_rows (by simp)⟩
  hessian := wellFormed_ofRows (by simp)
  constraints := wellFormed_ofRows (by simp)
  height := rfl
  cols := rfl
  constraint_cols := rfl
  lbx := rfl
  ubx := rfl
  lba := rfl
  uba := rfl
  symmetric := by
    ext i j
    rw [Subsingleton.elim (α := Fin 1) i j]
    rfl

noncomputable def exchange : Equiv.Perm (Fin twoRows.rowCount) :=
  (Equiv.swap 0 1 : Equiv.Perm (Fin 2))

/-- The two rows exchanged, the first of them negated, and the bounds on `x` as a third row. -/
theorem twoRows_rewritten :
    let outcome := fun qp => (solve .default .inverting qp [0]).outcome
    Alike (fun _ => ()) (·.permuted exchange) (outcome twoRows)
        (outcome (twoRows.permuted exchange)) ∧
      Alike (fun _ => ()) (·.negated 0) (outcome twoRows) (outcome (twoRows.negated 0)) ∧
      Alike (fun _ => ()) (·.recast 0) (outcome twoRows) (outcome (twoRows.recast 0)) := by
  have hsound : (Options.default : Options Extended).Sound :=
    ⟨isReal_real _, isReal_real _, 1, one_pos, rfl⟩
  have hgap : twoRows.Gapped (.inr (0 : Fin 2)) :=
    fun l u hl hu => .inl (real_inj.mp (hl.symm.trans hu))
  obtain ⟨hpermuted, hnegated, hrecast⟩ := solve_rewritten twoRows_consistent
    (Vec.isReal_map_real [0]) hsound LinearSolver.inverting_solvesRegular
    LinearSolver.inverting_refusesSingular
  exact ⟨hpermuted exchange, hnegated (0 : Fin 2) hgap, hrecast (0 : Fin 1)⟩

end TwoRows

end InteriorPoint

end SeqQuad
