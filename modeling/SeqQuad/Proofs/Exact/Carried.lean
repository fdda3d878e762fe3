import SeqQuad.Proofs.Exact.Vector

/-!
# Vectors in another order

A bijection of positions carries one real vector to another, where entries may change their signs.
Norms, sums and products do not notice it.
-/

namespace SeqQuad.Vec

open Extended Matrix Scalar

/-! ## Folds in any order -/

/-- What is commutative and associative over real numbers folds them in any order. -/
theorem foldl_perm {f : Extended → Extended → Extended} {g : ℝ → ℝ → ℝ}
    (hf : ∀ a b : ℝ, f a b = ((g a b : ℝ) : Extended)) [Std.Commutative g] [Std.Associative g]
    {l l' : List Extended} (hl : IsReal l) (h : l'.Perm l) (c : ℝ) :
    l'.foldl f (c : Extended) = l.foldl f (c : Extended) := by
  have hl' : IsReal l' := fun a ha => hl a (h.mem_iff.mp ha)
  rw [hl.eq_map, hl'.eq_map, foldl_map_real hf, foldl_map_real hf, (h.map toReal).foldl_eq]

theorem sum_perm {l l' : List Extended} (hl : IsReal l) (h : l'.Perm l) : sum l' = sum l := by
  have hzero : (-0 : Extended) = ((-0 : ℝ) : Extended) := rfl
  rw [sum, sum, hzero]
  exact foldl_perm real_add_real hl h (-0)

/-! ## Carried vectors -/

theorem norm_eq_of_equiv {ι κ : Type} [Fintype ι] [Fintype κ] (e : ι ≃ κ) {v : ι → ℝ} {w : κ → ℝ}
    (h : ∀ i, |w (e i)| = |v i|) : ‖w‖ = ‖v‖ := by
  apply eq_of_forall_ge_iff
  intro t
  by_cases ht : 0 ≤ t
  · rw [pi_norm_le_iff_of_nonneg ht, pi_norm_le_iff_of_nonneg ht, ← e.forall_congr_right]
    simp only [Real.norm_eq_abs, h]
  · exact iff_of_false (fun hle => ht ((norm_nonneg w).trans hle))
      fun hle => ht ((norm_nonneg v).trans hle)

theorem ofFn_perm {α : Type} {n m : ℕ} (e : Fin n ≃ Fin m) (f : Fin m → α) :
    (List.ofFn (f ∘ e)).Perm (List.ofFn f) := by
  obtain rfl := Fin.equiv_iff_eq.mp ⟨e⟩
  exact Equiv.Perm.ofFn_comp_perm e f

/-- The real vector `y` has the entries of `x` at other positions, times some factors. -/
structure Carried {n m : ℕ} (e : Fin n ≃ Fin m) (s : Fin n → ℝ) (x y : List Extended) :
    Prop where
  real : IsReal x
  real' : IsReal y
  length : x.length = n
  length' : y.length = m
  reals_eq : ∀ k, reals m y (e k) = s k * reals n x k

namespace Carried

variable {n m : ℕ} {e : Fin n ≃ Fin m} {s : Fin n → ℝ} {x y d d' : List Extended}

theorem zeros (e : Fin n ≃ Fin m) (s : Fin n → ℝ) :
    Carried e s (Vec.zeros n) (Vec.zeros m) where
  real := isReal_zeros n
  real' := isReal_zeros m
  length := length_zeros n
  length' := length_zeros m
  reals_eq k := by rw [reals_zeros, reals_zeros, Pi.zero_apply, Pi.zero_apply, mul_zero]

theorem along (h : Carried e s x y) (hd : Carried e s d d') (t : ℝ) :
    Carried e s (Vec.along x d t) (Vec.along y d' t) where
  real := h.real.along hd.real (isReal_real t)
  real' := h.real'.along hd.real' (isReal_real t)
  length := by simp [h.length, hd.length]
  length' := by simp [h.length', hd.length']
  reals_eq k := by
    rw [reals_along h.real hd.real h.length.ge hd.length.ge,
      reals_along h.real' hd.real' h.length'.ge hd.length'.ge]
    simp only [Pi.add_apply, Pi.smul_apply, smul_eq_mul, h.reals_eq, hd.reals_eq]
    ring

/-! ### Signs -/

section Signs

variable (h : Carried e s x y) (hs : ∀ k, s k * s k = 1)
include h hs

theorem normInf : Vec.normInf y = Vec.normInf x := by
  rw [normInf_eq h.length h.real, normInf_eq h.length' h.real', norm_eq_of_equiv e fun k => ?_]
  have habs : |s k| = 1 := by
    rcases mul_self_eq_one_iff.mp (hs k) with hk | hk <;> simp [hk]
  rw [h.reals_eq, abs_mul, habs, one_mul]

theorem dotProduct_self : reals m y ⬝ᵥ reals m y = reals n x ⬝ᵥ reals n x := by
  refine (e.sum_comp _).symm.trans (Finset.sum_congr rfl fun k _ => ?_)
  rw [h.reals_eq]
  linear_combination reals n x k * reals n x k * hs k

/-- A product with a transposed matrix whose rows are carried alike. -/
theorem transpose_mulVec {κ : Type} {A : Matrix (Fin n) κ ℝ} {B : Matrix (Fin m) κ ℝ}
    (hrows : ∀ k j, B (e k) j = s k * A k j) : Bᵀ *ᵥ reals m y = Aᵀ *ᵥ reals n x := by
  funext j
  refine (e.sum_comp _).symm.trans (Finset.sum_congr rfl fun k _ => ?_)
  show B (e k) j * reals m y (e k) = A k j * reals n x k
  rw [h.reals_eq, hrows]
  linear_combination A k j * reals n x k * hs k

end Signs

/-! ### Another order alone -/

section Order

variable (h : Carried e 1 x y)
include h

theorem coord_eq (k : Fin n) : coord y (e k) = coord x k := by
  rw [h.real.coord_eq, h.real'.coord_eq, h.reals_eq, Pi.one_apply, one_mul]

theorem perm : y.Perm x := by
  rw [eq_ofFn h.length, eq_ofFn h.length']
  have hcarried : (fun i : Fin n => coord x i) = (fun i : Fin m => coord y i) ∘ e :=
    funext fun k => (h.coord_eq k).symm
  rw [hcarried]
  exact (ofFn_perm e _).symm

theorem zip_perm (hd : Carried e 1 d d') : (y.zip d').Perm (x.zip d) := by
  have hzip : ∀ {k : ℕ} {a b : List Extended}, a.length = k → b.length = k →
      a.zip b = List.ofFn fun i : Fin k => (coord a i, coord b i) := fun ha hb =>
    List.zip_eq_zipWith ▸ zipWith_eq_ofFn Prod.mk ha hb.ge
  have hcarried : (fun i : Fin n => (coord x i, coord d i)) =
      (fun i : Fin m => (coord y i, coord d' i)) ∘ e :=
    funext fun k => Prod.ext (h.coord_eq k).symm (hd.coord_eq k).symm
  rw [hzip h.length hd.length, hzip h.length' hd.length', hcarried]
  exact (ofFn_perm e _).symm

theorem sum_mul (hd : Carried e 1 d d') :
    Vec.sum (List.zipWith (· * ·) y d') = Vec.sum (List.zipWith (· * ·) x d) := by
  have hreal : IsReal (List.zipWith (· * ·) x d) :=
    isReal_zipWith (fun _ _ ha hb => isReal_mul_iff.mpr ⟨ha, hb⟩) h.real hd.real
  rw [← List.map_uncurry_zip_eq_zipWith] at hreal ⊢
  rw [← List.map_uncurry_zip_eq_zipWith]
  exact sum_perm hreal ((h.zip_perm hd).map _)

theorem length_eq : y.length = x.length := by
  rw [h.length, h.length', Fin.equiv_iff_eq.mp ⟨e⟩]

theorem map {f : Extended → Extended} (hx : IsReal (x.map f)) (hy : IsReal (y.map f)) :
    Carried e 1 (x.map f) (y.map f) where
  real := hx
  real' := hy
  length := (List.length_map f).trans h.length
  length' := (List.length_map f).trans h.length'
  reals_eq k := by
    have hk : ∀ {n : ℕ} (a : List Extended) (i : Fin n), a.length = n →
        coord (a.map f) i = f (coord a i) := fun a i ha => by
      have hi : (i : ℕ) < a.length := ha ▸ i.isLt
      simp [coord, hi]
    rw [reals, reals, hk y _ h.length', hk x _ h.length, h.coord_eq, Pi.one_apply, one_mul]

end Order

end Carried

end SeqQuad.Vec
