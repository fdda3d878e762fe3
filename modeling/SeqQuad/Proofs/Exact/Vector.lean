import SeqQuad.Proofs.Exact.Extended
import SeqQuad.Vec

/-!
# Vectors in exact arithmetic

A list of real numbers stands for a vector over the real numbers, and the operations on lists
are the operations on vectors. Sums and products also tell back: a dot product is real only if
every coordinate that takes part in it is.
-/

namespace SeqQuad.Vec

open Extended Scalar

def IsReal (x : List Extended) : Prop :=
  ∀ a ∈ x, a.IsReal

/-- The first `n` coordinates as a vector over the real numbers. -/
noncomputable def reals (n : ℕ) (x : List Extended) : Fin n → ℝ :=
  fun i => (coord x i).toReal

/-! ## Coordinates -/

section Coordinates

variable {α : Type} [Scalar α]

theorem coord_eq_getElem (x : List α) {j : ℕ} (h : j < x.length) : coord x j = x[j] := by
  simp [coord, h]

theorem coord_mem {x : List α} {j : ℕ} (h : j < x.length) : coord x j ∈ x := by
  rw [coord_eq_getElem x h]
  exact List.getElem_mem h

theorem coord_zipWith (f : α → α → α) {a b : List α} {j : ℕ} (ha : j < a.length)
    (hb : j < b.length) : coord (List.zipWith f a b) j = f (coord a j) (coord b j) := by
  simp [coord, ha, hb]

theorem coord_sub {a b : List α} {j : ℕ} (ha : j < a.length) (hb : j < b.length) :
    coord (sub a b) j = coord a j - coord b j :=
  coord_zipWith _ ha hb

theorem coord_along {x d : List α} (t : α) {j : ℕ} (hx : j < x.length) (hd : j < d.length) :
    coord (along x d t) j = coord x j + t * coord d j :=
  coord_zipWith _ hx hd

theorem coord_zeros (n j : ℕ) : coord (zeros n : List α) j = 0 := by
  by_cases h : j < n <;> simp [coord, zeros, h]

theorem coord_set_self {a : List α} {j : ℕ} (h : j < a.length) (v : α) :
    coord (a.set j v) j = v := by
  simp [coord, h]

theorem coord_set_of_ne {a : List α} {i j : ℕ} (h : i ≠ j) (v : α) :
    coord (a.set j v) i = coord a i := by
  simp [coord, List.getElem?_set_ne (Ne.symm h)]

theorem coord_append_of_lt {a : List α} {i : ℕ} (h : i < a.length) (v : α) :
    coord (a ++ [v]) i = coord a i := by
  simp [coord, List.getElem?_append_left h]

theorem coord_append_last {a : List α} {n : ℕ} (h : a.length = n) (v : α) :
    coord (a ++ [v]) n = v := by
  simp [coord, ← h]

theorem coord_map_range (f : ℕ → α) {n j : ℕ} (h : j < n) :
    coord ((List.range n).map f) j = f j := by
  simp [coord, h]

theorem coord_ofFn {n : ℕ} (f : Fin n → α) (k : Fin n) : coord (List.ofFn f) k = f k := by
  simp [coord]

/-- A list is the list of its coordinates. -/
theorem eq_ofFn {x : List α} {n : ℕ} (h : x.length = n) :
    x = List.ofFn fun i : Fin n => coord x i := by
  subst h
  apply List.ext_getElem
  · simp
  · intro j hj _
    simp [coord_eq_getElem x hj]

theorem ext_coord {x y : List α} {n : ℕ} (hx : x.length = n) (hy : y.length = n)
    (h : ∀ j : Fin n, coord x j = coord y j) : x = y := by
  rw [eq_ofFn hx, eq_ofFn hy]
  exact congrArg List.ofFn (funext h)

/-- A list is paired with the coordinates of another. -/
theorem zip_eq_ofFn {β : Type} (l : List β) {y : List α} (h : y.length = l.length) :
    l.zip y = List.ofFn fun i : Fin l.length => (l[(i : ℕ)], coord y i) := by
  apply List.ext_getElem
  · simp [h]
  · intro i hi _
    have hy : i < y.length := by
      rw [List.length_zip] at hi
      omega
    simp [coord_eq_getElem y hy]

end Coordinates

/-! ## Lists of real numbers -/

theorem isReal_nil : IsReal [] := by
  simp [IsReal]

theorem isReal_cons {a : Extended} {x : List Extended} :
    IsReal (a :: x) ↔ a.IsReal ∧ IsReal x :=
  List.forall_mem_cons

theorem isReal_map_real (r : List ℝ) : IsReal (r.map real) := by
  simp [IsReal]

theorem IsReal.eq_map {x : List Extended} (h : IsReal x) : x = (x.map toReal).map real := by
  induction x with
  | nil => rfl
  | cons a x ih =>
      rcases isReal_cons.mp h with ⟨ha, hx⟩
      rw [List.map_cons, List.map_cons, ← ih hx, ← ha.eq]

theorem IsReal.coord {x : List Extended} (h : IsReal x) (j : ℕ) : (coord x j).IsReal := by
  by_cases hj : j < x.length
  · exact h _ (coord_mem hj)
  · rw [Vec.coord, List.getElem?_eq_none (by omega)]
    exact isReal_real 0

theorem IsReal.coord_eq {x : List Extended} (h : IsReal x) {n : ℕ} (j : Fin n) :
    Vec.coord x j = (reals n x j : Extended) :=
  (h.coord j).eq

/-- A list is real if its coordinates are. -/
theorem isReal_of_coord {x : List Extended} (h : ∀ j < x.length, (coord x j).IsReal) :
    IsReal x := by
  intro a ha
  obtain ⟨j, hj, rfl⟩ := List.getElem_of_mem ha
  rw [← coord_eq_getElem x hj]
  exact h j hj

theorem isReal_zipWith {f : Extended → Extended → Extended}
    (hf : ∀ a b : Extended, a.IsReal → b.IsReal → (f a b).IsReal) {x y : List Extended}
    (hx : IsReal x) (hy : IsReal y) : IsReal (List.zipWith f x y) := by
  induction x generalizing y with
  | nil => simp [isReal_nil]
  | cons a x ih =>
      cases y with
      | nil => simp [isReal_nil]
      | cons b y =>
          rcases isReal_cons.mp hx with ⟨ha, hx⟩
          rcases isReal_cons.mp hy with ⟨hb, hy⟩
          exact isReal_cons.mpr ⟨hf a b ha hb, ih hx hy⟩

theorem IsReal.sub {x y : List Extended} (hx : IsReal x) (hy : IsReal y) : IsReal (sub x y) :=
  isReal_zipWith (fun _ _ ha hb => isReal_sub_iff.mpr ⟨ha, hb⟩) hx hy

theorem IsReal.add {x y : List Extended} (hx : IsReal x) (hy : IsReal y) :
    IsReal (List.zipWith (· + ·) x y) :=
  isReal_zipWith (fun _ _ ha hb => isReal_add_iff.mpr ⟨ha, hb⟩) hx hy

theorem IsReal.along {x d : List Extended} {t : Extended} (hx : IsReal x) (hd : IsReal d)
    (ht : t.IsReal) : IsReal (along x d t) :=
  isReal_zipWith (fun a b ha hb => by simp [ha, hb, ht]) hx hd

theorem IsReal.blend {a b : List Extended} {t : Extended} (ha : IsReal a) (hb : IsReal b)
    (ht : t.IsReal) : IsReal (blend t a b) :=
  isReal_zipWith (fun u v hu hv => by simp [hu, hv, ht]) ha hb

theorem isReal_zeros (n : ℕ) : IsReal (zeros n) := by
  intro a ha
  rw [List.eq_of_mem_replicate ha]
  exact isReal_real 0

theorem same_iff_eq {a b : List Extended} (hb : IsReal b) : same a b = true ↔ a = b := by
  induction b generalizing a with
  | nil => cases a <;> simp [same]
  | cons v b ih =>
      rcases isReal_cons.mp hb with ⟨hv, hb⟩
      cases a with
      | nil => simp [same]
      | cons u a => simp [same, Extended.same_iff_eq hv, ih hb]

/-- The list of the coordinates of a vector of real numbers. -/
noncomputable def ofReals {n : ℕ} (v : Fin n → ℝ) : List Extended :=
  List.ofFn fun j => real (v j)

@[simp]
theorem length_ofReals {n : ℕ} (v : Fin n → ℝ) : (ofReals v).length = n :=
  List.length_ofFn

theorem coord_ofReals {n : ℕ} (v : Fin n → ℝ) (j : Fin n) : coord (ofReals v) j = real (v j) :=
  coord_ofFn _ j

theorem isReal_ofReals {n : ℕ} (v : Fin n → ℝ) : IsReal (ofReals v) :=
  List.forall_mem_ofFn_iff.mpr fun j => isReal_real (v j)

@[simp]
theorem reals_ofReals {n : ℕ} (v : Fin n → ℝ) : reals n (ofReals v) = v := by
  funext j
  rw [reals, coord_ofReals, toReal_real]

theorem IsReal.eq_ofReals {x : List Extended} (h : IsReal x) {n : ℕ} (hlen : x.length = n) :
    x = ofReals (reals n x) := by
  conv_lhs => rw [eq_ofFn hlen]
  exact congrArg List.ofFn (funext fun j => h.coord_eq j)

theorem map_mul_eq_ofReals {x : List Extended} (hx : IsReal x) {n : ℕ} (hlen : x.length = n)
    (a : ℝ) : (x.map fun v => (a : Extended) * v) = ofReals (a • reals n x) := by
  conv_lhs => rw [hx.eq_ofReals hlen, ofReals, List.map_ofFn]
  rfl

/-! ## Vector operations -/

theorem reals_sub {n : ℕ} {a b : List Extended} (ha : IsReal a) (hb : IsReal b)
    (hla : n ≤ a.length) (hlb : n ≤ b.length) : reals n (sub a b) = reals n a - reals n b := by
  funext j
  rw [reals, coord_sub (by omega) (by omega), ha.coord_eq, hb.coord_eq, real_sub_real]
  rfl

theorem reals_add {n : ℕ} {a b : List Extended} (ha : IsReal a) (hb : IsReal b)
    (hla : n ≤ a.length) (hlb : n ≤ b.length) :
    reals n (List.zipWith (· + ·) a b) = reals n a + reals n b := by
  funext j
  rw [reals, coord_zipWith _ (by omega) (by omega), ha.coord_eq, hb.coord_eq, real_add_real]
  rfl

theorem reals_along {n : ℕ} {x d : List Extended} {t : ℝ} (hx : IsReal x) (hd : IsReal d)
    (hlx : n ≤ x.length) (hld : n ≤ d.length) :
    reals n (along x d t) = reals n x + t • reals n d := by
  funext j
  rw [reals, coord_along _ (by omega) (by omega), hx.coord_eq, hd.coord_eq, real_mul_real,
    real_add_real]
  rfl

/-- Nothing is left of the second vector. -/
theorem reals_blend_one {n : ℕ} {a b : List Extended} (ha : IsReal a) (hb : IsReal b)
    (hla : n ≤ a.length) (hlb : n ≤ b.length) : reals n (blend 1 a b) = reals n a := by
  funext j
  rw [reals, blend, coord_zipWith _ (by omega) (by omega), ha.coord_eq, hb.coord_eq]
  simp

theorem reals_zeros (n m : ℕ) : reals n (zeros m) = 0 := by
  funext j
  rw [reals, coord_zeros]
  rfl

theorem reals_neg (n : ℕ) (x : List Extended) : reals n (x.map (- ·)) = -reals n x := by
  funext j
  by_cases hj : (j : ℕ) < x.length <;> simp [reals, coord, hj, toReal_neg]

/-- The coordinates before and after a position. -/
theorem reals_comp_finSumFinEquiv (n m : ℕ) (x : List Extended) :
    reals (n + m) x ∘ finSumFinEquiv = Sum.elim (reals n (x.take n)) (reals m (x.drop n)) := by
  funext a
  rcases a with i | r <;> simp [reals, coord]

/-! ## Sums and dot products -/

theorem foldl_add_real {l : List Extended} (hl : IsReal l) (c : ℝ) :
    l.foldl (· + ·) (c : Extended) = ((c + (l.map toReal).sum : ℝ) : Extended) := by
  induction l generalizing c with
  | nil => simp
  | cons a l ih =>
      rcases isReal_cons.mp hl with ⟨⟨r, rfl⟩, hl'⟩
      rw [List.foldl_cons, real_add_real, ih hl', List.map_cons, List.sum_cons, toReal_real,
        add_assoc]

theorem isReal_foldl_add_iff {l : List Extended} {c : Extended} :
    (l.foldl (· + ·) c).IsReal ↔ c.IsReal ∧ IsReal l := by
  induction l generalizing c with
  | nil => simp [isReal_nil]
  | cons a l ih => rw [List.foldl_cons, ih, isReal_add_iff, isReal_cons, and_assoc]

theorem sum_eq {l : List Extended} (hl : IsReal l) :
    Vec.sum l = (((l.map toReal).sum : ℝ) : Extended) := by
  rw [Vec.sum, zero_eq, neg_real, foldl_add_real hl, neg_zero, zero_add]

theorem zipWith_eq_ofFn {α β : Type} [Scalar α] (f : α → α → β) {a b : List α} {n : ℕ}
    (ha : a.length = n) (hb : n ≤ b.length) :
    List.zipWith f a b = List.ofFn fun i : Fin n => f (coord a i) (coord b i) := by
  subst ha
  apply List.ext_getElem
  · simpa using hb
  · intro j hj _
    have hj' : j < a.length := by simp at hj; omega
    simp [coord_eq_getElem a hj', coord_eq_getElem b (show j < b.length by omega)]

/-- The dot product along the first vector, if its coordinates and those it meets are real. -/
theorem dot_eq_of_coord {n : ℕ} {a b : List Extended} (hla : a.length = n) (hlb : n ≤ b.length)
    (ha : ∀ i < n, (coord a i).IsReal) (hb : ∀ i < n, (coord b i).IsReal) :
    dot a b = ((reals n a ⬝ᵥ reals n b : ℝ) : Extended) := by
  have hz : IsReal (List.zipWith (· * ·) a b) := by
    rw [zipWith_eq_ofFn _ hla hlb]
    simp only [IsReal, List.forall_mem_ofFn_iff]
    exact fun i => isReal_mul_iff.mpr ⟨ha i i.isLt, hb i i.isLt⟩
  rw [dot, zero_eq, foldl_add_real hz, zero_add, zipWith_eq_ofFn _ hla hlb, List.map_ofFn,
    List.sum_ofFn]
  congr 1
  apply Finset.sum_congr rfl
  intro i _
  rw [Function.comp_apply, (ha i i.isLt).eq, (hb i i.isLt).eq, real_mul_real]
  rfl

theorem dot_eq {n : ℕ} {a b : List Extended} (hla : a.length = n) (hlb : n ≤ b.length)
    (ha : IsReal a) (hb : IsReal b) : dot a b = ((reals n a ⬝ᵥ reals n b : ℝ) : Extended) :=
  dot_eq_of_coord hla hlb (fun i _ => ha.coord i) fun i _ => hb.coord i

/-- A real dot product has real factors only. -/
theorem isReal_dot_iff {n : ℕ} {a b : List Extended} (hla : a.length = n) (hlb : n ≤ b.length) :
    (dot a b).IsReal ↔ ∀ i < n, (coord a i).IsReal ∧ (coord b i).IsReal := by
  rw [dot, isReal_foldl_add_iff, zipWith_eq_ofFn _ hla hlb]
  simp only [IsReal, List.forall_mem_ofFn_iff, isReal_mul_iff]
  exact ⟨fun h i hi => h.2 ⟨i, hi⟩, fun h => ⟨isReal_real 0, fun i => h i i.isLt⟩⟩

/-! ## Largest entries -/

theorem foldl_maxNum_ne_nan {l : List Extended} {c : Extended} (hc : c ≠ nan)
    (hl : ∀ b ∈ l, b ≠ nan) : l.foldl maxNum c ≠ nan := by
  induction l generalizing c with
  | nil => exact hc
  | cons b l ih =>
      rcases List.forall_mem_cons.mp hl with ⟨hb, hl⟩
      exact ih (maxNum_ne_nan hc hb) hl

theorem foldl_maxNum_ne_nan_of_ne (l : List Extended) {c : Extended} (hc : c ≠ nan) :
    l.foldl maxNum c ≠ nan := by
  induction l generalizing c with
  | nil => exact hc
  | cons b l ih => exact ih (maxNum_ne_nan_of_left hc b)

/-- One entry that is a number makes the largest entry one. -/
theorem foldl_maxNum_ne_nan_of_mem {l : List Extended} {b : Extended} (hb : b ∈ l)
    (hne : b ≠ nan) (c : Extended) : l.foldl maxNum c ≠ nan := by
  induction l generalizing c with
  | nil => cases hb
  | cons a l ih =>
      rw [List.foldl_cons]
      rcases List.mem_cons.mp hb with rfl | hmem
      · exact foldl_maxNum_ne_nan_of_ne l (maxNum_ne_nan_of_right c hne)
      · exact ih hmem _

/-- What is above the largest entry is above all. -/
theorem foldl_maxNum_lt_iff {l : List Extended} {c t : Extended} (hc : c ≠ nan)
    (hl : ∀ b ∈ l, b ≠ nan) : l.foldl maxNum c < t ↔ c < t ∧ ∀ b ∈ l, b < t := by
  induction l generalizing c with
  | nil => simp
  | cons b l ih =>
      rcases List.forall_mem_cons.mp hl with ⟨hb, hl⟩
      rw [List.foldl_cons, ih (maxNum_ne_nan hc hb) hl, maxNum_lt_iff hc hb, List.forall_mem_cons,
        and_assoc]

theorem foldl_maxNum_le_iff {l : List Extended} {c t : Extended} (hc : c ≠ nan)
    (hl : ∀ b ∈ l, b ≠ nan) : l.foldl maxNum c ≤ t ↔ c ≤ t ∧ ∀ b ∈ l, b ≤ t := by
  induction l generalizing c with
  | nil => simp
  | cons b l ih =>
      rcases List.forall_mem_cons.mp hl with ⟨hb, hl⟩
      rw [List.foldl_cons, ih (maxNum_ne_nan hc hb) hl, maxNum_le_iff hc hb, List.forall_mem_cons,
        and_assoc]

theorem foldl_max_le_iff {l : List ℝ} {c t : ℝ} :
    l.foldl max c ≤ t ↔ c ≤ t ∧ ∀ b ∈ l, b ≤ t := by
  induction l generalizing c with
  | nil => simp
  | cons b l ih => rw [List.foldl_cons, ih, max_le_iff, List.forall_mem_cons, and_assoc]

/-- A fold of real numbers by what is an operation on them. -/
theorem foldl_map_real {f : Extended → Extended → Extended} {g : ℝ → ℝ → ℝ}
    (hf : ∀ a b : ℝ, f a b = ((g a b : ℝ) : Extended)) (l : List ℝ) (c : ℝ) :
    (l.map real).foldl f (c : Extended) = ((l.foldl g c : ℝ) : Extended) := by
  induction l generalizing c with
  | nil => rfl
  | cons a l ih => rw [List.map_cons, List.foldl_cons, hf, ih, List.foldl_cons]

theorem foldl_maxNum_map_real (l : List ℝ) (c : ℝ) :
    (l.map real).foldl maxNum (c : Extended) = ((l.foldl max c : ℝ) : Extended) :=
  foldl_map_real maxNum_real l c

/-- Taking the smaller operand over real numbers finds the greatest lower bound. -/
theorem isGreatest_foldl_minNum {l : List Extended} (hl : IsReal l) (c : ℝ) :
    ∃ r : ℝ, l.foldl minNum (c : Extended) = r ∧
      IsGreatest {s : ℝ | s ≤ c ∧ ∀ a ∈ l, (s : Extended) ≤ a} r := by
  induction l generalizing c with
  | nil => exact ⟨c, rfl, ⟨le_rfl, List.forall_mem_nil _⟩, fun _ hs => hs.1⟩
  | cons a l ih =>
      rcases isReal_cons.mp hl with ⟨⟨a, rfl⟩, hl'⟩
      obtain ⟨r, hr, ⟨hle, hmem⟩, hgreatest⟩ := ih hl' (min c a)
      refine ⟨r, by rw [List.foldl_cons, minNum_real, hr], ⟨hle.trans (min_le_left c a), ?_⟩, ?_⟩
      · exact List.forall_mem_cons.mpr ⟨real_le_real.mpr (hle.trans (min_le_right c a)), hmem⟩
      · rintro s ⟨hsc, hsl⟩
        obtain ⟨hsa, hsl⟩ := List.forall_mem_cons.mp hsl
        exact hgreatest ⟨le_min hsc (real_le_real.mp hsa), hsl⟩

/-- The largest magnitude is the maximum norm. -/
theorem normInf_eq {n : ℕ} {x : List Extended} (hl : x.length = n) (hx : IsReal x) :
    normInf x = ((‖reals n x‖ : ℝ) : Extended) := by
  have hm : x.map magnitude = (List.ofFn fun i : Fin n => |reals n x i|).map real := by
    conv_lhs => rw [eq_ofFn hl]
    rw [List.map_ofFn, List.map_ofFn]
    congr 1
    funext i
    rw [Function.comp_apply, hx.coord_eq, magnitude_real]
    rfl
  rw [normInf, hm, zero_eq, foldl_maxNum_map_real, real_inj]
  apply eq_of_forall_ge_iff
  intro t
  rw [foldl_max_le_iff, List.forall_mem_ofFn_iff]
  constructor
  · rintro ⟨h0, h⟩
    exact (pi_norm_le_iff_of_nonneg h0).mpr h
  · intro h
    have h0 : 0 ≤ t := (norm_nonneg _).trans h
    exact ⟨h0, (pi_norm_le_iff_of_nonneg h0).mp h⟩

/-! ## Limited size -/

/-- Squares of numbers add up to infinity as soon as one of them is not real. -/
theorem foldl_square_eq_posInf {l : List Extended} (hl : ∀ a ∈ l, a ≠ nan) {c : Extended}
    (hc : c = posInf ∨ c.IsReal ∧ ¬IsReal l) :
    (l.map fun a => a * a).foldl (· + ·) c = posInf := by
  induction l generalizing c with
  | nil =>
      rcases hc with rfl | ⟨-, hreal⟩
      · rfl
      · exact absurd isReal_nil hreal
  | cons a l ih =>
      rcases List.forall_mem_cons.mp hl with ⟨ha, hl⟩
      refine ih hl ?_
      rcases hc with rfl | ⟨⟨c, rfl⟩, hnot⟩
      · left
        cases a <;> simp [mul_def, Extended.mul, add_def, Extended.add] at ha ⊢
      · cases a with
        | real a =>
            right
            have hrest : ¬IsReal l :=
              fun hreal => hnot (isReal_cons.mpr ⟨isReal_real a, hreal⟩)
            exact ⟨by simp, hrest⟩
        | posInf => exact .inl rfl
        | negInf => exact .inl rfl
        | nan => exact absurd rfl ha

/-- A vector that is a number throughout and of limited size is real. -/
theorem isReal_of_norm {x : List Extended} {bound : Extended} (hbound : bound.IsReal)
    (hnum : x.any isNaN = false) (hnorm : ¬bound < norm x) : IsReal x := by
  rcases hbound with ⟨bound, rfl⟩
  have hne : ∀ a ∈ x, a ≠ nan := by
    intro a ha
    have hfalse := List.any_eq_false.mp hnum a ha
    exact isNaN_eq_false_iff.mp (by simpa using hfalse)
  by_contra hreal
  have hdot : dot x x = posInf := by
    rw [dot, List.zipWith_self]
    exact foldl_square_eq_posInf hne (.inr ⟨isReal_real 0, hreal⟩)
  apply hnorm
  rw [norm, hdot]
  show (bound : Extended) < posInf
  simp [lt_iff]

end SeqQuad.Vec
