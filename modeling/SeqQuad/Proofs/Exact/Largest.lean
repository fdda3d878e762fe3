import SeqQuad.Proofs.Exact.Undefined

/-!
# Largest entries, in any order

The larger of two values does not depend on their order, whether they are numbers or not. So the
largest entry of a list is the same wherever its entries stand: an entry may move from one list
to another, and may be left out where it cannot be the largest.
-/

namespace SeqQuad

open Extended Scalar

namespace Extended

protected theorem le_antisymm {a b : Extended} (hab : a ≤ b) (hba : b ≤ a) : a = b := by
  cases a <;> cases b <;> simp at hab hba ⊢
  exact hab.antisymm hba

@[simp]
theorem nan_maxNum (a : Extended) : maxNum nan a = a := by
  by_cases ha : a = nan
  · simp [ha]
  · simp [maxNum_eq ha]

theorem negInf_le {a : Extended} (ha : a ≠ nan) : negInf ≤ a := by
  cases a <;> simp at ha ⊢

/-- Two numbers below the same bounds are equal. -/
theorem eq_of_forall_le_iff {a b : Extended} (ha : a ≠ nan) (hb : b ≠ nan)
    (h : ∀ t, a ≤ t ↔ b ≤ t) : a = b :=
  Extended.le_antisymm ((h b).mpr (le_refl_iff.mpr hb)) ((h a).mp (le_refl_iff.mpr ha))

protected theorem maxNum_comm (a b : Extended) : maxNum a b = maxNum b a := by
  by_cases ha : a = nan
  · simp [ha]
  by_cases hb : b = nan
  · simp [hb]
  refine eq_of_forall_le_iff (maxNum_ne_nan ha hb) (maxNum_ne_nan hb ha) fun t => ?_
  rw [maxNum_le_iff ha hb, maxNum_le_iff hb ha, and_comm]

protected theorem maxNum_assoc (a b c : Extended) :
    maxNum (maxNum a b) c = maxNum a (maxNum b c) := by
  by_cases ha : a = nan
  · simp [ha]
  by_cases hb : b = nan
  · simp [hb]
  by_cases hc : c = nan
  · simp [hc]
  have hab := maxNum_ne_nan ha hb
  have hbc := maxNum_ne_nan hb hc
  refine eq_of_forall_le_iff (maxNum_ne_nan hab hc) (maxNum_ne_nan ha hbc) fun t => ?_
  rw [maxNum_le_iff hab hc, maxNum_le_iff ha hb, maxNum_le_iff ha hbc, maxNum_le_iff hb hc,
    and_assoc]

instance : Std.Commutative (maxNum : Extended → Extended → Extended) :=
  ⟨Extended.maxNum_comm⟩

instance : Std.Associative (maxNum : Extended → Extended → Extended) :=
  ⟨Extended.maxNum_assoc⟩

/-- What is at most a number leaves it the larger one. -/
theorem maxNum_of_le {a b : Extended} (h : b ≤ a) : maxNum a b = a := by
  have ha : a ≠ nan := fun hnan => le_nan b (hnan ▸ h)
  have hb : b ≠ nan := fun hnan => nan_le a (hnan ▸ h)
  refine eq_of_forall_le_iff (maxNum_ne_nan ha hb) ha fun t => ?_
  rw [maxNum_le_iff ha hb]
  exact ⟨fun ht => ht.1, fun ht => ⟨ht, Extended.le_trans h ht⟩⟩

theorem real_mul_le {c : ℝ} (hc : 0 < c) {a b : Extended} (h : a ≤ b) :
    (c : Extended) * a ≤ c * b := by
  cases a <;> cases b <;> simp [mul_def, Extended.mul, scaleInf, hc, hc.ne'] at h ⊢
  exact h

/-- A positive factor goes into both operands. -/
theorem real_mul_maxNum {c : ℝ} (hc : 0 < c) (a b : Extended) :
    (c : Extended) * maxNum a b = maxNum (c * a) (c * b) := by
  by_cases ha : a = nan
  · simp [ha, mul_def, Extended.mul]
  by_cases hb : b = nan
  · simp [hb, mul_def, Extended.mul]
  rcases Extended.le_total ha hb with hab | hba
  · rw [Extended.maxNum_comm a b, maxNum_of_le hab, Extended.maxNum_comm (_ * a),
      maxNum_of_le (real_mul_le hc hab)]
  · rw [maxNum_of_le hba, maxNum_of_le (real_mul_le hc hba)]

end Extended

namespace Vec

open scoped List in
/-- An entry that another takes the place of, put at the end. -/
theorem set_append_perm (x : List Extended) {j : ℕ} (hj : j < x.length) (b : Extended) :
    x.set j b ++ [coord x j] ~ x ++ [b] := by
  have herase : x.set j b ~ b :: x.eraseIdx j := List.set_perm_cons_eraseIdx hj b
  have hback : coord x j :: x.eraseIdx j ~ x := by
    rw [coord_eq_getElem x hj]
    exact List.getElem_cons_eraseIdx_perm hj
  calc x.set j b ++ [coord x j] ~ coord x j :: x.set j b := List.perm_append_singleton _ _
    _ ~ coord x j :: b :: x.eraseIdx j := herase.cons _
    _ ~ b :: coord x j :: x.eraseIdx j := List.Perm.swap _ _ _
    _ ~ b :: x := hback.cons _
    _ ~ x ++ [b] := (List.perm_append_singleton _ _).symm

open scoped List in
/-- An entry may move to the end of what follows, if what takes its place counts for nothing. -/
theorem foldl_maxNum_move {x x' rest : List Extended} {a b c : Extended}
    (h : x' ++ [a] ~ x ++ [b]) (hb : b ≤ (x ++ rest).foldl maxNum c) :
    (x' ++ (rest ++ [a])).foldl maxNum c = (x ++ rest).foldl maxNum c := by
  have hperm : x' ++ (rest ++ [a]) ~ x ++ rest ++ [b] :=
    calc x' ++ (rest ++ [a]) ~ x' ++ ([a] ++ rest) := List.perm_append_comm.append_left x'
      _ = x' ++ [a] ++ rest := (List.append_assoc x' [a] rest).symm
      _ ~ x ++ [b] ++ rest := h.append_right rest
      _ = x ++ ([b] ++ rest) := List.append_assoc x [b] rest
      _ ~ x ++ (rest ++ [b]) := List.perm_append_comm.append_left x
      _ = x ++ rest ++ [b] := (List.append_assoc x rest [b]).symm
  rw [hperm.foldl_eq, List.foldl_append, List.foldl_cons, List.foldl_nil, maxNum_of_le hb]

theorem normInf_append_singleton (x : List Extended) (a : Extended) :
    normInf (x ++ [a]) = maxNum (normInf x) (magnitude a) := by
  simp [normInf]

/-- The largest magnitude is that of an entry or of the others. -/
theorem normInf_eq_maxNum {x : List Extended} {j : ℕ} (hj : j < x.length) :
    normInf x = maxNum (normInf (x.set j 0)) (magnitude (coord x j)) := by
  have hperm : normInf (x.set j 0 ++ [coord x j]) = normInf (x ++ [0]) :=
    ((set_append_perm x hj 0).map magnitude).foldl_eq 0
  rw [← normInf_append_singleton, hperm, normInf_append_singleton]
  have hzero : magnitude (0 : Extended) ≤ normInf x := by
    simpa using normInf_nonneg x
  exact (maxNum_of_le hzero).symm

end Vec

end SeqQuad
