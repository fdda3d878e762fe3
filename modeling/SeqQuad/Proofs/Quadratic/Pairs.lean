import SeqQuad.Proofs.Exact.Vector
import SeqQuad.Proofs.Exact.Matrix
import SeqQuad.Proofs.Traversal
import SeqQuad.Quadratic.Side

/-!
# Sides by the pairs of bounds they came from

A program has a pair of bounds for every variable and for every constraint row. Each side is told
by its pair and by which of the two bounds it is, so that sums over lists of sides become sums
over pairs.
-/

namespace SeqQuad

open Scalar

/-! ## Lists along an index -/

section Index

variable {ι β : Type} [DecidableEq ι]

/-- A list is a function of an index without repetitions. -/
theorem exists_eq_map {K : List ι} (hnd : K.Nodup) {z : List β} (hlen : z.length = K.length)
    (d : β) : ∃ f : ι → β, z = K.map f ∧ ∀ a ∉ K, f a = d := by
  refine ⟨fun a => z[K.idxOf a]?.getD d, ?_, fun a ha => ?_⟩
  · apply List.ext_getElem
    · simpa using hlen
    · intro i hi hK
      have hiK : i < K.length := by omega
      simp [hnd.idxOf_getElem i hiK, hi]
  · dsimp only
    rw [List.idxOf_eq_length ha, ← hlen]
    simp

/-- A sum along an index is the sum over all, if nothing is left outside. -/
theorem sum_map_eq_sum [Fintype ι] {K : List ι} (hnd : K.Nodup) {f : ι → ℝ}
    (hf : ∀ a ∉ K, f a = 0) : (K.map f).sum = ∑ a, f a := by
  rw [← List.sum_toFinset f hnd]
  apply Finset.sum_subset (Finset.subset_univ _)
  intro a _ ha
  exact hf a fun h => ha (List.mem_toFinset.mpr h)

omit [DecidableEq ι] in
/-- The largest magnitude along an index is the maximum norm, if nothing is left outside. -/
theorem normInf_map_eq [Fintype ι] {K : List ι} {f : ι → ℝ} (hf : ∀ a ∉ K, f a = 0) :
    Vec.normInf (K.map fun a => (f a : Extended)) = ((‖f‖ : ℝ) : Extended) := by
  have hmap : (K.map fun a => (f a : Extended)).map magnitude =
      (K.map fun a => |f a|).map Extended.real := by
    rw [List.map_map, List.map_map]
    rfl
  rw [Vec.normInf, hmap, Extended.zero_eq, Vec.foldl_maxNum_map_real, Extended.real_inj]
  apply eq_of_forall_ge_iff
  intro t
  rw [Vec.foldl_max_le_iff, List.forall_mem_map]
  constructor
  · rintro ⟨h0, h⟩
    refine (pi_norm_le_iff_of_nonneg h0).mpr fun a => ?_
    by_cases ha : a ∈ K
    · exact h a ha
    · rwa [hf a ha, norm_zero]
  · intro h
    have h0 : 0 ≤ t := (norm_nonneg f).trans h
    exact ⟨h0, fun a _ => (pi_norm_le_iff_of_nonneg h0).mp h a⟩

end Index

/-! ## Pairs of bounds -/

namespace QuadraticProgram

variable {α : Type} (qp : QuadraticProgram α)

/-- The variables and the constraint rows, each with its two bounds. -/
abbrev Pair : Type :=
  Fin qp.variableCount ⊕ Fin qp.rowCount

/-- All pairs, in the order of the sides. -/
def pairs : List qp.Pair :=
  (List.finRange qp.variableCount).map .inl ++ (List.finRange qp.rowCount).map .inr

theorem mem_pairs (i : qp.Pair) : i ∈ qp.pairs := by
  cases i <;> simp [pairs]

theorem nodup_pairs : qp.pairs.Nodup := by
  refine List.nodup_append.mpr ⟨?_, ?_, ?_⟩
  · exact (List.nodup_finRange _).map Sum.inl_injective
  · exact (List.nodup_finRange _).map Sum.inr_injective
  · intro a ha b hb
    rcases List.mem_map.mp ha with ⟨_, _, rfl⟩
    rcases List.mem_map.mp hb with ⟨_, _, rfl⟩
    exact Sum.inl_ne_inr

variable [Scalar α]

def lowerAt : qp.Pair → α
  | .inl j => Vec.coord qp.lbx j
  | .inr k => Vec.coord qp.lba k

def upperAt : qp.Pair → α
  | .inl j => Vec.coord qp.ubx j
  | .inr k => Vec.coord qp.uba k

def coefAt : qp.Pair → List (ℕ × α)
  | .inl j => [(j, 1)]
  | .inr k => qp.a.row k

def originAt : qp.Pair → Origin
  | .inl j => .bound j
  | .inr k => .row k

/-- Whether the two bounds make an equality. -/
def joined (i : qp.Pair) : Bool :=
  isFinite (qp.lowerAt i) && isFinite (qp.upperAt i) &&
    decide (magnitude (qp.upperAt i - qp.lowerAt i) ≤ epsilon)

/-- The upper side of a pair, or its equality. -/
def upperSide (i : qp.Pair) : Side α :=
  .upper (qp.coefAt i) (qp.upperAt i) (qp.originAt i)

def lowerSide (i : qp.Pair) : Side α :=
  .lower (qp.coefAt i) (qp.lowerAt i) (qp.originAt i)

/-- The lower or the upper side of a pair. -/
def sideAt (a : qp.Pair × Bool) : Side α :=
  if a.2 then qp.upperSide a.1 else qp.lowerSide a.1

@[simp]
theorem sideAt_false (i : qp.Pair) : qp.sideAt (i, false) = qp.lowerSide i :=
  rfl

@[simp]
theorem sideAt_true (i : qp.Pair) : qp.sideAt (i, true) = qp.upperSide i :=
  rfl

/-- Whether a bound makes an inequality. -/
def present (a : qp.Pair × Bool) : Bool :=
  !qp.joined a.1 && isFinite (if a.2 then qp.upperAt a.1 else qp.lowerAt a.1)

/-- The pairs that make equalities, in order. -/
def equalityPairs : List qp.Pair :=
  qp.pairs.filter qp.joined

/-- The bounds that make inequalities, in order. -/
def inequalityBounds : List (qp.Pair × Bool) :=
  (qp.pairs.flatMap fun i => [(i, false), (i, true)]).filter qp.present

theorem mem_equalityPairs {i : qp.Pair} : i ∈ qp.equalityPairs ↔ qp.joined i = true := by
  simp [equalityPairs, qp.mem_pairs]

theorem nodup_equalityPairs : qp.equalityPairs.Nodup :=
  qp.nodup_pairs.filter _

theorem mem_inequalityBounds {a : qp.Pair × Bool} :
    a ∈ qp.inequalityBounds ↔ qp.present a = true := by
  rcases a with ⟨i, b⟩
  cases b <;> simp [inequalityBounds, qp.mem_pairs]

theorem nodup_inequalityBounds : qp.inequalityBounds.Nodup := by
  apply List.Nodup.filter
  refine List.nodup_flatMap.mpr ⟨fun i _ => by simp, ?_⟩
  refine qp.nodup_pairs.imp fun {i k} hne => ?_
  simp [Function.onFun, List.disjoint_left, hne]

/-- The sides of one pair. -/
theorem ofBounds_eq (i : qp.Pair) :
    Sides.ofBounds (qp.lowerAt i) (qp.upperAt i) (qp.coefAt i) (qp.originAt i) =
      ⟨([i].filter qp.joined).map qp.upperSide,
        ([(i, false), (i, true)].filter qp.present).map qp.sideAt⟩ := by
  have hjoined : Sides.ofBounds (qp.lowerAt i) (qp.upperAt i) (qp.coefAt i) (qp.originAt i) =
      if qp.joined i then ⟨[qp.upperSide i], []⟩
      else ⟨[], (if isFinite (qp.lowerAt i) then [qp.lowerSide i] else []) ++
        if isFinite (qp.upperAt i) then [qp.upperSide i] else []⟩ := rfl
  rw [hjoined]
  cases hj : qp.joined i <;> cases hl : isFinite (qp.lowerAt i) <;>
    cases hu : isFinite (qp.upperAt i) <;>
    simp [present, sideAt, hj, hl, hu]

/-- The sides of a pair. -/
def sidesAt (i : qp.Pair) : Sides α :=
  Sides.ofBounds (qp.lowerAt i) (qp.upperAt i) (qp.coefAt i) (qp.originAt i)

theorem concat_sidesAt :
    Sides.concat (qp.pairs.map qp.sidesAt) =
      ⟨qp.equalityPairs.map qp.upperSide, qp.inequalityBounds.map qp.sideAt⟩ := by
  have hequality : qp.equalityPairs = qp.pairs.flatMap fun i => [i].filter qp.joined := by
    rw [equalityPairs, ← List.filter_flatMap, List.flatMap_singleton']
  simp only [Sides.concat, sidesAt, List.flatMap_map, ofBounds_eq, hequality, inequalityBounds,
    List.filter_flatMap, List.map_flatMap]

/-- The sides that the bounds on the variable `j` put, `none` when one of them is missing. -/
def boundSides? (j : ℕ) : Option (Sides α) := do
  let l ← qp.lbx[j]?
  let u ← qp.ubx[j]?
  some (.ofBounds l u [(j, 1)] (.bound j))

/-- The sides that the bounds on the row `k` put, `none` when one of them is missing or the row is
no part of its matrix. -/
def rowSides? (k : ℕ) : Option (Sides α) := do
  let l ← qp.lba[k]?
  let u ← qp.uba[k]?
  let row ← qp.a.row? k
  some (.ofBounds l u row (.row k))

theorem ofProgram?_eq : Sides.ofProgram? qp = (do
    let bounds ← (List.range qp.variableCount).mapM qp.boundSides?
    let rows ← (List.range qp.rowCount).mapM qp.rowSides?
    let all := Sides.concat (bounds ++ rows)
    if all.within qp.variableCount then some all else none) :=
  rfl

/-- What the bounds and the rows put is what the pairs put. -/
theorem concat_eq {bounds rows : List (Sides α)}
    (hbounds : (List.range qp.variableCount).mapM qp.boundSides? = some bounds)
    (hrows : (List.range qp.rowCount).mapM qp.rowSides? = some rows) :
    Sides.concat (bounds ++ rows) =
      ⟨qp.equalityPairs.map qp.upperSide, qp.inequalityBounds.map qp.sideAt⟩ := by
  have hb := eq_map_of_mapM_eq_some (g := fun j => Sides.ofBounds (Vec.coord qp.lbx j)
    (Vec.coord qp.ubx j) [(j, 1)] (.bound j)) hbounds (by
      intro j _ b hj
      rcases Option.bind_eq_some_iff.mp hj with ⟨l, hl, hj⟩
      rcases Option.bind_eq_some_iff.mp hj with ⟨u, hu, hj⟩
      simp [Vec.coord, hl, hu, ← Option.some.inj hj])
  have hr := eq_map_of_mapM_eq_some (g := fun k => Sides.ofBounds (Vec.coord qp.lba k)
    (Vec.coord qp.uba k) (qp.a.row k) (.row k)) hrows (by
      intro k _ b hk
      rcases Option.bind_eq_some_iff.mp hk with ⟨l, hl, hk⟩
      rcases Option.bind_eq_some_iff.mp hk with ⟨u, hu, hk⟩
      rcases Option.bind_eq_some_iff.mp hk with ⟨row, hrow, hk⟩
      unfold SparseMatrix.row? at hrow
      rw [Option.ite_none_right_eq_some] at hrow
      simp [Vec.coord, hl, hu, ← Option.some.inj hk, ← Option.some.inj hrow.2])
  have hall : bounds ++ rows = qp.pairs.map qp.sidesAt := by
    rw [hb, hr, pairs, List.map_append, List.map_map, List.map_map,
      ← List.map_coe_finRange_eq_range, ← List.map_coe_finRange_eq_range, List.map_map,
      List.map_map]
    rfl
  rw [hall, concat_sidesAt]

/-- The sides of a program, told by pairs. -/
theorem ofProgram?_eq_some {sides : Sides α} (h : Sides.ofProgram? qp = some sides) :
    sides.equalities = qp.equalityPairs.map qp.upperSide ∧
      sides.inequalities = qp.inequalityBounds.map qp.sideAt ∧
      ∀ s ∈ sides.equalities ++ sides.inequalities, ∀ e ∈ s.coef, e.1 < qp.variableCount := by
  rw [ofProgram?_eq] at h
  rcases Option.bind_eq_some_iff.mp h with ⟨bounds, hbounds, h⟩
  rcases Option.bind_eq_some_iff.mp h with ⟨rows, hrows, h⟩
  dsimp only at h
  rw [Option.ite_none_right_eq_some, qp.concat_eq hbounds hrows] at h
  rcases h with ⟨hwithin, hsides⟩
  obtain rfl := Option.some.inj hsides
  refine ⟨rfl, rfl, fun s hs e he => ?_⟩
  have hside := List.all_eq_true.mp hwithin s hs
  simpa using List.all_eq_true.mp hside e he

end QuadraticProgram

end SeqQuad
