import Mathlib
import SeqQuad.LineSearch

/-!
# How a line search ends

A search ends at its start, or at a trial that has a value, or with a fault at a trial, and every
trial lies on the line from the start. Later proofs read what they need off these ends and open
the recursion of the search no more.
-/

namespace SeqQuad.LineSearch

variable {ω α : Type} [Scalar α]

/-! ## One trial -/

section Step

variable {opt : Options α} {x dx : List α} {slope reference t value : α}
  {merit : ℕ → List α → Journaled ω (Failure EvaluationError) α} {fuel made : ℕ}
  {tried : List (Trial ω α)} {cause : EvaluationError} {fault : Fault}

/-- A trial that descends far enough ends the search. -/
theorem backtrack_of_descent
    (hvalue : (merit (made + 1) (Vec.along x dx t)).outcome = .ok value)
    (hle : value ≤ threshold opt slope reference t) :
    backtrack opt x dx slope reference merit (fuel + 1) made t tried =
      ⟨t, Vec.along x dx t, .accepted,
        (⟨t, Vec.along x dx t, merit (made + 1) (Vec.along x dx t)⟩ :: tried).reverse⟩ := by
  simp only [backtrack, hvalue, if_pos hle]

/-- Any other trial with a merit ends it at the limit. -/
theorem backtrack_of_exhausted
    (hvalue : (merit (made + 1) (Vec.along x dx t)).outcome = .ok value)
    (hle : ¬value ≤ threshold opt slope reference t) (hlimit : opt.maxTrials ≤ made + 1) :
    backtrack opt x dx slope reference merit (fuel + 1) made t tried =
      ⟨t, Vec.along x dx t, .exhausted,
        (⟨t, Vec.along x dx t, merit (made + 1) (Vec.along x dx t)⟩ :: tried).reverse⟩ := by
  simp only [backtrack, hvalue, if_neg hle, if_pos hlimit]

/-- Before the limit it is followed by another. -/
theorem backtrack_of_rejected
    (hvalue : (merit (made + 1) (Vec.along x dx t)).outcome = .ok value)
    (hle : ¬value ≤ threshold opt slope reference t) (hlimit : ¬opt.maxTrials ≤ made + 1) :
    backtrack opt x dx slope reference merit (fuel + 1) made t tried =
      backtrack opt x dx slope reference merit fuel (made + 1) (t * opt.beta)
        (⟨t, Vec.along x dx t, merit (made + 1) (Vec.along x dx t)⟩ :: tried) := by
  simp only [backtrack, hvalue, if_neg hle, if_neg hlimit]

/-- A trial without a merit is followed by another, whatever the limit, unless the step became
too short. -/
theorem backtrack_of_missing
    (hmissing : (merit (made + 1) (Vec.along x dx t)).outcome = .error (.error cause))
    (hgo : (Vec.same (Vec.along x dx t) x || decide (t < Scalar.leastNormal)) = false) :
    backtrack opt x dx slope reference merit (fuel + 1) made t tried =
      backtrack opt x dx slope reference merit fuel (made + 1) (t * opt.beta)
        (⟨t, Vec.along x dx t, merit (made + 1) (Vec.along x dx t)⟩ :: tried) := by
  simp only [backtrack, hmissing, hgo, Bool.false_eq_true, if_false]

/-- Where the step is too short the search returns to its start. -/
theorem backtrack_of_stuck
    (hmissing : (merit (made + 1) (Vec.along x dx t)).outcome = .error (.error cause))
    (hstop : (Vec.same (Vec.along x dx t) x || decide (t < Scalar.leastNormal)) = true) :
    backtrack opt x dx slope reference merit (fuel + 1) made t tried =
      ⟨0, x, .stuck,
        (⟨t, Vec.along x dx t, merit (made + 1) (Vec.along x dx t)⟩ :: tried).reverse⟩ := by
  simp only [backtrack, hmissing, hstop, if_true]

theorem backtrack_of_fault
    (hfault : (merit (made + 1) (Vec.along x dx t)).outcome = .error (.fault fault)) :
    backtrack opt x dx slope reference merit (fuel + 1) made t tried =
      ⟨t, Vec.along x dx t, .aborted fault,
        (⟨t, Vec.along x dx t, merit (made + 1) (Vec.along x dx t)⟩ :: tried).reverse⟩ := by
  simp only [backtrack, hfault]

end Step

/-! ## Where a search ends -/

section Ends

variable (opt : Options α) (T : α → Prop) (x dx : List α) (slope reference : α)
  (merit : ℕ → List α → Journaled ω (Failure EvaluationError) α)

/-- A trial at a length in `T` on the line from `x` along `dx`, answered by the merit function. -/
structure Tried (trial : Trial ω α) : Prop where
  length : T trial.t
  point : trial.point = Vec.along x dx trial.t
  answer : ∃ k, trial.answer = merit k trial.point

/-- Where a search ends, and what is known there. -/
inductive Ended : LineSearch ω α → Prop
  | unsearched {t : α} {trials} (off : opt.maxTrials = 0) (length : T t) :
      Ended ⟨t, Vec.along x dx t, .unsearched, trials⟩
  | accepted {t m : α} {k : ℕ} {trials} (length : T t)
      (value : (merit k (Vec.along x dx t)).outcome = .ok m)
      (descent : m ≤ threshold opt slope reference t) :
      Ended ⟨t, Vec.along x dx t, .accepted, trials⟩
  | exhausted {t m : α} {k : ℕ} {trials} (length : T t)
      (value : (merit k (Vec.along x dx t)).outcome = .ok m) :
      Ended ⟨t, Vec.along x dx t, .exhausted, trials⟩
  | stuck {trials} : Ended ⟨0, x, .stuck, trials⟩
  | aborted {t : α} {fault : Fault} {k : ℕ} {trials} (length : T t)
      (value : (merit k (Vec.along x dx t)).outcome = .error (.fault fault)) :
      Ended ⟨t, Vec.along x dx t, .aborted fault, trials⟩

/-- A search whose trials and whose end are lengths in `T`. -/
structure Conducted (s : LineSearch ω α) : Prop where
  trials : ∀ trial ∈ s.trials, Tried T x dx merit trial
  ended : Ended opt T x dx slope reference merit s

end Ends

variable {opt : Options α} {T : α → Prop} {x dx : List α} {slope reference : α}
  {merit : ℕ → List α → Journaled ω (Failure EvaluationError) α}

theorem conducted_backtrack (hT : ∀ t, T t → T (t * opt.beta)) (fuel made : ℕ) {t : α} (ht : T t)
    {tried : List (Trial ω α)} (htried : ∀ trial ∈ tried, Tried T x dx merit trial) :
    Conducted opt T x dx slope reference merit
      (backtrack opt x dx slope reference merit fuel made t tried) := by
  induction fuel generalizing made t tried with
  | zero => exact ⟨fun trial h => htried trial (List.mem_reverse.mp h), .stuck⟩
  | succ fuel ih =>
      have hall : ∀ trial ∈ (⟨t, Vec.along x dx t, merit (made + 1) (Vec.along x dx t)⟩ ::
          tried : List (Trial ω α)), Tried T x dx merit trial :=
        List.forall_mem_cons.mpr ⟨⟨ht, rfl, made + 1, rfl⟩, htried⟩
      have hrev := fun trial h => hall trial (List.mem_reverse.mp h)
      have hnext := ih (made + 1) (hT t ht) hall
      rw [backtrack]
      split
      · rename_i m hm
        split
        · rename_i hle
          exact ⟨hrev, .accepted ht hm hle⟩
        · split
          · exact ⟨hrev, .exhausted ht hm⟩
          · exact hnext
      · rename_i fault hfault
        exact ⟨hrev, .aborted ht hfault⟩
      · split
        · exact ⟨hrev, .stuck⟩
        · exact hnext

/-- Lengths that hold the full step and are kept by the factor hold all of a search. -/
theorem conducted_run (h1 : T 1) (hT : ∀ t, T t → T (t * opt.beta)) {history : MeritWindow α} :
    Conducted opt T x dx slope (LineSearch.reference history) merit
      (run opt x dx slope history merit) := by
  unfold run
  split
  · rename_i hoff
    exact ⟨List.forall_mem_nil _, .unsearched hoff h1⟩
  · exact conducted_backtrack hT _ _ h1 (List.forall_mem_nil _)

/-- Without a search the full step is taken unseen. -/
theorem run_of_off (hoff : opt.maxTrials = 0) {history : MeritWindow α} :
    run opt x dx slope history merit = ⟨1, Vec.along x dx 1, .unsearched, []⟩ :=
  if_pos hoff

/-- A full step that descends far enough ends the search. -/
theorem run_of_full_step {m : α} {history : MeritWindow α} (hmax : 0 < opt.maxTrials)
    (hm : (merit 1 (Vec.along x dx 1)).outcome = .ok m)
    (hle : m ≤ threshold opt slope (LineSearch.reference history) 1) :
    run opt x dx slope history merit =
      ⟨1, Vec.along x dx 1, .accepted, [⟨1, Vec.along x dx 1, merit 1 (Vec.along x dx 1)⟩]⟩ := by
  have hfuel : trialBound opt = (trialBound opt - 1) + 1 := by
    unfold trialBound
    omega
  unfold run
  rw [if_neg hmax.ne', hfuel, backtrack]
  simp only [hm]
  rw [if_pos hle]
  rfl

/-- A search goes along the line or stays. -/
theorem Ended.point_eq {s : LineSearch ω α} (h : Ended opt T x dx slope reference merit s) :
    s.t = 0 ∧ s.point = x ∨ T s.t ∧ s.point = Vec.along x dx s.t := by
  cases h with
  | stuck => exact .inl ⟨rfl, rfl⟩
  | unsearched _ length => exact .inr ⟨length, rfl⟩
  | accepted length => exact .inr ⟨length, rfl⟩
  | exhausted length => exact .inr ⟨length, rfl⟩
  | aborted length => exact .inr ⟨length, rfl⟩

/-- A search that was not ended by a fault ends at its start or where the merit has a value. -/
theorem Ended.value {s : LineSearch ω α} (h : Ended opt T x dx slope reference merit s)
    (hmax : 0 < opt.maxTrials) (hfault : s.fault? = none) :
    s.point = x ∨ ∃ k m, (merit k s.point).outcome = .ok m := by
  cases h with
  | unsearched off => exact absurd off hmax.ne'
  | accepted _ value => exact .inr ⟨_, _, value⟩
  | exhausted _ value => exact .inr ⟨_, _, value⟩
  | stuck => exact .inl rfl
  | aborted => cases hfault

/-- The fault of a search is that of a trial. -/
theorem Ended.fault {s : LineSearch ω α} (h : Ended opt T x dx slope reference merit s)
    {fault : Fault} (hfault : s.fault? = some fault) :
    ∃ k y, (merit k y).outcome = .error (.fault fault) := by
  cases h with
  | unsearched | accepted | exhausted | stuck => cases hfault
  | aborted _ value =>
      obtain rfl := Option.some.inj hfault
      exact ⟨_, _, value⟩

end SeqQuad.LineSearch
