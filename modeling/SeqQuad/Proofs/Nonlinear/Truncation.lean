import SeqQuad.Proofs.Nonlinear.Termination

/-!
# Runs cut short

The limit of iterations, the callback and the print flags have no part in an iteration. A run
under other controls therefore comes to the same heads, up to the first where its own rules end
it, and returns what that head holds. Nothing here depends on the arithmetic.
-/

namespace SeqQuad.Nonlinear

open Journaled

variable {α : Type}

/-! ## Controls -/

/-- What decides when a run ends and what it prints. -/
structure Controls (α : Type) where
  maxIter : ℕ
  callback : Option (Snapshot α → Bool)
  printHeader : Bool
  printIteration : Bool
  printTime : Bool

/-- The same options under other controls. -/
def Options.under (opt : Options α) (c : Controls α) : Options α :=
  { opt with
    maxIter := c.maxIter
    printHeader := c.printHeader
    printIteration := c.printIteration
    printTime := c.printTime }

variable [Scalar α]

theorem check_under (p : Problem α) (opt : Options α) (c : Controls α) :
    p.check (opt.under c) = p.check opt :=
  rfl

namespace Task

def under (t : Task α) (c : Controls α) : Task α :=
  { t with options := t.options.under c, callback := c.callback }

variable {t : Task α} {c : Controls α}

/-- An iteration does not depend on the controls. -/
theorem step_under (s : Iterate α) : (t.under c).step s = t.step s :=
  rfl

/-- The start depends on the controls in what it prints only. -/
theorem outcome_start_under (lam : Multipliers α) :
    ((t.under c).start lam).outcome = (t.start lam).outcome := by
  unfold start
  refine outcome_bind_congr rfl fun ⟨g, jacobian⟩ _ => ?_
  refine outcome_bind_congr rfl fun ⟨f, gradF⟩ _ => ?_
  refine outcome_bind_congr rfl fun ⟨hessian, regularization⟩ _ => ?_
  exact outcome_bind_congr rfl fun _ _ => rfl

/-! ## Heads under other controls -/

/-- Heads of a run at which the other controls give no verdict are heads of the other run, up to
the one where they give one. -/
theorem heads_under {left left' k : ℕ} {s s' : Iterate α} {status : Status}
    (hs : (t.heads left s)[k]? = some s') (hleft : k ≤ left')
    (hbefore : ∀ j < k, ∀ s'', (t.heads left s)[j]? = some s'' → (t.under c).verdict s'' = none)
    (hv : (t.under c).verdict s' = some status) :
    (t.under c).heads left' s = (t.heads left s).take (k + 1) := by
  -- By induction on the number of the head: both loops lose one iteration from their limits.
  induction k generalizing left left' s with
  | zero =>
      rw [getElem?_heads_zero] at hs
      obtain rfl := Option.some.inj hs
      rw [heads_of_verdict hv, List.take_one, head?_heads]
      rfl
  | succ k ih =>
      obtain ⟨rest, next, rfl, hnone, hstep, hs⟩ := getElem?_heads_succ.mp hs
      obtain ⟨rest', rfl⟩ := Nat.exists_eq_add_of_le' hleft
      have hhere : (t.under c).verdict s = none :=
        hbefore 0 k.succ_pos s (getElem?_heads_zero _ s)
      rw [heads_of_step hnone hstep] at hbefore ⊢
      rw [← Nat.add_assoc, heads_of_step hhere ((congrArg outcome (step_under s)).trans hstep),
        List.take_succ_cons]
      congr 1
      refine ih hs (Nat.le_add_left k rest') fun j hj s'' hj' => ?_
      exact hbefore (j + 1) (Nat.succ_lt_succ hj) s'' hj'

/-- Controls that give the same verdicts at all heads of a run lead to the same heads. -/
theorem heads_under_eq {left : ℕ} {s : Iterate α}
    (h : ∀ s' ∈ t.heads left s, (t.under c).verdict s' = t.verdict s') :
    (t.under c).heads left s = t.heads left s ∧
      ((t.under c).iterate left s).outcome = (t.iterate left s).outcome := by
  have hhere : (t.under c).verdict s = t.verdict s :=
    h s (List.mem_of_head? (head?_heads left s))
  induction left generalizing s with
  | zero =>
      refine ⟨rfl, ?_⟩
      rw [iterate_zero, iterate_zero, hhere]
      refine outcome_bind_congr rfl fun _ _ => ?_
      cases t.verdict s <;> rfl
  | succ left ih =>
      rw [iterate_succ, iterate_succ, hhere]
      cases hv : t.verdict s with
      | some status =>
          rw [heads_of_verdict hv, heads_of_verdict (hhere.trans hv)]
          exact ⟨rfl, outcome_bind_congr rfl fun _ _ => rfl⟩
      | none =>
          have hstep : ((t.under c).step s).outcome = (t.step s).outcome := rfl
          -- The verdicts are known to agree only at the heads that the loop comes to.
          have hnext : ∀ next, (t.step s).outcome = .ok next →
              (t.under c).heads left next = t.heads left next ∧
                ((t.under c).iterate left next).outcome = (t.iterate left next).outcome := by
            intro next hs
            rw [heads_of_step hv hs] at h
            obtain ⟨-, hrest⟩ := List.forall_mem_cons.mp h
            exact ih hrest (hrest next (List.mem_of_head? (head?_heads left next)))
          constructor
          · cases hs : (t.step s).outcome with
            | error e => rw [heads_of_error hv hs, heads_of_error (hhere.trans hv) (hstep.trans hs)]
            | ok next =>
                rw [heads_of_step hv hs, heads_of_step (hhere.trans hv) (hstep.trans hs),
                  (hnext next hs).1]
          · refine outcome_bind_congr rfl fun _ _ => ?_
            exact outcome_bind_congr hstep fun next hs => (hnext next hs).2

/-- At the limit of iterations a run that is not stopped converges or ends there. -/
theorem exists_verdict_of_le {s : Iterate α} (hstop : t.callback = none)
    (h : t.options.maxIter ≤ s.iter) :
    ∃ status, t.verdict s = some status ∧
      (status = .converged ∨ status = .maxIterationsExceeded) := by
  unfold verdict
  rw [if_neg (by simp [stopRequested, hstop]), if_pos h]
  split
  · exact ⟨_, rfl, .inl rfl⟩
  · exact ⟨_, rfl, .inr rfl⟩

end Task

/-! ## Whole runs -/

/-- A run ended well at the head `s` of number `k` of the run with the records `rs`. -/
structure EndsAt (run : Run α (Solution α)) (rs : List (IterationRecord α)) (k : ℕ)
    (s : Iterate α) (status : Status) : Prop where
  outcome : run.outcome = .ok ⟨s.x, s.f, s.g, s.multipliers, status, k, s.searchFailures⟩
  records : records run.journal = rs.take (k + 1)

/-- Two runs with the same result, be it a failure, and the same records. -/
structure SameResult (run run' : Run α (Solution α)) : Prop where
  outcome : run.outcome = run'.outcome
  records : records run.journal = records run'.journal

section Whole

variable {opt : Options α} {backend : Backend α} {callback : Option (Snapshot α → Bool)}
  {p : Problem α} {checked : Checked α} {c : Controls α}

theorem outcome_start_taskOf_under (lam : Multipliers α) :
    ((taskOf (opt.under c) backend c.callback p checked).start lam).outcome =
      ((taskOf opt backend callback p checked).start lam).outcome :=
  (taskOf opt backend callback p checked).outcome_start_under lam

/-- Other controls cut a run where they first give a verdict. -/
theorem runHeads_under (hc : p.check opt = .ok checked) {k : ℕ} {s : Iterate α} {status : Status}
    (hs : (runHeads opt backend callback p)[k]? = some s) (hk : k ≤ c.maxIter)
    (hbefore : ∀ j < k, ∀ s', (runHeads opt backend callback p)[j]? = some s' →
      (taskOf (opt.under c) backend c.callback p checked).verdict s' = none)
    (hv : (taskOf (opt.under c) backend c.callback p checked).verdict s = some status) :
    runHeads (opt.under c) backend c.callback p =
      (runHeads opt backend callback p).take (k + 1) := by
  obtain ⟨first, hfirst, hhead⟩ := exists_start_of_getElem?_runHeads hc hs
  have hfirst' := (outcome_start_taskOf_under (c := c) checked.multipliers).trans hfirst
  rw [runHeads_of_start hc hfirst] at hbefore ⊢
  rw [runHeads_of_start ((check_under p opt c).trans hc) hfirst']
  exact Task.heads_under hhead hk hbefore hv

theorem endsAt_under (hc : p.check opt = .ok checked) {k : ℕ} {s : Iterate α} {status : Status}
    (hs : (runHeads opt backend callback p)[k]? = some s) (hk : k ≤ c.maxIter)
    (hbefore : ∀ j < k, ∀ s', (runHeads opt backend callback p)[j]? = some s' →
      (taskOf (opt.under c) backend c.callback p checked).verdict s' = none)
    (hv : (taskOf (opt.under c) backend c.callback p checked).verdict s = some status) :
    EndsAt (solve (opt.under c) backend c.callback p)
      (records (solve opt backend callback p).journal) k s status := by
  have hheads := runHeads_under hc hs hk hbefore hv
  have hmem : s ∈ runHeads (opt.under c) backend c.callback p := by
    refine List.mem_of_getElem? (i := k) ?_
    rw [hheads, List.getElem?_take_of_lt k.lt_succ_self, hs]
  have hc' := (check_under p opt c).trans hc
  constructor
  · rw [solve_of_mem_runHeads hc' hmem hv, iter_of_getElem?_runHeads hs]
  · rw [records_solve hc', hheads, records_solve hc, ← List.map_take]
    rfl

/-- Controls with the same limit that give the same verdicts lead to the same result. -/
theorem sameResult_under (hlimit : c.maxIter = opt.maxIter)
    (h : ∀ checked, p.check opt = .ok checked → ∀ s ∈ runHeads opt backend callback p,
      (taskOf (opt.under c) backend c.callback p checked).verdict s =
        (taskOf opt backend callback p checked).verdict s) :
    runHeads (opt.under c) backend c.callback p = runHeads opt backend callback p ∧
      SameResult (solve (opt.under c) backend c.callback p) (solve opt backend callback p) := by
  cases hc : p.check opt with
  | error e =>
      have hc' := (check_under p opt c).trans hc
      rw [solve_of_check_error hc, solve_of_check_error hc', runHeads, runHeads, hc, hc']
      exact ⟨rfl, rfl, rfl⟩
  | ok checked =>
      have hc' := (check_under p opt c).trans hc
      have hlimit' : (opt.under c).maxIter = opt.maxIter := hlimit
      have hstart : ((taskOf (opt.under c) backend c.callback p checked).start
          checked.multipliers).outcome =
            ((taskOf opt backend callback p checked).start checked.multipliers).outcome :=
        outcome_start_taskOf_under checked.multipliers
      have hloop : ∀ first, ((taskOf opt backend callback p checked).start
          checked.multipliers).outcome = .ok first →
            (taskOf (opt.under c) backend c.callback p checked).heads opt.maxIter first =
              (taskOf opt backend callback p checked).heads opt.maxIter first ∧
            ((taskOf (opt.under c) backend c.callback p checked).iterate opt.maxIter
              first).outcome =
              ((taskOf opt backend callback p checked).iterate opt.maxIter first).outcome := by
        intro first hs
        have hsame := h checked hc
        rw [runHeads_of_start hc hs] at hsame
        exact Task.heads_under_eq hsame
      have hruns : runHeads (opt.under c) backend c.callback p =
          runHeads opt backend callback p := by
        cases hs : ((taskOf opt backend callback p checked).start checked.multipliers).outcome with
        | error e => simp only [runHeads, hc, hc', hs, hstart.trans hs]
        | ok first =>
            rw [runHeads_of_start hc hs, runHeads_of_start hc' (hstart.trans hs), hlimit']
            exact (hloop first hs).1
      refine ⟨hruns, ?_, ?_⟩
      · rw [solve_of_check hc, solve_of_check hc', hlimit']
        refine outcome_bind_congr hstart fun first hs => ?_
        refine outcome_bind_congr (hloop first hs).2 fun r _ => ?_
        obtain ⟨status, s⟩ := r
        exact outcome_bind_congr rfl fun _ _ => rfl
      · rw [records_solve hc', records_solve hc, hruns]
        rfl

/-! ## The limit, the callback and the print flags -/

/-- The controls of some options, with a callback. -/
def Options.controls (opt : Options α) (callback : Option (Snapshot α → Bool)) : Controls α :=
  ⟨opt.maxIter, callback, opt.printHeader, opt.printIteration, opt.printTime⟩

/-- Before its last head no rule ends a run, nor under a later limit. -/
theorem verdict_limited_of_succ (hc : p.check opt = .ok checked) {j k : ℕ} (hjk : j < k)
    {s s' : Iterate α} (hs : (runHeads opt backend none p)[j]? = some s)
    (hs' : (runHeads opt backend none p)[j + 1]? = some s') :
    (taskOf { opt with maxIter := k } backend none p checked).verdict s = none := by
  have hnone := verdict_of_getElem?_succ hc hs hs'
  rw [Task.verdict_eq_firstStatus?, firstStatus?_eq_none_iff] at hnone ⊢
  intro status
  cases status with
  | userRequestedStop => nofun
  | converged => exact hnone .converged
  | maxIterationsExceeded =>
      have hiter : s.iter = j := iter_of_getElem?_runHeads hs
      show ¬k ≤ s.iter
      omega
  | stepTooSmall => exact hnone .stepTooSmall

/-- A callback that lets a head pass leaves its verdict. -/
theorem verdict_of_stop_eq_false {stop : Snapshot α → Bool} {s : Iterate α}
    (h : stop ((taskOf opt backend none p checked).snapshot s) = false) :
    (taskOf opt backend (some stop) p checked).verdict s =
      (taskOf opt backend none p checked).verdict s := by
  have hstop : (taskOf opt backend (some stop) p checked).stopRequested s = false := h
  unfold Task.verdict
  rw [hstop]
  rfl

theorem verdict_of_stop_eq_true {stop : Snapshot α → Bool} {s : Iterate α}
    (h : stop ((taskOf opt backend none p checked).snapshot s) = true) :
    (taskOf opt backend (some stop) p checked).verdict s = some .userRequestedStop := by
  have hstop : (taskOf opt backend (some stop) p checked).stopRequested s = true := h
  unfold Task.verdict
  rw [if_pos hstop]

/-- A run under a lower limit ends at the head of that number. -/
theorem endsAt_limit (hc : p.check opt = .ok checked) {k : ℕ} {s : Iterate α}
    (hs : (runHeads opt backend none p)[k]? = some s) :
    ∃ status, EndsAt (solve { opt with maxIter := k } backend none p)
      (records (solve opt backend none p).journal) k s status ∧
        (status = .converged ∨ status = .maxIterationsExceeded) := by
  obtain ⟨status, hv, hstatus⟩ := Task.exists_verdict_of_le
    (t := taskOf { opt with maxIter := k } backend none p checked) (s := s) rfl
    (iter_of_getElem?_runHeads hs).ge
  obtain ⟨hk, -⟩ := List.getElem?_eq_some_iff.mp hs
  refine ⟨status, ?_, hstatus⟩
  refine endsAt_under (c := { opt.controls none with maxIter := k }) hc hs le_rfl
    (fun j hj s' hs' => ?_) hv
  exact verdict_limited_of_succ hc hj hs' (List.getElem?_eq_getElem (by omega))

/-- A run with a callback ends at the first head where the callback wants it to. -/
theorem endsAt_stop (hc : p.check opt = .ok checked) {k : ℕ} {s : Iterate α}
    (hs : (runHeads opt backend none p)[k]? = some s) {stop : Snapshot α → Bool}
    (hstop : (runSnapshots opt backend none p).findIdx? stop = some k) :
    EndsAt (solve opt backend (some stop) p) (records (solve opt backend none p).journal) k s
        .userRequestedStop ∧
      snapshots (solve opt backend (some stop) p).journal =
        (runSnapshots opt backend none p).take (k + 1) := by
  rw [runSnapshots_of_check hc, List.findIdx?_map, List.findIdx?_eq_some_iff_getElem] at hstop
  obtain ⟨hk, hhere, hearlier⟩ := hstop
  obtain rfl : (runHeads opt backend none p)[k] = s := Option.some.inj
    ((List.getElem?_eq_getElem hk).symm.trans hs)
  have hlimit : k ≤ opt.maxIter := le_maxIter_of_getElem?_runHeads hc hs
  have hv : (taskOf opt backend (some stop) p checked).verdict
      (runHeads opt backend none p)[k] = some .userRequestedStop := verdict_of_stop_eq_true hhere
  have hbefore : ∀ j < k, ∀ s', (runHeads opt backend none p)[j]? = some s' →
      (taskOf opt backend (some stop) p checked).verdict s' = none := by
    intro j hj s' hs'
    obtain ⟨hlt, rfl⟩ := List.getElem?_eq_some_iff.mp hs'
    have hpass := hearlier j hj
    rw [Bool.not_eq_true] at hpass
    rw [verdict_of_stop_eq_false hpass]
    exact verdict_of_getElem?_succ hc hs' (List.getElem?_eq_getElem (by omega))
  have hheads := runHeads_under (c := opt.controls (some stop)) hc hs hlimit hbefore hv
  refine ⟨endsAt_under (c := opt.controls (some stop)) hc hs hlimit hbefore hv, ?_⟩
  have hsnapshots : runSnapshots opt backend (some stop) p =
      (runHeads opt backend (some stop) p).map
        (taskOf opt backend (some stop) p checked).snapshot := runSnapshots_of_check hc
  rw [snapshots_solve, if_pos Option.isSome_some, hsnapshots, runSnapshots_of_check hc, ← List.map_take]
  exact congrArg _ hheads

/-- A callback that never wants to stop is shown all heads and leaves the run. -/
theorem sameResult_stop {stop : Snapshot α → Bool}
    (hstop : ∀ snapshot ∈ runSnapshots opt backend none p, stop snapshot = false) :
    SameResult (solve opt backend (some stop) p) (solve opt backend none p) ∧
      snapshots (solve opt backend (some stop) p).journal = runSnapshots opt backend none p := by
  have hverdict : ∀ checked, p.check opt = .ok checked → ∀ s ∈ runHeads opt backend none p,
      (taskOf opt backend (some stop) p checked).verdict s =
        (taskOf opt backend none p checked).verdict s := by
    intro checked hc s hs
    rw [runSnapshots_of_check hc] at hstop
    exact verdict_of_stop_eq_false (hstop _ (List.mem_map_of_mem hs))
  obtain ⟨hheads, hsame⟩ := sameResult_under (c := opt.controls (some stop)) rfl hverdict
  have hruns : runHeads opt backend (some stop) p = runHeads opt backend none p := hheads
  refine ⟨hsame, ?_⟩
  rw [snapshots_solve, if_pos Option.isSome_some]
  unfold runSnapshots
  rw [hruns]
  rfl

/-- The limit of iterations and the callback only cut a run: at each head that it comes to, the
limit of that number or a callback that first wants to stop there end it well, with what it holds
there and with its records up to there. A callback that never wants to stop and the print flags
leave its result and its records. -/
theorem controls_only_cut (opt : Options α) (backend : Backend α) (p : Problem α) :
    (∀ k s, (runHeads opt backend none p)[k]? = some s →
      (∃ status, EndsAt (solve { opt with maxIter := k } backend none p)
        (records (solve opt backend none p).journal) k s status ∧
          (status = .converged ∨ status = .maxIterationsExceeded)) ∧
      ∀ stop, (runSnapshots opt backend none p).findIdx? stop = some k →
        EndsAt (solve opt backend (some stop) p) (records (solve opt backend none p).journal) k s
            .userRequestedStop ∧
          snapshots (solve opt backend (some stop) p).journal =
            (runSnapshots opt backend none p).take (k + 1)) ∧
    (∀ stop, (∀ snapshot ∈ runSnapshots opt backend none p, stop snapshot = false) →
      SameResult (solve opt backend (some stop) p) (solve opt backend none p) ∧
        snapshots (solve opt backend (some stop) p).journal =
          runSnapshots opt backend none p) ∧
    ∀ callback printHeader printIteration printTime,
      SameResult
        (solve { opt with
          printHeader := printHeader
          printIteration := printIteration
          printTime := printTime } backend callback p)
        (solve opt backend callback p) := by
  refine ⟨fun k s hs => ?_, fun _ => sameResult_stop, fun callback header iteration time => ?_⟩
  · obtain ⟨checked, -, hpass, -, -⟩ := mem_runHeads (List.mem_of_getElem? hs)
    have hc := Problem.check_of_passes hpass
    exact ⟨endsAt_limit hc hs, fun _ => endsAt_stop hc hs⟩
  · exact (sameResult_under (c := ⟨opt.maxIter, callback, header, iteration, time⟩) rfl
      fun _ _ _ _ => rfl).2

end Whole

/-- The run along the half line, cut after its only iteration. -/
theorem innerRay_cut :
    ∃ s status, (runHeads .default returningBackend none innerRay)[1]? = some s ∧
      EndsAt (solve { Options.default with maxIter := 1 } returningBackend none innerRay)
        (records (solve .default returningBackend none innerRay).journal) 1 s status ∧
      EndsAt (solve .default returningBackend (some fun snapshot => snapshot.iter == 1) innerRay)
        (records (solve .default returningBackend none innerRay).journal) 1 s
        .userRequestedStop := by
  obtain ⟨next, hnext, hstep, hverdict⟩ := innerRay_converged
  have hheads : runHeads .default returningBackend none innerRay = [innerRayHead, next] := by
    rw [runHeads_of_start innerRay_check innerRay_start]
    exact (Task.heads_of_step innerRay_verdict hnext).trans
      (congrArg _ (Task.heads_of_verdict hverdict))
  have hs : (runHeads .default returningBackend none innerRay)[1]? = some next := by
    rw [hheads]
    rfl
  have hstop : (runSnapshots .default returningBackend none innerRay).findIdx?
      (fun snapshot => snapshot.iter == 1) = some 1 := by
    have hiter : next.iter = 1 := hstep.iter
    rw [runSnapshots_of_check innerRay_check, hheads]
    simp [List.findIdx?_cons, Task.snapshot, innerRayHead, hiter]
  obtain ⟨⟨status, hlimit, -⟩, hcallback⟩ :=
    (controls_only_cut .default returningBackend innerRay).1 1 next hs
  exact ⟨next, status, hs, hlimit, (hcallback _ hstop).1⟩

end SeqQuad.Nonlinear
