import SeqQuad.Proofs.Nonlinear.Run

/-!
# Answers and snapshots of a run

What the solver of the subproblems answered in each iteration, and what the callback was shown at
each head. Both are found under the number of the iteration: a run goes on from a head only when
there is no verdict, and the next head lies along the answer to the subproblem posed there.
-/

namespace SeqQuad.Nonlinear

variable {α : Type} [Scalar α]

namespace Task

variable {t : Task α}

/-! ## Heads in a row -/

theorem length_heads_le (left : ℕ) (s : Iterate α) : (t.heads left s).length ≤ left + 1 := by
  rw [← List.getElem?_eq_none_iff]
  induction left generalizing s with
  | zero => rfl
  | succ left ih =>
      rw [Option.eq_none_iff_forall_not_mem]
      rintro s' hs'
      obtain ⟨left', next, hleft, -, -, hnext⟩ := getElem?_heads_succ.mp hs'
      obtain rfl := Nat.succ.inj hleft
      rw [ih next] at hnext
      cases hnext

theorem length_posed_le (left : ℕ) (s : Iterate α) : (t.posed left s).length ≤ left := by
  induction left generalizing s with
  | zero => exact le_rfl
  | succ left ih =>
      unfold posed
      split
      · exact Nat.zero_le _
      · rw [List.length_cons]
        split
        · exact Nat.succ_le_succ (ih _)
        · exact Nat.succ_le_succ (Nat.zero_le _)

/-- A run goes on from a head without a verdict, where it poses a subproblem. -/
theorem posed_of_getElem?_succ {left k : ℕ} {s s' next : Iterate α}
    (hs : (t.heads left s)[k]? = some s') (hnext : (t.heads left s)[k + 1]? = some next) :
    t.verdict s' = none ∧ (t.posed left s)[k]? = some s' := by
  induction k generalizing left s with
  | zero =>
      rw [getElem?_heads_zero] at hs
      obtain rfl := Option.some.inj hs
      obtain ⟨left', _, rfl, hv, -, -⟩ := getElem?_heads_succ.mp hnext
      exact ⟨hv, by simp [posed, hv]⟩
  | succ k ih =>
      obtain ⟨left', first, rfl, hv, hstep, hs⟩ := getElem?_heads_succ.mp hs
      rw [heads_of_step hv hstep, List.getElem?_cons_succ] at hnext
      obtain ⟨hverdict, hposed⟩ := ih hs hnext
      exact ⟨hverdict, by simpa [posed, hv, hstep] using hposed⟩

/-- A head with a verdict is the last one. -/
theorem length_heads_of_verdict {left k : ℕ} {s s' : Iterate α} {status : Status}
    (hs : (t.heads left s)[k]? = some s') (hv : t.verdict s' = some status) :
    (t.heads left s).length = k + 1 := by
  obtain ⟨hk, -⟩ := List.getElem?_eq_some_iff.mp hs
  refine le_antisymm ?_ hk
  by_contra hlonger
  have hnext := List.getElem?_eq_getElem (not_le.mp hlonger)
  obtain ⟨hnone, -⟩ := posed_of_getElem?_succ hs hnext
  rw [hnone] at hv
  cases hv

/-! ## Snapshots of the loop -/

omit [Scalar α] in
theorem snapshot?_of_inner (e : Event α) (h : Event.Inner e) : e.snapshot? = none := by
  cases e <;> simp_all [Event.Inner, Event.snapshot?]

theorem snapshots_headEvents (s : Iterate α) :
    snapshots (t.headEvents s) = if t.callback.isSome then [t.snapshot s] else [] := by
  have htable : (t.tableNotes s).filterMap Event.snapshot? = [] :=
    filterMap_inner snapshot?_of_inner (inner_tableNotes s)
  unfold snapshots headEvents
  rw [List.filterMap_append, List.filterMap_append, htable]
  split <;> rfl

/-- The callback is shown exactly the heads. -/
theorem snapshots_iterate (left : ℕ) (s : Iterate α) :
    snapshots (t.iterate left s).journal =
      if t.callback.isSome then (t.heads left s).map t.snapshot else [] := by
  have hhead : ∀ s', (t.headEvents s').filterMap Event.snapshot? =
      if t.callback.isSome then [t.snapshot s'] else [] := snapshots_headEvents
  rw [snapshots, filterMap_iterate snapshot?_of_inner fun _ _ => rfl]
  simp only [hhead]
  split
  · exact List.flatMap_pure_eq_map _ _
  · simp

end Task

/-! ## Whole runs -/

section Whole

variable {opt : Options α} {backend : Backend α} {callback : Option (Snapshot α → Bool)}
  {p : Problem α} {checked : Checked α}

/-- What a callback would be shown at the heads of a run. -/
def runSnapshots (opt : Options α) (backend : Backend α)
    (callback : Option (Snapshot α → Bool)) (p : Problem α) : List (Snapshot α) :=
  match p.check opt with
  | .error _ => []
  | .ok checked =>
      (runHeads opt backend callback p).map (taskOf opt backend callback p checked).snapshot

theorem runSnapshots_of_check (hc : p.check opt = .ok checked) :
    runSnapshots opt backend callback p =
      (runHeads opt backend callback p).map (taskOf opt backend callback p checked).snapshot := by
  simp only [runSnapshots, hc]

/-- A callback is shown the snapshots of a run. -/
theorem snapshots_solve :
    snapshots (solve opt backend callback p).journal =
      if callback.isSome then runSnapshots opt backend callback p else [] := by
  rw [snapshots, filterMap_solve Task.snapshot?_of_inner]
  cases hc : p.check opt with
  | error e => simp [runSnapshots, hc]
  | ok checked =>
      cases hs : ((taskOf opt backend callback p checked).start checked.multipliers).outcome with
      | error e => simp [runSnapshots, hc, runHeads, hs]
      | ok first =>
          rw [runSnapshots_of_check hc, runHeads_of_start hc hs]
          simp only [hs]
          exact Task.snapshots_iterate opt.maxIter first

/-- A run that comes to a head started well. -/
theorem exists_start_of_getElem?_runHeads (hc : p.check opt = .ok checked) {k : ℕ} {s : Iterate α}
    (hs : (runHeads opt backend callback p)[k]? = some s) :
    ∃ first, ((taskOf opt backend callback p checked).start checked.multipliers).outcome =
        .ok first ∧
      ((taskOf opt backend callback p checked).heads opt.maxIter first)[k]? = some s := by
  cases hfirst : ((taskOf opt backend callback p checked).start checked.multipliers).outcome with
  | error e => simp [runHeads, hc, hfirst] at hs
  | ok first =>
      rw [runHeads_of_start hc hfirst] at hs
      exact ⟨first, rfl, hs⟩

theorem le_maxIter_of_getElem?_runHeads (hc : p.check opt = .ok checked) {k : ℕ} {s : Iterate α}
    (hs : (runHeads opt backend callback p)[k]? = some s) : k ≤ opt.maxIter := by
  obtain ⟨first, -, hhead⟩ := exists_start_of_getElem?_runHeads hc hs
  obtain ⟨hlt, -⟩ := List.getElem?_eq_some_iff.mp hhead
  exact Nat.le_of_lt_succ (hlt.trans_le (Task.length_heads_le _ _))

/-- A run goes on from a head without a verdict. -/
theorem verdict_of_getElem?_succ (hc : p.check opt = .ok checked) {k : ℕ} {s s' : Iterate α}
    (hs : (runHeads opt backend callback p)[k]? = some s)
    (hs' : (runHeads opt backend callback p)[k + 1]? = some s') :
    (taskOf opt backend callback p checked).verdict s = none := by
  obtain ⟨first, hfirst, hhead⟩ := exists_start_of_getElem?_runHeads hc hs
  rw [runHeads_of_start hc hfirst] at hs'
  exact (Task.posed_of_getElem?_succ hhead hs').1

/-- A head with a verdict is the last one of its run. -/
theorem length_runHeads_of_verdict (hc : p.check opt = .ok checked) {k : ℕ} {s : Iterate α}
    {status : Status} (hs : (runHeads opt backend callback p)[k]? = some s)
    (hv : (taskOf opt backend callback p checked).verdict s = some status) :
    (runHeads opt backend callback p).length = k + 1 := by
  obtain ⟨first, hfirst, hhead⟩ := exists_start_of_getElem?_runHeads hc hs
  rw [runHeads_of_start hc hfirst]
  exact Task.length_heads_of_verdict hhead hv

/-! ## Answers to the subproblems -/

/-- The solver of the subproblems answers `sol` in the iteration `k` of a run, counted from
zero. -/
def AnswerAt (opt : Options α) (backend : Backend α) (callback : Option (Snapshot α → Bool))
    (p : Problem α) (k : ℕ) (sol : QuadraticSolution α) : Prop :=
  ∃ q, (subproblems (solve opt backend callback p).journal)[k]? = some q ∧
    (backend (k + 1) q.1 q.2).outcome = .ok sol

theorem AnswerAt.eq {k : ℕ} {sol sol' : QuadraticSolution α}
    (h : AnswerAt opt backend callback p k sol) (h' : AnswerAt opt backend callback p k sol') :
    sol = sol' := by
  obtain ⟨q, hq, hsol⟩ := h
  obtain ⟨q', hq', hsol'⟩ := h'
  obtain rfl := Option.some.inj (hq.symm.trans hq')
  exact Except.ok.inj (hsol.symm.trans hsol')

theorem EachAnswer.of_answerAt {A : QuadraticSolution α → Prop}
    (hanswer : EachAnswer opt backend callback p fun _ sol => A sol) {k : ℕ}
    {sol : QuadraticSolution α} (h : AnswerAt opt backend callback p k sol) : A sol := by
  obtain ⟨q, hq, hsol⟩ := h
  exact hanswer k q hq sol hsol

/-- A head that is not the last poses the subproblem of its number. -/
theorem getElem?_subproblems_of_succ (hc : p.check opt = .ok checked) {k : ℕ} {s s' : Iterate α}
    (hs : (runHeads opt backend callback p)[k]? = some s)
    (hs' : (runHeads opt backend callback p)[k + 1]? = some s') :
    (subproblems (solve opt backend callback p).journal)[k]? =
      some ((taskOf opt backend callback p checked).subproblem s, s.step) := by
  obtain ⟨first, hfirst, hhead⟩ := exists_start_of_getElem?_runHeads hc hs
  rw [runHeads_of_start hc hfirst] at hs'
  obtain ⟨-, hposed⟩ := Task.posed_of_getElem?_succ hhead hs'
  rw [subproblems_solve hc hfirst, List.getElem?_map, hposed]
  rfl

/-- Each head after the first is one iteration along the answer to the subproblem before it. -/
theorem exists_answerAt (hc : p.check opt = .ok checked) {k : ℕ} {s s' : Iterate α}
    (hs : (runHeads opt backend callback p)[k]? = some s)
    (hs' : (runHeads opt backend callback p)[k + 1]? = some s') :
    ∃ sol, AnswerAt opt backend callback p k sol ∧
      (taskOf opt backend callback p checked).Stepped s sol s' := by
  obtain ⟨sol, hstep⟩ := stepped_of_getElem? hc hs hs'
  refine ⟨sol, ⟨_, getElem?_subproblems_of_succ hc hs hs', ?_⟩, hstep⟩
  rw [← iter_of_getElem?_runHeads hs]
  exact hstep.solved

/-- What holds of the first head, and is kept from head to head along the answer between them,
holds of every head under its number. -/
theorem getElem?_runHeads_induction {P : ℕ → Iterate α → Prop} (hc : p.check opt = .ok checked)
    (hstart : ∀ s, (taskOf opt backend callback p checked).Started checked.multipliers s → P 0 s)
    (hstep : ∀ k s sol s', (runHeads opt backend callback p)[k]? = some s →
      AnswerAt opt backend callback p k sol →
      (taskOf opt backend callback p checked).Stepped s sol s' → P k s → P (k + 1) s')
    {k : ℕ} {s : Iterate α} (hs : (runHeads opt backend callback p)[k]? = some s) : P k s := by
  induction k generalizing s with
  | zero => exact hstart s (started_of_getElem?_zero hc hs)
  | succ k ih =>
      obtain ⟨hlt, -⟩ := List.getElem?_eq_some_iff.mp hs
      have hprev := List.getElem?_eq_getElem (Nat.lt_of_succ_lt hlt)
      obtain ⟨sol, hsol, hstepped⟩ := exists_answerAt hc hprev hs
      exact hstep k _ sol s hprev hsol hstepped (ih hprev)

/-- Each head after the first is one iteration along an answer that is related to its quadratic
program as all answers are. -/
theorem EachAnswer.exists_stepped {A : QuadraticProgram α → QuadraticSolution α → Prop}
    (hanswer : EachAnswer opt backend callback p A) (hc : p.check opt = .ok checked) {k : ℕ}
    {s s' : Iterate α} (hs : (runHeads opt backend callback p)[k]? = some s)
    (hs' : (runHeads opt backend callback p)[k + 1]? = some s') :
    ∃ sol, AnswerAt opt backend callback p k sol ∧
      A ((taskOf opt backend callback p checked).subproblem s) sol ∧
      (taskOf opt backend callback p checked).Stepped s sol s' := by
  obtain ⟨sol, hsol, hstep⟩ := exists_answerAt hc hs hs'
  have hposed := getElem?_subproblems_of_succ hc hs hs'
  refine ⟨sol, hsol, hanswer k _ hposed sol ?_, hstep⟩
  rw [← iter_of_getElem?_runHeads hs]
  exact hstep.solved

/-- The line search of iteration `k`, counted from zero, along the answer there returned
`length`. -/
def SearchLength (opt : Options α) (backend : Backend α) (callback : Option (Snapshot α → Bool))
    (p : Problem α) (k : ℕ) (length : α) : Prop :=
  ∃ checked s sol, p.check opt = .ok checked ∧
    (runHeads opt backend callback p)[k]? = some s ∧ AnswerAt opt backend callback p k sol ∧
    ((taskOf opt backend callback p checked).search s sol).t = length

theorem SearchLength.eq {k : ℕ} {length length' : α}
    (h : SearchLength opt backend callback p k length)
    (h' : SearchLength opt backend callback p k length') : length = length' := by
  obtain ⟨_, s, sol, hc, hs, hsol, rfl⟩ := h
  obtain ⟨_, s', sol', hc', hs', hsol', rfl⟩ := h'
  obtain rfl := Except.ok.inj (hc.symm.trans hc')
  obtain rfl := Option.some.inj (hs.symm.trans hs')
  rw [hsol.eq hsol']

end Whole

end SeqQuad.Nonlinear
