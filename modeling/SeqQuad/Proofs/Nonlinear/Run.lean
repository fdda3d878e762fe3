import SeqQuad.Proofs.Nonlinear.Events

/-!
# Heads of a run

The iterates at the heads of the loop, in order, also for a run that fails later. They are what
the journal of the run records and what its subproblems are posed from, and a property of all of
them follows from the start and one iteration.
-/

namespace SeqQuad.Nonlinear

open Journaled

variable {α : Type} [Scalar α]

namespace Task

variable {t : Task α}

/-- The heads from an iterate on, with `left` iterations left. -/
def heads (t : Task α) : ℕ → Iterate α → List (Iterate α)
  | 0, s => [s]
  | left + 1, s =>
      s :: match t.verdict s with
        | some _ => []
        | none =>
            match (t.step s).outcome with
            | .ok next => heads t left next
            | .error _ => []

/-- The heads at which a subproblem is posed. -/
def posed (t : Task α) : ℕ → Iterate α → List (Iterate α)
  | 0, _ => []
  | left + 1, s =>
      match t.verdict s with
      | some _ => []
      | none =>
          s :: match (t.step s).outcome with
            | .ok next => posed t left next
            | .error _ => []

/-! ## The shape of the heads -/

theorem heads_zero (s : Iterate α) : t.heads 0 s = [s] :=
  rfl

theorem heads_of_verdict {left : ℕ} {s : Iterate α} {status : Status}
    (h : t.verdict s = some status) : t.heads left s = [s] := by
  cases left with
  | zero => rfl
  | succ left => simp [heads, h]

theorem heads_of_step {left : ℕ} {s next : Iterate α} (hv : t.verdict s = none)
    (h : (t.step s).outcome = .ok next) : t.heads (left + 1) s = s :: t.heads left next := by
  simp [heads, hv, h]

theorem heads_of_error {left : ℕ} {s : Iterate α} {e : Failure (SolveError α)}
    (hv : t.verdict s = none) (h : (t.step s).outcome = .error e) :
    t.heads (left + 1) s = [s] := by
  simp [heads, hv, h]

theorem posed_of_verdict {left : ℕ} {s : Iterate α} {status : Status}
    (h : t.verdict s = some status) : t.posed left s = [] := by
  cases left with
  | zero => rfl
  | succ left => simp [posed, h]

theorem posed_of_step {left : ℕ} {s next : Iterate α} (hv : t.verdict s = none)
    (h : (t.step s).outcome = .ok next) : t.posed (left + 1) s = s :: t.posed left next := by
  simp [posed, hv, h]

theorem posed_of_error {left : ℕ} {s : Iterate α} {e : Failure (SolveError α)}
    (hv : t.verdict s = none) (h : (t.step s).outcome = .error e) :
    t.posed (left + 1) s = [s] := by
  simp [posed, hv, h]

/-- A head without a verdict poses a subproblem, however its iteration ends. -/
theorem mem_posed_self {left : ℕ} {s : Iterate α} (hv : t.verdict s = none) :
    s ∈ t.posed (left + 1) s := by
  simp [posed, hv]

/-- What holds at the first head and is kept by every iteration holds at every head. -/
theorem heads_step_induction {P : Iterate α → Prop}
    (hstep : ∀ s s', P s → t.verdict s = none → (t.step s).outcome = .ok s' → P s') {left : ℕ}
    {s : Iterate α} (h : P s) : ∀ s' ∈ t.heads left s, P s' := by
  induction left generalizing s with
  | zero =>
      rw [heads_zero]
      simpa using h
  | succ left ih =>
      cases hv : t.verdict s with
      | some status =>
          rw [heads_of_verdict hv]
          simpa using h
      | none =>
          cases hs : (t.step s).outcome with
          | error e =>
              rw [heads_of_error hv hs]
              simpa using h
          | ok next =>
              rw [heads_of_step hv hs]
              exact List.forall_mem_cons.mpr ⟨h, ih (hstep s next h hv hs)⟩

/-- The same, where what one iteration does is all that is asked of it. -/
theorem heads_induction {P : Iterate α → Prop}
    (hstep : ∀ s sol s', P s → t.verdict s = none → t.Stepped s sol s' → P s') {left : ℕ}
    {s : Iterate α} (h : P s) : ∀ s' ∈ t.heads left s, P s' := by
  refine heads_step_induction (fun s s' hs hv hnext => ?_) h
  obtain ⟨sol, hstepped⟩ := stepped_of_step hnext
  exact hstep s sol s' hs hv hstepped

theorem head?_heads (left : ℕ) (s : Iterate α) : (t.heads left s).head? = some s := by
  cases left <;> rfl

theorem getElem?_heads_zero (left : ℕ) (s : Iterate α) : (t.heads left s)[0]? = some s := by
  cases left <;> rfl

/-- Every head but the first is one iteration away from the head before it. -/
theorem isChain_heads (left : ℕ) (s : Iterate α) :
    (t.heads left s).IsChain fun s s' => ∃ sol, t.Stepped s sol s' := by
  induction left generalizing s with
  | zero => exact List.isChain_singleton s
  | succ left ih =>
      cases hv : t.verdict s with
      | some status =>
          rw [heads_of_verdict hv]
          exact List.isChain_singleton s
      | none =>
          cases hs : (t.step s).outcome with
          | error e =>
              rw [heads_of_error hv hs]
              exact List.isChain_singleton s
          | ok next =>
              rw [heads_of_step hv hs, List.isChain_cons]
              refine ⟨fun s' hs' => ?_, ih next⟩
              rw [head?_heads] at hs'
              obtain rfl := Option.some.inj hs'
              exact stepped_of_step hs

/-- Subproblems are posed at the heads in order, at all but the last ones. -/
theorem posed_prefix_heads (left : ℕ) (s : Iterate α) : t.posed left s <+: t.heads left s := by
  induction left generalizing s with
  | zero => exact List.nil_prefix
  | succ left ih =>
      cases hv : t.verdict s with
      | some status =>
          rw [posed_of_verdict hv]
          exact List.nil_prefix
      | none =>
          cases hs : (t.step s).outcome with
          | error e => rw [heads_of_error hv hs, posed_of_error hv hs]
          | ok next =>
              rw [heads_of_step hv hs, posed_of_step hv hs, List.cons_prefix_cons]
              exact ⟨rfl, ih next⟩

/-- The heads after the first are those from the next iterate on, if the run goes on. -/
theorem getElem?_heads_succ {left k : ℕ} {s s' : Iterate α} :
    (t.heads left s)[k + 1]? = some s' ↔ ∃ left' next, left = left' + 1 ∧ t.verdict s = none ∧
      (t.step s).outcome = .ok next ∧ (t.heads left' next)[k]? = some s' := by
  cases left with
  | zero => simp [heads_zero]
  | succ left =>
      cases hv : t.verdict s with
      | some status => simp [heads_of_verdict hv]
      | none =>
          cases hs : (t.step s).outcome with
          | error e => simp [heads_of_error hv hs]
          | ok next => simp [heads_of_step hv hs]

/-- Heads are numbered in order. -/
theorem iter_of_getElem?_heads {left k : ℕ} {s s' : Iterate α}
    (h : (t.heads left s)[k]? = some s') : s'.iter = s.iter + k := by
  induction k generalizing left s with
  | zero =>
      rw [getElem?_heads_zero] at h
      rw [Option.some.inj h, Nat.add_zero]
  | succ k ih =>
      obtain ⟨left', next, -, -, hnext, h⟩ := getElem?_heads_succ.mp h
      obtain ⟨sol, hstep⟩ := stepped_of_step hnext
      rw [ih h, hstep.iter]
      omega

theorem iter_of_getElem?_posed {left k : ℕ} {s s' : Iterate α}
    (h : (t.posed left s)[k]? = some s') : s'.iter = s.iter + k := by
  obtain ⟨rest, hrest⟩ := posed_prefix_heads (t := t) left s
  have hlt := (List.getElem?_eq_some_iff.mp h).1
  have hhead : (t.heads left s)[k]? = some s' := by
    rw [← hrest, List.getElem?_append_left hlt, h]
  exact iter_of_getElem?_heads hhead

/-! ## The equations of a run -/

theorem iterate_zero (s : Iterate α) :
    t.iterate 0 s = (do
      .note (t.headEvents s)
      match t.verdict s with
      | some status =>
          .note [.note (.ended status s.iter)]
          return (status, s)
      | none => return (.maxIterationsExceeded, s)) := by
  unfold iterate
  cases t.verdict s <;> rfl

theorem iterate_succ (left : ℕ) (s : Iterate α) :
    t.iterate (left + 1) s = (do
      .note (t.headEvents s)
      match t.verdict s with
      | some status =>
          .note [.note (.ended status s.iter)]
          return (status, s)
      | none => do
          let next ← t.step s
          t.iterate left next) := by
  conv_lhs => unfold iterate
  cases t.verdict s <;> rfl

/-- A run that ends well ends at one of its heads, with the verdict there. -/
theorem iterate_eq_ok {left : ℕ} {s s' : Iterate α} {status : Status}
    (h : (t.iterate left s).outcome = .ok (status, s')) :
    s' ∈ t.heads left s ∧
      (t.verdict s' = some status ∨ status = .maxIterationsExceeded) := by
  induction left generalizing s with
  | zero =>
      rw [iterate_zero] at h
      rcases outcome_bind_eq_ok.mp h with ⟨_, _, h⟩
      rw [heads_zero]
      cases hv : t.verdict s with
      | some st =>
          simp only [hv] at h
          obtain ⟨rfl, rfl⟩ := Prod.mk.inj (Except.ok.inj h)
          simp [hv]
      | none =>
          simp only [hv] at h
          obtain ⟨rfl, rfl⟩ := Prod.mk.inj (Except.ok.inj h)
          simp
  | succ left ih =>
      rw [iterate_succ] at h
      rcases outcome_bind_eq_ok.mp h with ⟨_, _, h⟩
      cases hv : t.verdict s with
      | some st =>
          simp only [hv] at h
          obtain ⟨rfl, rfl⟩ := Prod.mk.inj (Except.ok.inj h)
          rw [heads_of_verdict hv]
          simp [hv]
      | none =>
          simp only [hv] at h
          rcases outcome_bind_eq_ok.mp h with ⟨next, hs, h⟩
          obtain ⟨hmem, hstatus⟩ := ih h
          rw [heads_of_step hv hs]
          exact ⟨List.mem_cons_of_mem s hmem, hstatus⟩

/-- A run that comes to a head with a verdict ends there. -/
theorem iterate_of_mem_heads {left : ℕ} {s s' : Iterate α} {status : Status}
    (hmem : s' ∈ t.heads left s) (hv : t.verdict s' = some status) :
    (t.iterate left s).outcome = .ok (status, s') := by
  induction left generalizing s with
  | zero =>
      rw [heads_zero] at hmem
      obtain rfl := List.mem_singleton.mp hmem
      rw [iterate_zero, bind_of_ok _ (outcome_note _), hv]
      rfl
  | succ left ih =>
      rw [iterate_succ, bind_of_ok _ (outcome_note _)]
      cases hvs : t.verdict s with
      | some st =>
          rw [heads_of_verdict hvs] at hmem
          obtain rfl := List.mem_singleton.mp hmem
          obtain rfl := Option.some.inj (hvs.symm.trans hv)
          rfl
      | none =>
          have hne : s' ≠ s := by
            rintro rfl
            simp [hvs] at hv
          cases hs : (t.step s).outcome with
          | error e =>
              rw [heads_of_error hvs hs] at hmem
              exact absurd (List.mem_singleton.mp hmem) hne
          | ok next =>
              rw [heads_of_step hvs hs] at hmem
              dsimp only
              rw [bind_of_ok _ hs]
              exact ih ((List.mem_cons.mp hmem).resolve_left hne)

/-! ## The journal -/

theorem exists_note_of_mem_tableNotes {s : Iterate α} {e : Event α} (h : e ∈ t.tableNotes s) :
    ∃ n, e = .note n := by
  unfold tableNotes at h
  split at h
  · split at h <;> simp at h
    · rcases h with rfl | rfl <;> exact ⟨_, rfl⟩
    · exact ⟨_, h⟩
  · simp at h

theorem inner_tableNotes (s : Iterate α) : ∀ e ∈ t.tableNotes s, Event.Inner e := by
  intro e he
  obtain ⟨n, rfl⟩ := exists_note_of_mem_tableNotes he
  trivial

theorem records_headEvents (s : Iterate α) : records (t.headEvents s) = [t.record s] := by
  have htable : (t.tableNotes s).filterMap Event.record? = [] :=
    filterMap_inner record?_of_inner (inner_tableNotes s)
  unfold records headEvents
  rw [List.filterMap_append, List.filterMap_append, htable]
  split <;> rfl

theorem subproblems_headEvents (s : Iterate α) : subproblems (t.headEvents s) = [] := by
  have htable : (t.tableNotes s).filterMap Event.subproblem? = [] :=
    filterMap_inner subproblem?_of_inner (inner_tableNotes s)
  unfold subproblems headEvents
  rw [List.filterMap_append, List.filterMap_append, htable]
  split <;> rfl

theorem inner_step (t : Task α) (s : Iterate α) :
    ∃ rest, (t.step s).journal =
      .note .formulating :: .subproblem (t.subproblem s) s.step :: rest ∧
        ∀ e ∈ rest, Event.Inner e := by
  obtain ⟨rest, hrest, hinside⟩ := journal_step t s
  have hanywhere : t.SearchesIn (fun _ => True) s := fun _ _ => ⟨fun _ _ => trivial, trivial⟩
  exact ⟨rest, hrest, fun e he => (hinside _ hanywhere e he).inner⟩

theorem subproblems_step (s : Iterate α) :
    subproblems (t.step s).journal = [(t.subproblem s, s.step)] := by
  obtain ⟨rest, hrest, hinner⟩ := inner_step t s
  have hnil : rest.filterMap Event.subproblem? = [] :=
    filterMap_inner subproblem?_of_inner hinner
  have hposed : (Event.subproblem (t.subproblem s) s.step).subproblem? =
      some (t.subproblem s, s.step) := rfl
  rw [hrest, subproblems, List.filterMap_cons_none rfl, List.filterMap_cons_some hposed, hnil]

/-- The journal of a run from an iterate on: the head, then what follows it. -/
theorem journal_iterate (left : ℕ) (s : Iterate α) :
    (t.iterate left s).journal = t.headEvents s ++
      match t.verdict s, left with
      | some status, _ => [.note (.ended status s.iter)]
      | none, 0 => []
      | none, left + 1 => (t.step s).journal ++
          match (t.step s).outcome with
          | .ok next => (t.iterate left next).journal
          | .error _ => [] := by
  cases left with
  | zero =>
      rw [iterate_zero, journal_note_bind]
      cases t.verdict s <;> rfl
  | succ left =>
      rw [iterate_succ, journal_note_bind]
      cases t.verdict s with
      | some status => rfl
      | none =>
          cases hs : (t.step s).outcome with
          | ok next =>
              dsimp only
              rw [bind_of_ok _ hs]
          | error e =>
              dsimp only
              rw [bind_of_error _ hs, List.append_nil]

/-- What is read off a journal, if nothing is read off an iteration, is read off the heads. -/
theorem filterMap_iterate {β : Type} {f : Event α → Option β}
    (hf : ∀ e, Event.Inner e → f e = none) (hposed : ∀ qp start, f (.subproblem qp start) = none)
    (left : ℕ) (s : Iterate α) :
    (t.iterate left s).journal.filterMap f =
      (t.heads left s).flatMap fun s' => (t.headEvents s').filterMap f := by
  have hnote : ∀ n, f (.note n) = none := fun n => hf (.note n) trivial
  induction left generalizing s with
  | zero =>
      rw [journal_iterate, List.filterMap_append, heads_zero, List.flatMap_singleton]
      cases t.verdict s <;> simp [hnote]
  | succ left ih =>
      have hstep : (t.step s).journal.filterMap f = [] := by
        obtain ⟨rest, hrest, hinner⟩ := inner_step t s
        rw [hrest, List.filterMap_cons_none (hnote _), List.filterMap_cons_none (hposed _ _)]
        exact filterMap_inner hf hinner
      rw [journal_iterate, List.filterMap_append]
      cases hv : t.verdict s with
      | some status =>
          rw [heads_of_verdict hv, List.flatMap_singleton, List.filterMap_cons_none (hnote _),
            List.filterMap_nil, List.append_nil]
      | none =>
          dsimp only
          rw [List.filterMap_append, hstep, List.nil_append]
          cases hs : (t.step s).outcome with
          | ok next => rw [heads_of_step hv hs, List.flatMap_cons, ← ih]
          | error e =>
              rw [heads_of_error hv hs, List.flatMap_singleton, List.filterMap_nil,
                List.append_nil]

/-- The journal records exactly the heads. -/
theorem records_iterate (left : ℕ) (s : Iterate α) :
    records (t.iterate left s).journal = (t.heads left s).map t.record := by
  have hhead : ∀ s', (t.headEvents s').filterMap Event.record? = [t.record s'] :=
    records_headEvents
  rw [records, filterMap_iterate record?_of_inner fun _ _ => rfl]
  simp only [hhead]
  exact List.flatMap_pure_eq_map _ _

/-- What is read off a journal, if nothing is read off a head or a note, is read off the
iterations from the heads that pose a subproblem. -/
theorem filterMap_iterate_posed {β : Type} {f : Event α → Option β}
    (hhead : ∀ s, (t.headEvents s).filterMap f = []) (hnote : ∀ n, f (.note n) = none)
    (left : ℕ) (s : Iterate α) :
    (t.iterate left s).journal.filterMap f =
      (t.posed left s).flatMap fun s' => (t.step s').journal.filterMap f := by
  induction left generalizing s with
  | zero =>
      rw [journal_iterate, List.filterMap_append, hhead, posed]
      cases t.verdict s <;> simp [hnote]
  | succ left ih =>
      rw [journal_iterate, List.filterMap_append, hhead, posed, List.nil_append]
      cases hv : t.verdict s with
      | some status => exact List.filterMap_cons_none (hnote _)
      | none =>
          dsimp only
          rw [List.filterMap_append, List.flatMap_cons]
          cases (t.step s).outcome with
          | ok next => rw [← ih next]
          | error e => rfl

/-- The subproblems of the journal are those of the heads that pose one. -/
theorem subproblems_iterate (left : ℕ) (s : Iterate α) :
    subproblems (t.iterate left s).journal =
      (t.posed left s).map fun s => (t.subproblem s, s.step) := by
  have hstep : ∀ s', (t.step s').journal.filterMap Event.subproblem? =
      [(t.subproblem s', s'.step)] := subproblems_step
  rw [subproblems, filterMap_iterate_posed subproblems_headEvents fun _ => rfl]
  simp only [hstep]
  exact List.flatMap_pure_eq_map _ _

end Task

/-! ## Whole runs -/

/-- The task that a checked problem is solved as. -/
def taskOf (opt : Options α) (backend : Backend α) (callback : Option (Snapshot α → Bool))
    (p : Problem α) (checked : Checked α) : Task α :=
  ⟨p, checked.curvature, opt, backend, callback⟩

/-- The iterates at the heads of the loop of a run. -/
def runHeads (opt : Options α) (backend : Backend α) (callback : Option (Snapshot α → Bool))
    (p : Problem α) : List (Iterate α) :=
  match p.check opt with
  | .error _ => []
  | .ok checked =>
      let t := taskOf opt backend callback p checked
      match (t.start checked.multipliers).outcome with
      | .error _ => []
      | .ok first => t.heads opt.maxIter first

section Whole

variable {opt : Options α} {backend : Backend α} {callback : Option (Snapshot α → Bool)}
  {p : Problem α}

theorem runHeads_of_start {checked : Checked α} {first : Iterate α}
    (hc : p.check opt = .ok checked)
    (hs : ((taskOf opt backend callback p checked).start checked.multipliers).outcome = .ok first) :
    runHeads opt backend callback p =
      (taskOf opt backend callback p checked).heads opt.maxIter first := by
  simp only [runHeads, hc, hs]

theorem getElem?_runHeads_zero {checked : Checked α} {first : Iterate α}
    (hc : p.check opt = .ok checked)
    (hs : ((taskOf opt backend callback p checked).start checked.multipliers).outcome = .ok first) :
    (runHeads opt backend callback p)[0]? = some first := by
  rw [runHeads_of_start hc hs]
  exact Task.getElem?_heads_zero _ _

/-- The first iteration of a run leads to its second head. -/
theorem getElem?_runHeads_one {checked : Checked α} {first next : Iterate α}
    (hc : p.check opt = .ok checked)
    (hs : ((taskOf opt backend callback p checked).start checked.multipliers).outcome = .ok first)
    (hv : (taskOf opt backend callback p checked).verdict first = none) (hiter : 0 < opt.maxIter)
    (hstep : ((taskOf opt backend callback p checked).step first).outcome = .ok next) :
    (runHeads opt backend callback p)[1]? = some next := by
  obtain ⟨left, hleft⟩ := Nat.exists_eq_succ_of_ne_zero hiter.ne'
  rw [runHeads_of_start hc hs, hleft, Task.heads_of_step hv hstep, List.getElem?_cons_succ]
  exact Task.getElem?_heads_zero left next

/-- A head belongs to a checked problem and a first head. -/
theorem mem_runHeads {s : Iterate α} (h : s ∈ runHeads opt backend callback p) :
    ∃ checked first, p.Passes opt checked ∧
      (taskOf opt backend callback p checked).Started checked.multipliers first ∧
      s ∈ (taskOf opt backend callback p checked).heads opt.maxIter first := by
  unfold runHeads at h
  cases hc : p.check opt with
  | error e => simp [hc] at h
  | ok checked =>
      simp only [hc] at h
      cases hs : ((taskOf opt backend callback p checked).start checked.multipliers).outcome with
      | error e => simp [hs] at h
      | ok first =>
          simp only [hs] at h
          exact ⟨checked, first, Problem.passes_of_check hc, Task.started_of_start hs, h⟩

/-- The heads of a run begin at its start and go on by one iteration each. -/
theorem runHeads_spec {checked : Checked α} (hc : p.check opt = .ok checked) :
    (∀ s ∈ (runHeads opt backend callback p).head?,
      (taskOf opt backend callback p checked).Started checked.multipliers s) ∧
    (runHeads opt backend callback p).IsChain fun s s' =>
      ∃ sol, (taskOf opt backend callback p checked).Stepped s sol s' := by
  unfold runHeads
  simp only [hc]
  cases hs : ((taskOf opt backend callback p checked).start checked.multipliers).outcome with
  | error e => exact ⟨nofun, List.isChain_nil⟩
  | ok first =>
      refine ⟨fun s hmem => ?_, Task.isChain_heads _ _⟩
      rw [Task.head?_heads] at hmem
      obtain rfl := Option.some.inj hmem
      exact Task.started_of_start hs

theorem started_of_getElem?_zero {checked : Checked α} {s : Iterate α}
    (hc : p.check opt = .ok checked) (hs : (runHeads opt backend callback p)[0]? = some s) :
    (taskOf opt backend callback p checked).Started checked.multipliers s := by
  rw [← List.head?_eq_getElem?] at hs
  exact (runHeads_spec hc).1 s hs

/-- What holds at the first head and is kept by every iteration holds at every head of a run. -/
theorem runHeads_induction {P : Task α → Iterate α → Prop}
    (hstart : ∀ checked first, p.Passes opt checked →
      (taskOf opt backend callback p checked).Started checked.multipliers first →
      P (taskOf opt backend callback p checked) first)
    (hstep : ∀ checked s sol s', p.Passes opt checked →
      P (taskOf opt backend callback p checked) s →
      (taskOf opt backend callback p checked).verdict s = none →
      (taskOf opt backend callback p checked).Stepped s sol s' →
      P (taskOf opt backend callback p checked) s') :
    ∀ s ∈ runHeads opt backend callback p,
      ∃ checked, p.Passes opt checked ∧ P (taskOf opt backend callback p checked) s := by
  intro s hs
  obtain ⟨checked, first, hpass, hfirst, hmem⟩ := mem_runHeads hs
  refine ⟨checked, hpass, ?_⟩
  exact Task.heads_induction (fun s sol s' h hv hst => hstep checked s sol s' hpass h hv hst)
    (hstart checked first hpass hfirst) s hmem

/-- A problem that fails the checks is refused before the first evaluation. -/
theorem solve_of_check_error {e : ProblemError α} (hc : p.check opt = .error e) :
    solve opt backend callback p = .fail (.error (.problem e)) := by
  unfold solve
  rw [hc]
  rfl

theorem solve_of_check {checked : Checked α} (hc : p.check opt = .ok checked) :
    solve opt backend callback p = (do
      let first ← (taskOf opt backend callback p checked).start checked.multipliers
      let (status, s) ← (taskOf opt backend callback p checked).iterate opt.maxIter first
      .noteIf opt.printTime [.timesDue]
      return ⟨s.x, s.f, s.g, s.multipliers, status, s.iter, s.searchFailures⟩) := by
  unfold solve
  rw [hc]
  rfl

/-- Records and subproblems come from the loop alone. -/
theorem filterMap_solve {β : Type} {f : Event α → Option β}
    (hf : ∀ e, Event.Inner e → f e = none) :
    (solve opt backend callback p).journal.filterMap f =
      match p.check opt with
      | .error _ => []
      | .ok checked =>
          let t := taskOf opt backend callback p checked
          match (t.start checked.multipliers).outcome with
          | .error _ => []
          | .ok first => (t.iterate opt.maxIter first).journal.filterMap f := by
  cases hc : p.check opt with
  | error e =>
      rw [solve_of_check_error hc]
      rfl
  | ok checked =>
      have hstart : ((taskOf opt backend callback p checked).start
          checked.multipliers).journal.filterMap f = [] :=
        filterMap_inner hf fun e he =>
          (Task.inside_start (X := fun _ => True) _ trivial _ e he).inner
      rw [solve_of_check hc]
      cases hs : ((taskOf opt backend callback p checked).start checked.multipliers).outcome with
      | error e =>
          rw [bind_of_error _ hs]
          simpa [hs] using hstart
      | ok first =>
          have htimes : ∀ e ∈ (noteIf opt.printTime [Event.timesDue] : Run α Unit).journal,
              Event.Inner e := by
            refine all_note ?_
            split <;> simp [Event.Inner]
          rw [filterMap_bind_of_left hs hstart, filterMap_bind_of_right fun r => ?_]
          · simp [hs]
          · exact (filterMap_bind_of_left rfl (filterMap_inner hf htimes)).trans rfl

/-- The records of a run are those of its heads. -/
theorem records_solve {checked : Checked α} (hc : p.check opt = .ok checked) :
    records (solve opt backend callback p).journal =
      (runHeads opt backend callback p).map (taskOf opt backend callback p checked).record := by
  rw [records, filterMap_solve record?_of_inner]
  unfold runHeads
  simp only [hc]
  cases ((taskOf opt backend callback p checked).start checked.multipliers).outcome with
  | error e => rfl
  | ok first => exact Task.records_iterate opt.maxIter first

theorem getElem?_records {checked : Checked α} (hc : p.check opt = .ok checked) {k : ℕ} {s : Iterate α}
    (hs : (runHeads opt backend callback p)[k]? = some s) :
    (records (solve opt backend callback p).journal)[k]? =
      some ((taskOf opt backend callback p checked).record s) := by
  rw [records_solve hc, List.getElem?_map, hs]
  rfl

/-- A record belongs to a checked problem and a head. -/
theorem exists_head_of_getElem?_records {k : ℕ} {r : IterationRecord α}
    (h : (records (solve opt backend callback p).journal)[k]? = some r) :
    ∃ checked s, p.check opt = .ok checked ∧
      (runHeads opt backend callback p)[k]? = some s ∧
      r = (taskOf opt backend callback p checked).record s := by
  cases hc : p.check opt with
  | error e =>
      rw [records, filterMap_solve record?_of_inner] at h
      simp [hc] at h
  | ok checked =>
      rw [records_solve hc, List.getElem?_map] at h
      obtain ⟨s, hs, hr⟩ := Option.map_eq_some_iff.mp h
      exact ⟨checked, s, rfl, hs, hr.symm⟩

/-- The heads of a run are numbered from zero. -/
theorem iter_of_getElem?_runHeads {k : ℕ} {s : Iterate α}
    (h : (runHeads opt backend callback p)[k]? = some s) : s.iter = k := by
  cases hc : p.check opt with
  | error e => simp [runHeads, hc] at h
  | ok checked =>
      cases hs : ((taskOf opt backend callback p checked).start checked.multipliers).outcome with
      | error e => simp [runHeads, hc, hs] at h
      | ok first =>
          rw [runHeads_of_start hc hs] at h
          rw [Task.iter_of_getElem?_heads h, (Task.started_of_start hs).iter, Nat.zero_add]

/-- Two heads in a row are one iteration apart. -/
theorem stepped_of_getElem? {checked : Checked α} (hc : p.check opt = .ok checked) {k : ℕ}
    {s s' : Iterate α}
    (hs : (runHeads opt backend callback p)[k]? = some s)
    (hs' : (runHeads opt backend callback p)[k + 1]? = some s') :
    ∃ sol, (taskOf opt backend callback p checked).Stepped s sol s' := by
  obtain ⟨hk, rfl⟩ := List.getElem?_eq_some_iff.mp hs
  obtain ⟨hk', rfl⟩ := List.getElem?_eq_some_iff.mp hs'
  exact (runHeads_spec hc).2.getElem k hk'

/-- The subproblems of a run are those of the heads that pose one. -/
theorem subproblems_solve {checked : Checked α} {first : Iterate α}
    (hc : p.check opt = .ok checked)
    (hs : ((taskOf opt backend callback p checked).start checked.multipliers).outcome = .ok first) :
    subproblems (solve opt backend callback p).journal =
      ((taskOf opt backend callback p checked).posed opt.maxIter first).map fun s =>
        ((taskOf opt backend callback p checked).subproblem s, s.step) := by
  rw [subproblems, filterMap_solve subproblem?_of_inner]
  simp only [hc, hs]
  exact Task.subproblems_iterate opt.maxIter first

/-- A subproblem of a run is posed at the head of its number. -/
theorem exists_posed_of_getElem?_subproblems {k : ℕ} {q : QuadraticProgram α × List α}
    (h : (subproblems (solve opt backend callback p).journal)[k]? = some q) :
    ∃ checked first s, p.check opt = .ok checked ∧
      ((taskOf opt backend callback p checked).start checked.multipliers).outcome = .ok first ∧
      ((taskOf opt backend callback p checked).posed opt.maxIter first)[k]? = some s ∧
      q = ((taskOf opt backend callback p checked).subproblem s, s.step) := by
  cases hc : p.check opt with
  | error e =>
      rw [subproblems, filterMap_solve subproblem?_of_inner] at h
      simp [hc] at h
  | ok checked =>
      cases hs : ((taskOf opt backend callback p checked).start checked.multipliers).outcome with
      | error e =>
          rw [subproblems, filterMap_solve subproblem?_of_inner] at h
          simp [hc, hs] at h
      | ok first =>
          rw [subproblems_solve hc hs, List.getElem?_map] at h
          obtain ⟨s, hposed, hq⟩ := Option.map_eq_some_iff.mp h
          exact ⟨checked, first, s, rfl, hs, hposed, hq.symm⟩

theorem exists_head_of_mem_subproblems {q : QuadraticProgram α × List α}
    (h : q ∈ subproblems (solve opt backend callback p).journal) :
    ∃ checked s, p.Passes opt checked ∧ s ∈ runHeads opt backend callback p ∧
      q = ((taskOf opt backend callback p checked).subproblem s, s.step) := by
  obtain ⟨k, hk⟩ := List.mem_iff_getElem?.mp h
  obtain ⟨checked, first, s, hc, hs, hposed, hq⟩ := exists_posed_of_getElem?_subproblems hk
  refine ⟨checked, s, Problem.passes_of_check hc, ?_, hq⟩
  rw [runHeads_of_start hc hs]
  exact (Task.posed_prefix_heads _ _).subset (List.mem_of_getElem? hposed)

/-- The subproblem of an iteration, counted from zero, is found under its number. -/
theorem getElem?_subproblems {checked : Checked α} {first s : Iterate α}
    (hc : p.check opt = .ok checked)
    (hs : ((taskOf opt backend callback p checked).start checked.multipliers).outcome = .ok first)
    (h : s ∈ (taskOf opt backend callback p checked).posed opt.maxIter first) :
    (subproblems (solve opt backend callback p).journal)[s.iter]? =
      some ((taskOf opt backend callback p checked).subproblem s, s.step) := by
  obtain ⟨k, hk⟩ := List.mem_iff_getElem?.mp h
  have hiter := Task.iter_of_getElem?_posed hk
  rw [(Task.started_of_start hs).iter, Nat.zero_add] at hiter
  rw [subproblems_solve hc hs, List.getElem?_map, hiter, hk]
  rfl

/-- A run whose first head has no verdict poses the subproblem there first. -/
theorem getElem?_subproblems_of_start {checked : Checked α} {first : Iterate α}
    (hc : p.check opt = .ok checked)
    (hs : ((taskOf opt backend callback p checked).start checked.multipliers).outcome = .ok first)
    (hv : (taskOf opt backend callback p checked).verdict first = none) (hiter : 0 < opt.maxIter) :
    (subproblems (solve opt backend callback p).journal)[0]? =
      some ((taskOf opt backend callback p checked).subproblem first, first.step) := by
  obtain ⟨left, hleft⟩ := Nat.exists_eq_succ_of_ne_zero hiter.ne'
  rw [subproblems_solve hc hs, hleft, Task.posed, hv]
  rfl

theorem mem_subproblems_of_start {checked : Checked α} {first : Iterate α}
    (hc : p.check opt = .ok checked)
    (hs : ((taskOf opt backend callback p checked).start checked.multipliers).outcome = .ok first)
    (hv : (taskOf opt backend callback p checked).verdict first = none) (hiter : 0 < opt.maxIter) :
    ((taskOf opt backend callback p checked).subproblem first, first.step) ∈
      subproblems (solve opt backend callback p).journal :=
  List.mem_of_getElem? (getElem?_subproblems_of_start hc hs hv hiter)

/-- Every answer that the solver of the subproblems gives in a run is related to its quadratic
program. -/
def EachAnswer (opt : Options α) (backend : Backend α) (callback : Option (Snapshot α → Bool))
    (p : Problem α) (A : QuadraticProgram α → QuadraticSolution α → Prop) : Prop :=
  ∀ k q, (subproblems (solve opt backend callback p).journal)[k]? = some q →
    ∀ sol, (backend (k + 1) q.1 q.2).outcome = .ok sol → A q.1 sol

/-- A run that comes to a head with a verdict returns what that head holds. -/
theorem solve_of_mem_runHeads {checked : Checked α} {s : Iterate α} {status : Status}
    (hc : p.check opt = .ok checked) (hmem : s ∈ runHeads opt backend callback p)
    (hv : (taskOf opt backend callback p checked).verdict s = some status) :
    (solve opt backend callback p).outcome =
      .ok ⟨s.x, s.f, s.g, s.multipliers, status, s.iter, s.searchFailures⟩ := by
  cases hs : ((taskOf opt backend callback p checked).start checked.multipliers).outcome with
  | error e => simp [runHeads, hc, hs] at hmem
  | ok first =>
      rw [runHeads_of_start hc hs] at hmem
      rw [solve_of_check hc]
      refine outcome_bind_eq_ok.mpr ⟨first, hs, ?_⟩
      refine outcome_bind_eq_ok.mpr ⟨(status, s), ?_, outcome_bind_eq_ok.mpr ⟨(), rfl, rfl⟩⟩
      exact Task.iterate_of_mem_heads hmem hv

/-- The first head of a run. -/
theorem mem_runHeads_of_start {checked : Checked α} {first : Iterate α}
    (hc : p.check opt = .ok checked)
    (hs : ((taskOf opt backend callback p checked).start checked.multipliers).outcome =
      .ok first) : first ∈ runHeads opt backend callback p :=
  List.mem_of_getElem? (getElem?_runHeads_zero hc hs)

/-- A run whose first head has a verdict ends there. -/
theorem solve_of_verdict {checked : Checked α} {first : Iterate α} {status : Status}
    (hc : p.check opt = .ok checked)
    (hs : ((taskOf opt backend callback p checked).start checked.multipliers).outcome = .ok first)
    (hv : (taskOf opt backend callback p checked).verdict first = some status) :
    (solve opt backend callback p).outcome =
      .ok ⟨first.x, first.f, first.g, first.multipliers, status, first.iter,
        first.searchFailures⟩ :=
  solve_of_mem_runHeads hc (mem_runHeads_of_start hc hs) hv

/-- A run that ends well checked its problem, started, and came to the end of its loop. -/
theorem exists_iterate_of_solve {sol : Solution α}
    (h : (solve opt backend callback p).outcome = .ok sol) :
    ∃ checked first s, p.check opt = .ok checked ∧
      ((taskOf opt backend callback p checked).start checked.multipliers).outcome = .ok first ∧
      ((taskOf opt backend callback p checked).iterate opt.maxIter first).outcome =
        .ok (sol.status, s) ∧
      sol = ⟨s.x, s.f, s.g, s.multipliers, sol.status, s.iter, s.searchFailures⟩ := by
  cases hc : p.check opt with
  | error e =>
      rw [solve_of_check_error hc] at h
      cases h
  | ok checked =>
      rw [solve_of_check hc] at h
      rcases outcome_bind_eq_ok.mp h with ⟨first, hs, h⟩
      rcases outcome_bind_eq_ok.mp h with ⟨⟨status, s⟩, hit, h⟩
      rcases outcome_bind_eq_ok.mp h with ⟨_, _, h⟩
      obtain rfl := Except.ok.inj h
      exact ⟨checked, first, s, rfl, hs, hit, rfl⟩

/-- A solution belongs to a checked problem and is read off a head. -/
theorem exists_head_of_solve {sol : Solution α}
    (h : (solve opt backend callback p).outcome = .ok sol) :
    ∃ checked, p.check opt = .ok checked ∧ ∃ s ∈ runHeads opt backend callback p,
      sol = ⟨s.x, s.f, s.g, s.multipliers, sol.status, s.iter, s.searchFailures⟩ ∧
      ((taskOf opt backend callback p checked).verdict s = some sol.status ∨
        sol.status = .maxIterationsExceeded) := by
  obtain ⟨checked, first, s, hc, hs, hit, hsol⟩ := exists_iterate_of_solve h
  obtain ⟨hmem, hverdict⟩ := Task.iterate_eq_ok hit
  refine ⟨checked, hc, s, ?_, hsol, hverdict⟩
  rwa [runHeads_of_start hc hs]

/-- A solution is read off the last head. -/
theorem solve_eq_ok {sol : Solution α} (h : (solve opt backend callback p).outcome = .ok sol) :
    ∃ checked s, p.Passes opt checked ∧ s ∈ runHeads opt backend callback p ∧
      sol = ⟨s.x, s.f, s.g, s.multipliers, sol.status, s.iter, s.searchFailures⟩ ∧
      ((taskOf opt backend callback p checked).verdict s = some sol.status ∨
        sol.status = .maxIterationsExceeded) := by
  obtain ⟨checked, hcheck, s, hmem, hsol, hverdict⟩ := exists_head_of_solve h
  exact ⟨checked, s, Problem.passes_of_check hcheck, hmem, hsol, hverdict⟩

end Whole

end SeqQuad.Nonlinear
