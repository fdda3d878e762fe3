import SeqQuad.Proofs.LineSearch
import SeqQuad.Proofs.Nonlinear.Step

/-!
# Events of one iteration

An iteration poses one subproblem. Whatever else it does, it neither records an iterate nor shows
one to the callback.
-/

namespace SeqQuad

namespace Journaled

variable {ω ε β γ : Type}

/-- Every entry of the journal satisfies `P`. -/
def All (P : ω → Prop) (c : Journaled ω ε β) : Prop :=
  ∀ e ∈ c.journal, P e

theorem all_of_empty {P : ω → Prop} {c : Journaled ω ε β} (h : c.journal = []) : c.All P := by
  simp [All, h]

theorem all_note {P : ω → Prop} {entries : List ω} (h : ∀ e ∈ entries, P e) :
    (note entries : Journaled ω ε Unit).All P :=
  h

theorem All.bind {P : ω → Prop} {c : Journaled ω ε β} {f : β → Journaled ω ε γ} (hc : c.All P)
    (hf : ∀ b, (f b).All P) : (c >>= f).All P := by
  cases h : c.outcome with
  | ok b =>
      rw [bind_of_ok f h]
      exact List.forall_mem_append.mpr ⟨hc, hf b⟩
  | error e =>
      rw [bind_of_error f h]
      exact hc

theorem journal_note_bind (entries : List ω) (f : Unit → Journaled ω ε γ) :
    (note entries >>= f).journal = entries ++ (f ()).journal := by
  rw [bind_of_ok f (outcome_note entries)]
  rfl

theorem filterMap_bind_of_left {δ : Type} {f : ω → Option δ} {c : Journaled ω ε β} {b : β}
    {g : β → Journaled ω ε γ} (hc : c.outcome = .ok b) (hj : c.journal.filterMap f = []) :
    (c >>= g).journal.filterMap f = (g b).journal.filterMap f := by
  rw [bind_of_ok g hc, List.filterMap_append, hj, List.nil_append]

theorem filterMap_bind_of_right {δ : Type} {f : ω → Option δ} {c : Journaled ω ε β}
    {g : β → Journaled ω ε γ} (hg : ∀ b, (g b).journal.filterMap f = []) :
    (c >>= g).journal.filterMap f = c.journal.filterMap f := by
  cases h : c.outcome with
  | ok b => rw [bind_of_ok g h, List.filterMap_append, hg, List.append_nil]
  | error e => rw [bind_of_error g h]

end Journaled

namespace LineSearch

variable {ω α : Type}

theorem mem_journal {embed : Note α → ω} {s : LineSearch ω α} {e : ω}
    (h : e ∈ s.journal embed) :
    (∃ trial ∈ s.trials, e ∈ trial.answer.journal) ∨ ∃ n, e = embed n := by
  unfold journal at h
  rcases List.mem_append.mp h with h | h
  · rcases List.mem_flatten.mp h with ⟨l, hl, he⟩
    rcases List.mem_mapIdx.mp hl with ⟨i, hi, rfl⟩
    rcases List.mem_append.mp he with he | he
    · exact .inl ⟨_, List.getElem_mem hi, he⟩
    · right
      split at he
      · simp at he
      · simp at he
      · exact ⟨_, List.mem_singleton.mp he⟩
  · rcases List.mem_map.mp h with ⟨n, _, rfl⟩
    exact .inr ⟨n, rfl⟩

end LineSearch

namespace Nonlinear

open Journaled

variable {α : Type} [Scalar α]

/-! ## Events inside an iteration -/

/-- Neither a record, nor a call of the callback, nor a subproblem. -/
def Event.Inner : Event α → Prop
  | .evaluation _ _ | .note _ | .timesDue => True
  | .subproblem _ _ | .shown _ | .recorded _ => False

/-- The same, and an evaluation is at a point in `X`. -/
def Event.Inside (X : List α → Prop) : Event α → Prop
  | .evaluation _ x => X x
  | .note _ | .timesDue => True
  | .subproblem _ _ | .shown _ | .recorded _ => False

omit [Scalar α] in
theorem Event.Inside.inner {X : List α → Prop} {e : Event α} (h : e.Inside X) : e.Inner := by
  cases e with
  | evaluation => trivial
  | note => trivial
  | timesDue => trivial
  | subproblem => exact h
  | shown => exact h
  | recorded => exact h

namespace Task

variable {t : Task α} {X : List α → Prop} {x : List α}

omit [Scalar α] in
theorem inside_require {β : Type} (what : Evaluator) (hx : X x) (answer : Evaluated β) :
    (require what x answer).All (Event.Inside X) := by
  refine All.bind (all_note (by simp [Event.Inside, hx])) fun _ => ?_
  split
  · exact all_of_empty rfl
  · exact All.bind (all_note (by simp [Event.Inside])) fun _ => all_of_empty rfl
  · exact all_of_empty rfl

omit [Scalar α] in
theorem inside_gradientAt (m : Moment) (hx : X x) :
    (t.gradientAt m x).All (Event.Inside X) := by
  refine All.bind (inside_require _ hx _) fun ⟨f, gradF⟩ => ?_
  dsimp only
  split
  · exact all_of_empty rfl
  · exact All.bind (all_note (by simp [Event.Inside])) fun _ => all_of_empty rfl

omit [Scalar α] in
theorem inside_jacobianAt (m : Moment) (hx : X x) :
    (t.jacobianAt m x).All (Event.Inside X) := by
  unfold jacobianAt
  dsimp only
  split
  · exact all_of_empty rfl
  · refine All.bind (inside_require _ hx _) fun ⟨g, jac⟩ => ?_
    dsimp only
    split
    · exact all_of_empty rfl
    · exact All.bind (all_note (by simp [Event.Inside])) fun _ => all_of_empty rfl

theorem inside_hessianAt (hessian : LagrangianHessian α) (m : Moment) (hx : X x)
    (lam : List α) : (t.hessianAt hessian m x lam).All (Event.Inside X) := by
  refine All.bind (inside_require _ hx _) fun h => ?_
  split
  · exact all_of_empty rfl
  · exact all_of_empty rfl

theorem inside_meritAt (sigma : α) (m : Moment) (hx : X x) :
    (t.meritAt sigma m x).All (Event.Inside X) := by
  refine All.bind ?_ fun f => All.bind ?_ fun g => all_of_empty rfl
  · exact All.bind (all_note (by simp [Event.Inside, hx])) fun _ =>
      All.bind (all_of_empty rfl) fun f =>
        All.bind (all_note (by simp [Event.Inside])) fun _ => all_of_empty rfl
  · unfold constraintsAt
    split
    · exact all_of_empty rfl
    · refine All.bind (all_note (by simp [Event.Inside, hx])) fun _ =>
        All.bind (all_of_empty rfl) fun g => ?_
      split
      · exact all_of_empty rfl
      · exact All.bind (all_note (by simp [Event.Inside])) fun _ => all_of_empty rfl

theorem inside_nextHessian (s : Iterate α) (hx : X x) (glag : List α) (lam : Multipliers α) :
    (t.nextHessian s x glag lam).All (Event.Inside X) := by
  unfold nextHessian
  split
  · exact inside_hessianAt _ _ hx _
  · refine All.bind ?_ fun b => all_of_empty rfl
    refine All.bind (all_note ?_) fun _ => All.bind (all_of_empty rfl) fun _ =>
      All.bind (all_note (by simp [Event.Inside])) fun _ => all_of_empty rfl
    split <;> simp [Event.Inside]

theorem inside_start (t : Task α) (hx : X t.problem.x0) (lam : Multipliers α) :
    (t.start lam).All (Event.Inside X) := by
  refine All.bind (inside_jacobianAt _ hx) fun _ => All.bind (inside_gradientAt _ hx) fun _ =>
    All.bind ?_ fun _ => All.bind (all_note ?_) fun _ => All.bind (all_of_empty rfl) fun _ =>
      All.bind (all_of_empty rfl) fun _ => all_of_empty rfl
  · unfold startHessian
    split
    · exact inside_hessianAt _ _ hx _
    · exact all_of_empty rfl
  · split <;> simp [Event.Inside]

/-! ## The journal of an iteration -/

/-- The search of an iteration, if it comes to one, tries points in `X` only and ends in `X`. -/
def SearchesIn (t : Task α) (X : List α → Prop) (s : Iterate α) : Prop :=
  ∀ sol, (t.solveSubproblem s).outcome = .ok sol →
    (∀ trial ∈ (t.search s sol).trials, X trial.point) ∧ X (t.search s sol).point

theorem conducted_search (s : Iterate α) (sol : QuadraticSolution α) {T : α → Prop} (h1 : T 1)
    (hT : ∀ length, T length → T (length * t.options.beta)) :
    LineSearch.Conducted t.options.search T s.x sol.x (t.slope s sol)
      (LineSearch.reference (t.nextMerits s sol))
      (fun trial x => t.meritAt (nextSigma s.sigma sol) ⟨s.iter + 1, trial⟩ x)
      (t.search s sol) :=
  LineSearch.conducted_run h1 hT

theorem inside_search {s : Iterate α} {sol : QuadraticSolution α}
    (h : ∀ trial ∈ (t.search s sol).trials, X trial.point) :
    ∀ e ∈ (t.search s sol).journal fun n => .note (.search n), Event.Inside X e := by
  intro e he
  rcases LineSearch.mem_journal he with ⟨trial, htrial, he⟩ | ⟨n, rfl⟩
  · have hconducted := t.conducted_search s sol (T := fun _ => True) trivial fun _ _ => trivial
    obtain ⟨k, hanswer⟩ := (hconducted.trials trial htrial).answer
    rw [hanswer] at he
    exact inside_meritAt _ _ (h trial htrial) e he
  · trivial

theorem journal_solveSubproblem (t : Task α) (s : Iterate α) :
    ∃ rest, (t.solveSubproblem s).journal =
      .note .formulating :: .subproblem (t.subproblem s) s.step :: rest ∧
        ∀ X, ∀ e ∈ rest, Event.Inside X e := by
  unfold solveSubproblem
  rw [journal_note_bind]
  refine ⟨_, rfl, fun X => All.bind ?_ fun sol => ?_⟩
  · intro e he
    rcases List.mem_map.mp he with ⟨n, _, rfl⟩
    trivial
  · split <;> exact all_of_empty rfl

/-- An iteration poses one subproblem, and the rest happens inside, where its search goes. -/
theorem journal_step (t : Task α) (s : Iterate α) :
    ∃ rest, (t.step s).journal =
      .note .formulating :: .subproblem (t.subproblem s) s.step :: rest ∧
        ∀ X, t.SearchesIn X s → ∀ e ∈ rest, Event.Inside X e := by
  obtain ⟨rest, hrest, hinside⟩ := journal_solveSubproblem t s
  unfold step
  cases hsol : (t.solveSubproblem s).outcome with
  | error e =>
      rw [bind_of_error _ hsol, hrest]
      exact ⟨rest, rfl, fun X _ => hinside X⟩
  | ok sol =>
      rw [bind_of_ok _ hsol, hrest]
      refine ⟨_, rfl, fun X hX => List.forall_mem_append.mpr ⟨hinside X, ?_⟩⟩
      obtain ⟨htrials, hend⟩ := hX sol hsol
      refine All.bind (all_note (by simp [Event.Inside])) fun _ =>
        All.bind (all_of_empty rfl) fun _ => All.bind (all_note ?_) fun _ =>
          All.bind (all_note (inside_search htrials)) fun _ => ?_
      · split <;> simp [Event.Inside]
      cases (t.search s sol).fault? with
      | some fault => exact all_of_empty rfl
      | none =>
          exact All.bind (inside_jacobianAt _ hend) fun _ =>
            All.bind (inside_gradientAt _ hend) fun _ => All.bind (all_of_empty rfl) fun _ =>
              All.bind (inside_nextHessian _ hend _ _) fun _ => all_of_empty rfl

end Task

omit [Scalar α] in
theorem filterMap_inner {β : Type} {f : Event α → Option β} {l : List (Event α)}
    (hf : ∀ e, Event.Inner e → f e = none) (hl : ∀ e ∈ l, Event.Inner e) :
    l.filterMap f = [] := by
  rw [List.filterMap_eq_nil_iff]
  exact fun e he => hf e (hl e he)

omit [Scalar α] in
theorem record?_of_inner (e : Event α) (h : Event.Inner e) : e.record? = none := by
  cases e <;> simp_all [Event.Inner, Event.record?]

omit [Scalar α] in
theorem subproblem?_of_inner (e : Event α) (h : Event.Inner e) : e.subproblem? = none := by
  cases e <;> simp_all [Event.Inner, Event.subproblem?]

end Nonlinear

end SeqQuad
