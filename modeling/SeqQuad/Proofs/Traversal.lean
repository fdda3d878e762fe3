import Mathlib
import SeqQuad.Journal

/-!
# Traversals

A function that may fail is run on the entries of a list, one after another. The traversal
succeeds just when the function does on every entry, and it ends at the first entry where it does
not, with that failure.
-/

namespace SeqQuad

/-! ## Traversals without failures -/

section Lawful

variable {ι β : Type} {m : Type → Type} [Monad m] [LawfulMonad m]

theorem mapM_congr {f g : ι → m β} {l : List ι} (h : ∀ a ∈ l, f a = g a) :
    l.mapM f = l.mapM g := by
  induction l with
  | nil => rfl
  | cons a l ih =>
      rcases List.forall_mem_cons.mp h with ⟨ha, hl⟩
      rw [List.mapM_cons, List.mapM_cons, ha, ih hl]

theorem mapM_eq_pure {f : ι → m β} {g : ι → β} {l : List ι} (h : ∀ a ∈ l, f a = pure (g a)) :
    l.mapM f = pure (l.map g) := by
  rw [mapM_congr h, List.mapM_pure]

end Lawful

/-! ## Results and failures -/

section Results

variable {ι β : Type}

theorem eq_map_of_mapM_eq_some {f : ι → Option β} {g : ι → β} {l : List ι} {r : List β}
    (h : l.mapM f = some r) (hg : ∀ a ∈ l, ∀ b, f a = some b → b = g a) : r = l.map g := by
  induction l generalizing r with
  | nil => simpa using h.symm
  | cons a l ih =>
      rw [List.mapM_cons] at h
      rcases Option.bind_eq_some_iff.mp h with ⟨b, hb, h⟩
      rcases Option.bind_eq_some_iff.mp h with ⟨bs, hbs, h⟩
      rcases List.forall_mem_cons.mp hg with ⟨ha, hl⟩
      rw [← Option.some.inj h, ha b hb, ih hbs hl]
      rfl

/-- All entries have a result just when each has one. -/
theorem exists_mapM_eq_some {f : ι → Option β} {l : List ι} :
    (∃ r, l.mapM f = some r) ↔ ∀ a ∈ l, ∃ b, f a = some b := by
  induction l with
  | nil => simp
  | cons a l ih =>
      rw [List.forall_mem_cons, ← ih]
      constructor
      · rintro ⟨r, h⟩
        rw [List.mapM_cons] at h
        rcases Option.bind_eq_some_iff.mp h with ⟨b, hb, h⟩
        rcases Option.bind_eq_some_iff.mp h with ⟨bs, hbs, -⟩
        exact ⟨⟨b, hb⟩, bs, hbs⟩
      · rintro ⟨⟨b, hb⟩, bs, hbs⟩
        exact ⟨b :: bs, by rw [List.mapM_cons, hb, hbs]; rfl⟩

/-- A traversal ends at the first entry where the function fails, with that failure. -/
theorem mapM_of_error {ε : Type} {f : ι → Except ε β} {before after : List ι} {last : ι} {e : ε}
    (hbefore : ∀ a ∈ before, ∃ b, f a = .ok b) (hlast : f last = .error e) :
    (before ++ last :: after).mapM f = .error e := by
  induction before with
  | nil =>
      rw [List.nil_append, List.mapM_cons, hlast]
      rfl
  | cons a before ih =>
      obtain ⟨⟨b, ha⟩, hrest⟩ := List.forall_mem_cons.mp hbefore
      rw [List.cons_append, List.mapM_cons, ha, ih hrest]
      rfl

end Results

/-! ## Traversals with a journal -/

namespace Journaled

variable {ι ε β γ δ : Type}

/-- The function `f` with every call noted. -/
def noted (f : ι → Except ε β) (a : ι) : Journaled ι ε β :=
  ⟨[a], f a⟩

/-- A computation calls `f` at the given points in order up to the first one where `f` fails, and
it fails just when `f` does, with the same failure. -/
inductive EvaluatesInOrder (f : ι → Except ε β) (points : List ι) (c : Journaled ι ε γ) : Prop
  | stopped (before : List ι) (last : ι) (after : List ι) (e : ε)
      (split : points = before ++ last :: after)
      (succeeds : ∀ a ∈ before, ∃ b, f a = .ok b) (fails : f last = .error e)
      (journal : c.journal = before ++ [last]) (outcome : c.outcome = .error e)
  | finished (result : γ) (succeeds : ∀ a ∈ points, ∃ b, f a = .ok b)
      (journal : c.journal = points) (outcome : c.outcome = .ok result)

theorem journal_map (k : γ → δ) (c : Journaled ι ε γ) : (k <$> c).journal = c.journal := by
  rw [map_eq_pure_bind]
  cases h : c.outcome with
  | ok b => simp [bind_of_ok _ h]
  | error e => simp [bind_of_error _ h]

theorem outcome_map (k : γ → δ) (c : Journaled ι ε γ) :
    (k <$> c).outcome = k <$> c.outcome := by
  rw [map_eq_pure_bind]
  cases h : c.outcome with
  | ok b =>
      rw [bind_of_ok _ h]
      rfl
  | error e =>
      rw [bind_of_error _ h]
      rfl

variable {f : ι → Except ε β}

theorem EvaluatesInOrder.map {points : List ι} {c : Journaled ι ε γ}
    (h : EvaluatesInOrder f points c) (k : γ → δ) : EvaluatesInOrder f points (k <$> c) := by
  cases h with
  | stopped before last after e split succeeds fails journal outcome =>
      refine .stopped before last after e split succeeds fails ?_ ?_
      · rw [journal_map, journal]
      · rw [outcome_map, outcome]
        rfl
  | finished result succeeds journal outcome =>
      refine .finished (k result) succeeds ?_ ?_
      · rw [journal_map, journal]
      · rw [outcome_map, outcome]
        rfl

theorem mapM_noted_of_error {a : ι} {e : ε} (h : f a = .error e) (points : List ι) :
    (a :: points).mapM (noted f) = ⟨[a], .error e⟩ := by
  rw [List.mapM_cons, bind_of_error _ (show (noted f a).outcome = .error e from h)]
  rfl

theorem mapM_noted_of_ok {a : ι} {b : β} (h : f a = .ok b) (points : List ι) :
    (a :: points).mapM (noted f) =
      ⟨a :: (points.mapM (noted f)).journal, (b :: ·) <$> (points.mapM (noted f)).outcome⟩ := by
  rw [List.mapM_cons, bind_of_ok _ (show (noted f a).outcome = .ok b from h),
    ← map_eq_pure_bind, journal_map, outcome_map]
  rfl

/-- A traversal evaluates its points in order. -/
theorem evaluatesInOrder_mapM (f : ι → Except ε β) (points : List ι) :
    EvaluatesInOrder f points (points.mapM (noted f)) := by
  induction points with
  | nil => exact .finished [] (List.forall_mem_nil _) rfl rfl
  | cons a points ih =>
      cases ha : f a with
      | error e =>
          have hrun := mapM_noted_of_error ha points
          exact .stopped [] a points e rfl (List.forall_mem_nil _) ha (by rw [hrun]; rfl)
            (by rw [hrun])
      | ok b =>
          have hrun := mapM_noted_of_ok ha points
          cases ih with
          | stopped before last after e split succeeds fails journal outcome =>
              refine .stopped (a :: before) last after e (by rw [split]; rfl)
                (List.forall_mem_cons.mpr ⟨⟨b, ha⟩, succeeds⟩) fails ?_ ?_
              · rw [hrun, journal]
                rfl
              · rw [hrun, outcome]
                rfl
          | finished result succeeds journal outcome =>
              refine .finished (b :: result) (List.forall_mem_cons.mpr ⟨⟨b, ha⟩, succeeds⟩) ?_ ?_
              · rw [hrun, journal]
              · rw [hrun, outcome]
                rfl

/-- Noting the calls does not change the outcome. -/
theorem outcome_mapM_noted (f : ι → Except ε β) (points : List ι) :
    (points.mapM (noted f)).outcome = points.mapM f := by
  induction points with
  | nil => rfl
  | cons a points ih =>
      cases ha : f a with
      | error e =>
          rw [mapM_noted_of_error ha, List.mapM_cons, ha]
          rfl
      | ok b =>
          rw [mapM_noted_of_ok ha, ih, List.mapM_cons, ha, map_eq_pure_bind]
          rfl

end Journaled

end SeqQuad
