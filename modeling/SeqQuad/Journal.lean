/-!
# Journaled computations

A journaled computation keeps a list of what happened, in order, beside its result or failure.
The journal of a failed computation holds everything up to the failure.
-/

namespace SeqQuad

structure Journaled (ω ε β : Type) where
  journal : List ω
  outcome : Except ε β

namespace Journaled

variable {ω ε β γ : Type}

def pure (b : β) : Journaled ω ε β :=
  ⟨[], .ok b⟩

def bind (c : Journaled ω ε β) (f : β → Journaled ω ε γ) : Journaled ω ε γ :=
  match c.outcome with
  | .ok b =>
      let next := f b
      ⟨c.journal ++ next.journal, next.outcome⟩
  | .error e => ⟨c.journal, .error e⟩

instance : Monad (Journaled ω ε) where
  pure := pure
  bind := bind

/-- Adds entries to the journal. -/
def note (entries : List ω) : Journaled ω ε Unit :=
  ⟨entries, .ok ()⟩

/-- Adds entries to the journal if the condition holds. -/
def noteIf (condition : Bool) (entries : List ω) : Journaled ω ε Unit :=
  note (if condition then entries else [])

def fail (e : ε) : Journaled ω ε β :=
  ⟨[], .error e⟩

/-- A result without a journal. -/
def ofExcept (r : Except ε β) : Journaled ω ε β :=
  ⟨[], r⟩

/-- Changes the entries of the journal and the failure. -/
def mapEntries {ω' ε' : Type} (f : ω → ω') (g : ε → ε') (c : Journaled ω ε β) :
    Journaled ω' ε' β :=
  ⟨c.journal.map f, c.outcome.mapError g⟩

/-! ## Journals and outcomes of composed computations -/

@[ext]
theorem ext {c d : Journaled ω ε β} (hj : c.journal = d.journal) (ho : c.outcome = d.outcome) :
    c = d := by
  cases c
  cases d
  simp_all

@[simp]
theorem journal_pure (b : β) : (Pure.pure b : Journaled ω ε β).journal = [] :=
  rfl

@[simp]
theorem outcome_pure (b : β) : (Pure.pure b : Journaled ω ε β).outcome = .ok b :=
  rfl

@[simp]
theorem journal_note (entries : List ω) :
    (note entries : Journaled ω ε Unit).journal = entries :=
  rfl

@[simp]
theorem outcome_note (entries : List ω) : (note entries : Journaled ω ε Unit).outcome = .ok () :=
  rfl

theorem bind_of_ok {c : Journaled ω ε β} {b : β} (f : β → Journaled ω ε γ)
    (h : c.outcome = .ok b) :
    (c >>= f) = ⟨c.journal ++ (f b).journal, (f b).outcome⟩ := by
  show bind c f = _
  simp [bind, h]

theorem bind_of_error {c : Journaled ω ε β} {e : ε} (f : β → Journaled ω ε γ)
    (h : c.outcome = .error e) :
    (c >>= f) = ⟨c.journal, .error e⟩ := by
  show bind c f = _
  simp [bind, h]

/-- A composed computation succeeds just when both parts do. -/
theorem outcome_bind_eq_ok {c : Journaled ω ε β} {f : β → Journaled ω ε γ} {d : γ} :
    (c >>= f).outcome = .ok d ↔ ∃ b, c.outcome = .ok b ∧ (f b).outcome = .ok d := by
  cases h : c.outcome with
  | ok b => simp [bind_of_ok f h]
  | error e => simp [bind_of_error f h]

instance : LawfulMonad (Journaled ω ε) :=
  LawfulMonad.mk' (Journaled ω ε)
    (by
      intro β c
      cases c with
      | mk journal outcome => cases outcome <;> simp [Functor.map, bind, pure])
    (by
      intro β γ b f
      exact ext rfl rfl)
    (by
      intro β γ δ c f g
      cases c with
      | mk journal outcome =>
          cases outcome with
          | error e => rfl
          | ok b =>
              simp only [Bind.bind, bind]
              cases (f b).outcome <;> simp [List.append_assoc])

end Journaled

end SeqQuad
