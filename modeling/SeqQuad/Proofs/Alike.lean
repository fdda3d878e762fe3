import SeqQuad.Proofs.LineSearch

/-!
# Computations with outcomes of the same kind

Two computations may end alike without being the same: a function leads from the result of one to
that of the other, or both are refused, with errors of one kind, or both meet one fault. What is
composed of such computations ends alike, and line searches whose trials are alike agree.
-/

namespace SeqQuad

/-! ## Outcomes of the same kind -/

/-- Results that `F` leads from the first to the second, errors of one kind, or one fault. -/
inductive Alike {ε κ β β' : Type} (kind : ε → κ) (F : β → β') :
    Except (Failure ε) β → Except (Failure ε) β' → Prop
  | ok (b : β) : Alike kind F (.ok b) (.ok (F b))
  | error {e e' : ε} (h : kind e' = kind e) : Alike kind F (.error (.error e)) (.error (.error e'))
  | fault (f : Fault) : Alike kind F (.error (.fault f)) (.error (.fault f))

section Alike

variable {ω ω' ε κ β β' γ γ' : Type} {kind : ε → κ} {F : β → β'} {G : γ → γ'}

/-- Errors and faults are kept. -/
theorem alike_map (kind : ε → κ) (F : β → β') (r : Except (Failure ε) β) :
    Alike kind F r (r.map F) := by
  cases r with
  | ok b => exact .ok b
  | error e =>
      cases e with
      | error e => exact .error rfl
      | fault f => exact .fault f

theorem alike_self (kind : ε → κ) (r : Except (Failure ε) β) : Alike kind id r r := by
  have hmap : r.map id = r := by cases r <;> rfl
  have h := alike_map kind id r
  rwa [hmap] at h

theorem alike_note (kind : ε → κ) (entries : List ω) (entries' : List ω') :
    Alike kind id (Journaled.note entries : Journaled ω (Failure ε) Unit).outcome
      (Journaled.note entries' : Journaled ω' (Failure ε) Unit).outcome :=
  .ok ()

theorem Alike.of_ok {r : Except (Failure ε) β} {r' : Except (Failure ε) β'} {b : β}
    (h : Alike kind F r r') (hr : r = .ok b) : r' = .ok (F b) := by
  cases h with
  | ok b' =>
      obtain rfl := Except.ok.inj hr
      rfl
  | error | fault => cases hr

theorem Alike.of_error {r : Except (Failure ε) β} {r' : Except (Failure ε) β'} {e : Failure ε}
    (h : Alike kind F r r') (hr : r = .error e) : ∃ e', r' = .error e' := by
  cases h with
  | ok => cases hr
  | error | fault => exact ⟨_, rfl⟩

open Journaled in
/-- What follows alike results ends alike. -/
theorem Alike.bind {c : Journaled ω (Failure ε) β} {c' : Journaled ω' (Failure ε) β'}
    {f : β → Journaled ω (Failure ε) γ} {f' : β' → Journaled ω' (Failure ε) γ'}
    (hc : Alike kind F c.outcome c'.outcome)
    (hf : ∀ b, c.outcome = .ok b → Alike kind G (f b).outcome (f' (F b)).outcome) :
    Alike kind G (c >>= f).outcome (c' >>= f').outcome := by
  generalize h : c.outcome = r at hc
  generalize h' : c'.outcome = r' at hc
  cases hc with
  | ok b =>
      rw [bind_of_ok f h, bind_of_ok f' h']
      exact hf b h
  | error hkind =>
      rw [bind_of_error f h, bind_of_error f' h']
      exact .error hkind
  | fault fault =>
      rw [bind_of_error f h, bind_of_error f' h']
      exact .fault fault

/-- The same answer but for `F`, with errors put into others. -/
theorem alike_mapEntries {υ υ' δ : Type} {put : υ → ω} {put' : υ' → ω'} {into : δ → ε}
    {c : Journaled υ (Failure δ) β} {c' : Journaled υ' (Failure δ) β'}
    (h : c'.outcome = c.outcome.map F) :
    Alike kind F (c.mapEntries put (Failure.map into)).outcome
      (c'.mapEntries put' (Failure.map into)).outcome := by
  have hmap : (c.outcome.map F).mapError (Failure.map into) =
      (c.outcome.mapError (Failure.map into)).map F := by
    cases c.outcome <;> rfl
  unfold Journaled.mapEntries
  dsimp only
  rw [h, hmap]
  exact alike_map kind F _

open Journaled in
/-- The same condition refuses both. -/
theorem alike_guard {c c' : Prop} {_ : Decidable c} {_ : Decidable c'} {e e' : ε} (hc : c' ↔ c)
    (hkind : kind e' = kind e) (b : β) :
    Alike kind F
      (if c then fail (.error e) else Pure.pure b : Journaled ω (Failure ε) β).outcome
      (if c' then fail (.error e') else Pure.pure (F b) : Journaled ω' (Failure ε) β').outcome := by
  by_cases h : c
  · rw [if_pos h, if_pos (hc.mpr h)]
    exact .error hkind
  · rw [if_neg h, if_neg (mt hc.mp h)]
    exact .ok b

end Alike

/-! ## Line searches -/

namespace LineSearch

variable {ω α : Type}

/-- Searches that a caller cannot tell apart. -/
structure Agrees (s s' : LineSearch ω α) : Prop where
  t : s'.t = s.t
  point : s'.point = s.point
  ending : s'.ending = s.ending
  trials : s'.trials.length = s.trials.length

variable [Scalar α] {opt : Options α} {T : α → Prop} {x dx : List α} {slope reference : α}
  {merit merit' : ℕ → List α → Journaled ω (Failure EvaluationError) α}

/-- A search looks at the value of a trial, not at the cause where there is none. -/
theorem agrees_backtrack (hT : ∀ t, T t → T (t * opt.beta))
    (hmerit : ∀ k t, T t → Alike (fun _ => ()) id (merit k (Vec.along x dx t)).outcome
      (merit' k (Vec.along x dx t)).outcome)
    (fuel made : ℕ) {t : α} (ht : T t) {tried tried' : List (Trial ω α)}
    (htried : tried'.length = tried.length) :
    Agrees (backtrack opt x dx slope reference merit fuel made t tried)
      (backtrack opt x dx slope reference merit' fuel made t tried') := by
  induction fuel generalizing made t tried tried' with
  | zero => exact ⟨rfl, rfl, rfl, by simp [backtrack, htried]⟩
  | succ fuel ih =>
      have hlen : ∀ trial trial' : Trial ω α,
          (trial' :: tried').reverse.length = (trial :: tried).reverse.length := by
        simp [htried]
      have hnext : ∀ trial trial' : Trial ω α,
          Agrees (backtrack opt x dx slope reference merit fuel (made + 1) (t * opt.beta)
            (trial :: tried)) (backtrack opt x dx slope reference merit' fuel (made + 1)
              (t * opt.beta) (trial' :: tried')) :=
        fun trial trial' => ih (made + 1) (hT t ht) (by simp [htried])
      have hhere := hmerit (made + 1) t ht
      rw [backtrack, backtrack]
      generalize (merit (made + 1) (Vec.along x dx t)).outcome = r at hhere ⊢
      generalize (merit' (made + 1) (Vec.along x dx t)).outcome = r' at hhere ⊢
      cases hhere with
      | ok m =>
          dsimp only [id]
          split
          · exact ⟨rfl, rfl, rfl, hlen _ _⟩
          · split
            · exact ⟨rfl, rfl, rfl, hlen _ _⟩
            · exact hnext _ _
      | error =>
          dsimp only
          split
          · exact ⟨rfl, rfl, rfl, hlen _ _⟩
          · exact hnext _ _
      | fault fault => exact ⟨rfl, rfl, rfl, hlen _ _⟩

theorem agrees_run (h1 : T 1) (hT : ∀ t, T t → T (t * opt.beta))
    (hmerit : ∀ k t, T t → Alike (fun _ => ()) id (merit k (Vec.along x dx t)).outcome
      (merit' k (Vec.along x dx t)).outcome) (history : MeritWindow α) :
    Agrees (run opt x dx slope history merit) (run opt x dx slope history merit') := by
  unfold run
  split
  · exact ⟨rfl, rfl, rfl, rfl⟩
  · exact agrees_backtrack hT hmerit _ _ h1 rfl

end LineSearch

end SeqQuad
