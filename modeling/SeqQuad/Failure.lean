/-!
# Failures

A computation ends without a result in one of two ways. An error belongs to the computation,
says what was wrong, and may be answered by the caller; a fault is answered by nobody and ends
everything around it.
-/

namespace SeqQuad

inductive Fault where
  /-- A vector has no entry at an index that was asked for. -/
  | index
  /-- More room was asked for than there can be. -/
  | room
  deriving DecidableEq

/-- Why a computation has no result. -/
inductive Failure (ε : Type) where
  | error (cause : ε)
  | fault (f : Fault)

namespace Failure

variable {ε ε' β : Type}

/-- Changes an error and keeps a fault. -/
def map (g : ε → ε') : Failure ε → Failure ε'
  | error cause => error (g cause)
  | fault f => fault f

/-- A result that only a fault withholds. -/
def ofOption (f : Fault) : Option β → Except (Failure ε) β
  | some b => .ok b
  | none => .error (.fault f)

/-- A fault unless the condition holds. -/
def ensure (condition : Prop) [Decidable condition] (f : Fault) : Except (Failure ε) Unit :=
  if condition then .ok () else .error (.fault f)

theorem ofOption_eq_ok_iff {f : Fault} {b? : Option β} {b : β} :
    (ofOption f b? : Except (Failure ε) β) = .ok b ↔ b? = some b := by
  cases b? <;> simp [ofOption]

theorem ensure_eq_ok_iff {condition : Prop} [Decidable condition] {f : Fault} :
    (ensure condition f : Except (Failure ε) Unit) = .ok () ↔ condition := by
  unfold ensure
  split <;> simp_all

end Failure

end SeqQuad
