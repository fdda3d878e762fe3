import SeqQuad.Scalar

/-!
# Double precision

Doubles as scalars. Fewer than `2^62` doubles lie between the least normal one and one, and each
multiplication by a factor below one goes down to another of them, which bounds the number of
multiplications.
-/

namespace SeqQuad

instance : Scalar Float where
  zero := 0.0
  one := 1.0
  natCast := Float.ofNat
  magnitude := Float.abs
  sqrt := Float.sqrt
  infinity := 1.0 / 0.0
  backtracks := fun _ => Nat.pow 2 62
  decLt := fun a b => inferInstanceAs (Decidable (a < b))
  decLe := fun a b => inferInstanceAs (Decidable (a ≤ b))

end SeqQuad
