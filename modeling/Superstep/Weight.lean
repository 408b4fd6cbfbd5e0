import Superstep.Binary64.Basic

/-!
# Weights

The engine never looks into the numbers that it carries, and the page-rank programs need little of
them: the four operations, an order, and a way down to sixteen bits. `Weight` is that little, so
the same definitions run on `Binary64` and can be read over any exact field.

Nothing here asserts laws. Rounding breaks the usual ones, so whoever needs a law states it about
the type at hand.
-/

namespace Superstep

/-- What the sparse vectors and the page-rank programs need of a type of numbers. -/
class Weight (W : Type) extends Zero W, One W, Add W, Sub W, Mul W, Div W, NatCast W, LT W where
  decideLT : DecidableLT W
  /-- The number without its sign. -/
  abs : W → W
  /-- Where a sum over a list starts, and so what the sum of no weights is. -/
  emptySum : W
  /-- Equality as numbers. -/
  sameValue : W → W → Bool
  /-- The number rounded towards zero and clamped to sixteen bits. -/
  toUInt16 : W → UInt16

instance Weight.instDecidableLT {W : Type} [Weight W] : DecidableLT W := Weight.decideLT

/-- A sum over a list of floating-point numbers starts from the negative zero, the only zero that
changes no summand. -/
instance : Weight Binary64 where
  decideLT := inferInstance
  abs := Binary64.abs
  emptySum := Binary64.signedZero true
  sameValue := Binary64.sameValue
  toUInt16 := Binary64.toUInt16

end Superstep
