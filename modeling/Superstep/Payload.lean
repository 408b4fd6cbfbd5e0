import Superstep.Fault
import Superstep.Weight

/-!
# Payloads

Several signals may reach the same vertex before it looks at them. A payload type says how two of
them become one; the engine applies it whenever a signal meets one that is still pending. Signals
from different workers arrive in no fixed order, so a program whose results should not depend on
the schedule merges with a commutative and associative operation.

Counts are payloads too, and the sum of two may reach `countLimit`. Such a pair does not fit, and a
client of an accumulator cannot add the second to the first. Vertex programs send payloads that
always fit, and the engine merges what they send without asking.
-/

namespace Superstep

/-- Types of which two values can become one. -/
class Payload (M : Type) where
  /-- What is pending already, then what arrives. -/
  merge : M → M → M
  /-- Whether the two can be merged at all. Types without a limit say nothing here. -/
  fits : M → M → Bool := fun _ _ => true

/-- Payloads that can be ranked by the size of what is pending. -/
class Ranked (M : Type) (W : outParam Type) where
  priority : M → W

instance : Payload Unit where merge _ _ := ()

instance : Ranked Unit Binary64 := ⟨fun _ => 0⟩

instance : Payload Binary64 where merge := (· + ·)

instance : Ranked Binary64 Binary64 := ⟨Binary64.abs⟩

instance : Payload UInt64 where
  merge := (· + ·)
  fits a b := a.toNat + b.toNat < countLimit

instance : Ranked UInt64 Binary64 := ⟨fun n => Binary64.ofNat n.toNat⟩

end Superstep
