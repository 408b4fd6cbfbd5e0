import Superstep.Json.Reader
import Superstep.Sparse

/-!
# Weights and sparse vectors as JSON

A sparse vector is an object from vertices to numbers. Reading accepts every number as a weight,
whole or not; a vector is read either from text directly or from a value that was read before.
-/

namespace Superstep

/-- Weights that JSON numbers stand for. -/
class JsonWeight (W : Type) where
  toJson : W → Json
  ofNumber : Json.Number → W

/-- A whole number is read as the nearest binary64 number. -/
instance : JsonWeight Binary64 where
  toJson := Json.ofBinary64
  ofNumber
    | .natural n => Binary64.ofNat n
    | .negative n => Binary64.ofInt (-(n : Int))
    | .real x => x

namespace Sparse

variable {W : Type} [JsonWeight W]

/-- A vector as an object, keys ordered as strings. -/
def toJson (v : Sparse W) : Json := Json.ofVertexMap JsonWeight.toJson v

/-- A vector read from a text in which containers may be nested `depth` deep. -/
def readJson (depth : Nat) : Json.Reader (Sparse W) :=
  Json.readVertexMap depth fun s => do
    let (n, s) ← Json.readNumeric s
    .ok (JsonWeight.ofNumber n, s)

/-- The vector that a whole text spells. -/
def ofText (s : Json.Bytes) : Except Json.Fault (Sparse W) :=
  Json.readAll (readJson Json.maxDepth) s

/-- The vector that a value describes. -/
def ofJson (value : Json) : Except Json.Fault (Sparse W) :=
  Json.toVertexMap (fun item => (Json.toNumber item).map JsonWeight.ofNumber) value

end Sparse

end Superstep
