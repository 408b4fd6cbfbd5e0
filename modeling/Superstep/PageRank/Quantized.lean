import Superstep.Sparse

/-!
# Quantized vectors

An index keeps page-rank vectors as counts of sixteen bits. `quantize` scales a weight by
`quantum` and rounds it towards zero; entries of which nothing remains are dropped. `dequantize`
divides every count by their total, so what it gives back is normalized rather than scaled down.

The total is taken over natural numbers. Fewer than `2 ^ 32` counts of sixteen bits stay far below
`2 ^ 53`, where binary64 numbers have every whole number, so a sum of weights would be the same.
-/

namespace Superstep.PageRank

/-- The count that the weight one has. -/
def quantum : Nat := 65535

variable {W : Type} [Weight W]

/-- A vector in counts, without the entries whose count is zero. -/
def quantize (ppr : Sparse W) : VertexMap UInt16 :=
  VertexMap.filterMap
    (fun entry =>
      let count := Weight.toUInt16 (entry.2 * (quantum : W))
      if count = 0 then none else some count)
    ppr

/-- The sum of all counts. -/
def totalCount (counts : VertexMap UInt16) : Nat :=
  (counts.values.map UInt16.toNat).foldr (· + ·) 0

/-- The vector of the shares that the counts have in their total; no counts give no vector. -/
def dequantize (counts : VertexMap UInt16) : Sparse W :=
  let total := totalCount counts
  if total = 0 then VertexMap.empty
  else counts.filterMap fun entry =>
    some (Sparse.accumulate none ((entry.2.toNat : W) / (total : W)))

end Superstep.PageRank
