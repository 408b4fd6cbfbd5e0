import Superstep.PageRank.VertexState
import Superstep.Proofs.PageRank.Quantized
import Superstep.Proofs.Snapshot.RoundTrip

/-!
# Snapshots of page-rank graphs

A full snapshot writes every weight as the shortest decimal that stands for it, so nothing is lost
as long as there is a decimal, which is to say as long as all weights are finite. An index writes
counts of sixteen bits instead. Every weight has one, whatever it is, so an index can be written of
any graph and reads back; what it gives back are the shares of the counts.

In both, the graph itself comes back as it was.

## Main definitions

* `VertexState.AllFinite`: a value of which a full snapshot loses nothing
* `VertexState.reindexed`: what an index gives back of a value

## Main results

* `VertexState.returns_full`, `VertexState.returns_index`: values read back
* `load_save_full`, `load_save_index`: graphs read back
-/

namespace Superstep.PageRank

open Snapshot (Returns)

namespace VertexState

/-! ### Values in full -/

/-- All weights of all three vectors are finite. -/
structure AllFinite (s : VertexState Binary64) : Prop where
  ppr : s.ppr.AllFinite
  flow : s.flow.AllFinite
  residual : s.residual.AllFinite

instance (s : VertexState Binary64) : Decidable s.AllFinite :=
  decidable_of_iff (s.ppr.AllFinite ∧ s.flow.AllFinite ∧ s.residual.AllFinite)
    ⟨fun ⟨ppr, flow, residual⟩ => ⟨ppr, flow, residual⟩, fun h => ⟨h.ppr, h.flow, h.residual⟩⟩

section Full

variable {s : VertexState Binary64} (h : s.AllFinite)
include h

theorem canonical_toJson {depth : Nat} : Json.Canonical (depth + 2) s.toJson := by
  have hkeys : ["flow", "ppr", "residual"].Pairwise (· < ·) := by decide
  refine .object (List.pairwise_map.1 hkeys) ?_
  intro field hm
  simp only [List.mem_cons, List.not_mem_nil, or_false] at hm
  rcases hm with rfl | rfl | rfl
  · exact Sparse.canonical_toJson h.flow
  · exact Sparse.canonical_toJson h.ppr
  · exact Sparse.canonical_toJson h.residual

theorem ofJson_toJson : ofJson s.toJson = .ok s := by
  have hread : readFields {}
      [("flow", s.flow.toJson), ("ppr", s.ppr.toJson), ("residual", s.residual.toJson)] =
        .ok ⟨some s.ppr, some s.flow, some s.residual⟩ := by
    show (Sparse.ofJson s.flow.toJson >>= _) = _
    rw [Sparse.ofJson_toJson h.flow]
    show (Sparse.ofJson s.ppr.toJson >>= _) = _
    rw [Sparse.ofJson_toJson h.ppr]
    show (Sparse.ofJson s.residual.toJson >>= _) = _
    rw [Sparse.ofJson_toJson h.residual]
    rfl
  show (readFields {} _ >>= _) = _
  rw [hread]
  rfl

/-- **A full snapshot loses nothing** of a value whose weights are finite. -/
theorem returns_full : Returns .full s s where
  canonical := canonical_toJson h
  load_eq := ofJson_toJson h

end Full

/-! ### Values in an index -/

section Index

variable {W : Type} [Weight W] [JsonWeight W]

/-- What an index gives back of a value: the shares of its counts, no flow and no residual. -/
def reindexed (s : VertexState W) : VertexState W :=
  { ppr := dequantize (quantize s.ppr), flow := VertexMap.empty, residual := VertexMap.empty }

theorem toNat_lt_size (count : UInt16) : count.toNat < UInt64.size :=
  Nat.lt_trans count.toNat_lt (by decide)

theorem countOfJson_ofNat (count : UInt16) : countOfJson (Json.ofNat count.toNat) = .ok count := by
  show (Json.Number.natBelow UInt16.size (.natural count.toNat) >>= _) = _
  rw [Json.Number.natBelow, if_pos count.toNat_lt]
  show Except.ok (UInt16.ofNat count.toNat) = _
  rw [UInt16.ofNat_toNat]

/-- **An index keeps something of every value.** -/
theorem returns_index (s : VertexState W) : Returns .index s s.reindexed where
  canonical := Json.canonical_ofVertexMap fun entry _ => .number (toNat_lt_size entry.2)
  load_eq := by
    show (Json.toVertexMap countOfJson (Json.ofVertexMap _ (quantize s.ppr))).map ofCounts = _
    rw [Json.toVertexMap_ofVertexMap fun entry _ => countOfJson_ofNat entry.2]
    rfl

end Index

end VertexState

/-! ### Graphs -/

section Graphs

variable {g : Graph (VertexState Binary64)} (path : String) (hf : g.finalized = true)
  (hlt : g.numVertices < UInt32.size)
include hf hlt

/-- **A full snapshot loses nothing.** A finalized graph whose weights are finite reads back as it
is: the values to the last bit, the counts, the edges and the neighbours in both directions. Saved
again it has the same text, because it is the same graph. -/
theorem load_save_full (finite : ∀ s ∈ g.data, s.AllFinite) :
    ∃ text, Snapshot.save g .full = .ok text ∧
      Snapshot.load path .full (Text.encode text) = .ok (g, []) := by
  have returns : ∀ (i : Nat) (h : i < g.numVertices), Returns .full g.data[i] (id g.data[i]) :=
    fun i h => VertexState.returns_full (finite _ (Array.getElem_mem h))
  obtain ⟨text, hsave, hload⟩ := Snapshot.load_save path hf hlt returns
  have hsame : g.withData (g.data.map id) (Array.size_map ..) = g :=
    Graph.ext_finalized hf hf (Array.map_id _) rfl
  exact ⟨text, hsave, by rw [hload, hsame]⟩

/-- **An index always reads back.** Whatever the weights of a finalized graph are, its index gives
the same graph with the shares of their counts, and a key survives if and only if its weight times
`quantum`, rounded towards zero and clamped to sixteen bits, is not zero. -/
theorem load_save_index :
    (∃ text, Snapshot.save g .index = .ok text ∧
      Snapshot.load path .index (Text.encode text) =
        .ok (g.withData (g.data.map VertexState.reindexed) (Array.size_map ..), [])) ∧
    ∀ s ∈ g.data, ∀ id, (s.reindexed.ppr.get? id).isSome = true ↔
      ∃ w, s.ppr.get? id = some w ∧ Weight.toUInt16 (w * (quantum : Binary64)) ≠ 0 := by
  refine ⟨?_, fun s _ id => isSome_get?_dequantize_quantize⟩
  exact Snapshot.load_save path hf hlt fun i _ => VertexState.returns_index g.data[i]

end Graphs

/-- Two zeros of different sign, the least positive number and the largest one. -/
def extremes : Graph (VertexState Binary64) :=
  Graph.twoCycle
    { ppr := VertexMap.ofList [(2, Binary64.signedZero true), (10, Binary64.signedZero false)] }
    { flow := VertexMap.ofList [(0, ⟨1⟩)]
      residual := VertexMap.ofList [(1, ⟨0x7FEFFFFFFFFFFFFF⟩)] }

theorem load_save_full_extremes :
    ∃ text, Snapshot.save extremes .full = .ok text ∧
      Snapshot.load "cycle" .full (Text.encode text) = .ok (extremes, []) :=
  load_save_full "cycle" rfl (by decide) (by decide)

/-- A NaN, both infinities, a negative weight and two others, one of which is too small. -/
def unruly : Graph (VertexState Binary64) :=
  Graph.twoCycle
    { ppr := VertexMap.ofList [(1, Binary64.positiveNaN), (2, Binary64.infinity true),
        (3, Binary64.infinity false), (4, Binary64.ofInt (-1)), (5, ⟨0x3FE0000000000000⟩), (6, ⟨1⟩)]
      flow := VertexMap.ofList [(0, Binary64.positiveNaN)] }
    { ppr := VertexMap.ofList [(0, Binary64.positiveNaN)] }

/-- What is left are two shares, of 65535 and 32767 in 98302, and a vertex without any. -/
theorem load_save_index_unruly :
    (∃ text, Snapshot.save unruly .index = .ok text ∧
      Snapshot.load "cycle" .index (Text.encode text) =
        .ok (unruly.withData (unruly.data.map VertexState.reindexed) (Array.size_map ..), [])) ∧
    unruly.data.map VertexState.reindexed =
      #[{ ppr := VertexMap.ofList [(3, 65535 / 98302), (5, 32767 / 98302)] }, {}] :=
  ⟨(load_save_index "cycle" rfl (by decide)).1, by decide +kernel⟩

end Superstep.PageRank
