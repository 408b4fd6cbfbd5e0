import Superstep.Proofs.Engine.Refinement

/-!
# Which worker has which vertex

The workers' ranges are computed once, when an engine is made, and what belongs to the vertices is
cut anew in every phase. A worker takes the piece that comes up together with it, and knows the
vertex of an element by its own first vertex and the place of the element in the piece. So two
things have to agree that are computed apart: how many pieces there are and where they are cut.
They do, for ranges and pieces are both cut at the multiples of one length, and an operation
changes neither the ranges nor the number of slots, whatever it answers. So what the workers make of
their shares in a phase is what they make of what stands in their ranges, whatever they do there and
whether it breaks off or not.

## Main definitions

* `Dealt`: items with one place per vertex, of which every worker has those in its range
* `Enters`: what the phases of a round and a transformation are run on
* `HandsOut`: every vertex is in one worker's hands, with its value, its slot and its number
* `WorksThrough`: what the workers do is what each does with what stands in its range

## Main results

* `WellShaped.share_eq`: the shares of a well-shaped engine
* `Reachable.handsOut`: in every phase the vertices are handed out, and worked through as they are
* `tiled_and_handed_out`: ranges, pieces and phases together
-/

namespace Superstep

/-- Every vertex of a network stands at its own place, and so does its value. -/
theorem Network.vertex_of_getElem? {D : Type} {n : Network D} (hle : n.topology.size ≤ UInt32.size)
    {position : Nat} {v : Vertex D} (h : n.vertices[position]? = some v) :
    v.id.toNat = position ∧ n.data[position]? = some v.value := by
  have hnetwork := network_eq_of_mem (List.mem_of_getElem? h)
  have hid := congrArg (Option.map Vertex.id) h
  have hlt : position < n.topology.size := by
    simpa using (List.getElem?_eq_some_iff.1 h).1
  rw [← List.getElem?_map, map_id_vertices, List.getElem?_map, List.getElem?_range hlt,
    Option.map_some, Option.map_some, Option.some_inj] at hid
  have hposition : v.id.toNat = position := by
    rw [← hid, UInt32.toNat_ofNat_of_lt' (Nat.lt_of_lt_of_le hlt hle)]
  refine ⟨hposition, ?_⟩
  rw [← hposition, ← hnetwork]
  exact Array.getElem?_eq_getElem _

namespace Engine

variable {S D M G : Type} {e : Engine S D M G}

/-- Items with one place per vertex, dealt out among the workers. -/
structure Dealt {α : Type} (e : Engine S D M G) (items : List α) : Prop where
  /-- Every worker has one share. -/
  workers : (e.share items).map Prod.fst = e.workers
  /-- Nothing is dropped, and nothing is dealt twice. -/
  whole : (e.share items).flatMap Prod.snd = items
  /-- A worker has what stands in its range. -/
  within : ∀ share ∈ e.share items, share.2 = items.extract share.1.start share.1.stop
  /-- Every place is in the range of one worker. -/
  once : ∀ position < items.length, ∃! i : Nat, ∃ share, (e.share items)[i]? = some share ∧
    share.1.start ≤ position ∧ position < share.1.stop

/-- A worker finds an item by the place in its share, counted from the start of its range. -/
theorem Dealt.getElem? {α : Type} {items : List α} (dealt : Dealt e items)
    {share : Worker × List α} (h : share ∈ e.share items) {offset : Nat} {item : α}
    (hitem : share.2[offset]? = some item) : items[share.1.start + offset]? = some item := by
  rw [dealt.within share h, List.extract_eq_take_drop, List.getElem?_take] at hitem
  split at hitem
  · rwa [List.getElem?_drop] at hitem
  · cases hitem

/-- **A worker's share is what stands in its range.** -/
theorem WellShaped.share_eq {α : Type} (w : WellShaped e) {items : List α}
    (h : items.length = e.slots.size) :
    e.share items =
      e.workers.map fun worker => (worker, items.extract worker.start worker.stop) := by
  rw [share, Tiling.chunks_eq_extract h, ← w.ranges, List.map_map, List.map_prod_left_eq_zip]
  rfl

theorem WellShaped.dealt {α : Type} (w : WellShaped e) {items : List α}
    (h : items.length = e.slots.size) : Dealt e items where
  workers := w.share_fst h
  whole := List.flatMap_def ▸ w.share_snd h
  within := by
    rw [w.share_eq h]
    intro share hshare
    obtain ⟨worker, -, rfl⟩ := List.mem_map.1 hshare
    rfl
  once := by
    intro position hposition
    have hrange : ∃! i : Nat, ∃ range : Nat × Nat,
        (Tiling.ranges e.slots.size e.options.workers)[i]? = some range ∧
          range.1 ≤ position ∧ position < range.2 := Tiling.existsUnique_range (h ▸ hposition)
    rw [← w.ranges] at hrange
    simp only [w.share_eq h, List.getElem?_map] at hrange ⊢
    simpa [Option.map_eq_some_iff, Worker.range] using hrange

/-! ### The phases -/

/-- What the phases of a round are run on, and transformations. -/
inductive Enters [Payload M] [Payload G] [Inhabited G] (e : Engine S D M G) (g : Graph D)
    (hf : g.finalized = true) : Engine S D M G → Network D → Prop
  /-- Gathering and transforming start on what the operation is asked for. -/
  | outset : Enters e g hf e (g.network hf)
  | apply (picks : List Nat) : Enters e g hf (e.gathered (g.network hf) picks) (g.network hf)
  /-- Scattering sees the values behind apply. -/
  | scatter (schedule : Schedule) :
    Enters e g hf (e.applied (g.network hf) schedule)
      ((g.overwrite ((e.gathered (g.network hf) schedule.gather).applyPhase (g.network hf)
        schedule.apply).2.1).network hf)

/-- Every vertex, with its value and its slot, is in the hands of one worker, and the worker knows
it by its number. -/
structure HandsOut (e : Engine S D M G) (n : Network D) : Prop where
  vertices : Dealt e n.vertices
  occupants : Dealt e (e.occupants n)
  vertex : ∀ share ∈ e.share n.vertices, ∀ offset v, share.2[offset]? = some v →
    v.id.toNat = share.1.start + offset ∧ n.data[share.1.start + offset]? = some v.value
  occupant : ∀ share ∈ e.share (e.occupants n), ∀ offset v slot,
    share.2[offset]? = some (v, slot) →
      v.id.toNat = share.1.start + offset ∧ n.data[share.1.start + offset]? = some v.value ∧
        e.slots[share.1.start + offset]? = some slot

theorem WellShaped.handsOut (w : WellShaped e) {n : Network D}
    (hn : n.topology.size = e.slots.size) (hle : n.topology.size ≤ UInt32.size) :
    HandsOut e n := by
  have dealtVertices : Dealt e n.vertices := w.dealt ((Network.length_vertices n).trans hn)
  have dealtOccupants : Dealt e (e.occupants n) := w.dealt (length_occupants hn)
  refine ⟨dealtVertices, dealtOccupants, fun share hshare offset v hv => ?_,
    fun share hshare offset v slot hitem => ?_⟩
  · exact Network.vertex_of_getElem? hle (dealtVertices.getElem? hshare hv)
  · obtain ⟨hvertex, hslot⟩ :=
      List.getElem?_zip_eq_some.1 (dealtOccupants.getElem? hshare hitem)
    obtain ⟨hid, hvalue⟩ := Network.vertex_of_getElem? hle hvertex
    exact ⟨hid, hvalue, Array.getElem?_toList ▸ hslot⟩

/-- What the workers do in a phase is what each of them does with what stands in its range: the
vertices with their slots to gather, apply and scatter, and the vertices alone to transform. -/
structure WorksThrough [Payload G] [Inhabited G] (e : Engine S D M G) (n : Network D) : Prop where
  gather : e.gatherErrands n = e.workers.map fun worker =>
    e.program.gatherAll e.prototype (e.context n)
      (((e.occupants n).extract worker.start worker.stop).map Prod.fst)
  apply : e.appliedBy n = e.workers.map fun worker =>
    e.program.applyAll (e.context n) e.options.persist
      ((e.occupants n).extract worker.start worker.stop)
  scatter : e.scatteredBy n = e.workers.map fun worker =>
    e.program.scatterAll e.prototype (e.context n)
      ((e.occupants n).extract worker.start worker.stop)
  transform : ∀ transformation, e.transformedBy n transformation = e.workers.map fun worker =>
    transformAll transformation (e.context n) (n.vertices.extract worker.start worker.stop)

theorem WellShaped.worksThrough [Payload G] [Inhabited G] (w : WellShaped e) {n : Network D}
    (hn : n.topology.size = e.slots.size) : WorksThrough e n where
  gather := by
    rw [gatherErrands, w.share_eq (length_occupants hn), List.map_map]
    rfl
  apply := by
    rw [appliedBy, w.share_eq (length_occupants hn), List.map_map]
    rfl
  scatter := by
    rw [scatteredBy, w.share_eq (length_occupants hn), List.map_map]
    rfl
  transform transformation := by
    rw [transformedBy, w.share_eq ((Network.length_vertices n).trans hn), List.map_map]
    rfl

/-- The phases of an operation are run on what has the shape it was asked for. -/
theorem WellShaped.enters [Payload M] [Payload G] [Inhabited G] (w : WellShaped e) {g : Graph D}
    {hf : g.finalized = true} (hs : g.numVertices = e.accumulator.size) {e' : Engine S D M G}
    {n : Network D} (h : Enters e g hf e' n) :
    WellShaped e' ∧ n.topology.size = e'.slots.size ∧ n.topology.size ≤ UInt32.size := by
  have hn := w.topology_size hf hs
  have hle := g.topology_size_le hf
  cases h with
  | outset => exact ⟨w, hn, hle⟩
  | apply picks =>
    have hshape := w.sameShape_gathered hn picks
    exact ⟨w.of_sameShape hshape, hn.trans hshape.size_slots.symm, hle⟩
  | scatter schedule =>
    have hshape := w.sameShape_applied hn schedule
    exact ⟨w.of_sameShape hshape, hn.trans hshape.size_slots.symm, hle⟩

/-- **In every phase the vertices are handed out**, and worked through as they are. -/
theorem Reachable.handsOut [Payload M] [Inhabited M] [Payload G] [Inhabited G]
    (reachable : Reachable e) {g : Graph D} (hf : g.finalized = true)
    (hs : g.numVertices = e.accumulator.size) {e' : Engine S D M G} {n : Network D}
    (h : Enters e g hf e' n) : HandsOut e' n ∧ WorksThrough e' n := by
  have w := reachable.wellShaped
  obtain ⟨w', hn, hle⟩ := w.enters hs h
  exact ⟨w'.handsOut hn hle, w'.worksThrough hn⟩

/-- **The vertices are tiled over the workers.** Vertices and workers that can be counted together
are not refused, and what is added up on the way can be counted too. The ranges follow one another
without gap or overlap, the pieces of a list are what stands in the ranges, and in every phase of
an engine that can be reached every vertex is in one worker's hands, and the workers work through
what is in theirs. -/
theorem tiled_and_handed_out :
    (∀ n workers, n + max workers 1 < countLimit →
      Tiling.tile n workers = .ok (Tiling.ranges n workers) ∧
        ∀ range ∈ Tiling.ranges n workers,
          range.1 + Tiling.chunkSize n workers < countLimit) ∧
    (∀ n workers, Tiling.Tiles n workers (Tiling.ranges n workers)) ∧
    (∀ (α : Type) (n workers : Nat) (items : List α), items.length = n →
      Tiling.chunks (Tiling.chunkSize n workers) items =
        (Tiling.ranges n workers).map fun range => items.extract range.1 range.2) ∧
    ∀ (S D M G : Type) [Payload M] [Inhabited M] [Payload G] [Inhabited G]
      (e : Engine S D M G) (g : Graph D) (hf : g.finalized = true), Reachable e →
      g.numVertices = e.accumulator.size →
      ∀ e' n, Enters e g hf e' n → HandsOut e' n ∧ WorksThrough e' n :=
  ⟨fun _ _ h => ⟨Tiling.tile_of_lt h, fun _ hr => (Tiling.add_chunkSize_lt hr).trans h⟩,
    Tiling.tiles_ranges, fun _ _ _ _ => Tiling.chunks_eq_extract,
    fun _ _ _ _ _ _ _ _ _ _ hf reachable hs _ _ => reachable.handsOut hf hs⟩

/-- Five vertices for three workers, and an engine with two workers behind its gather phase. -/
theorem tiled_and_handed_out_twoWorkers :
    Tiling.tile 5 3 = .ok [(0, 2), (2, 4), (4, 5)] ∧
      Tiling.Tiles 5 3 [(0, 2), (2, 4), (4, 5)] ∧
      Tiling.chunks 2 [8, 6, 4, 2, 0] = [[8, 6], [4, 2], [0]] ∧
      HandsOut (twoWorkers.gathered ((Graph.twoCycle 5 7).network rfl) [1, 0])
        ((Graph.twoCycle 5 7).network rfl) := by
  obtain ⟨htile, htiles, hchunks, hphases⟩ := tiled_and_handed_out
  have new : Engine.create tally 0 2 ⟨3, 2, true⟩ = .ok (ofProgram tally 0 2 ⟨3, 2, true⟩) := rfl
  exact ⟨(htile 5 3 (by decide)).1, htiles 5 3, hchunks Nat 5 3 [8, 6, 4, 2, 0] rfl,
    (hphases _ _ _ _ twoWorkers (Graph.twoCycle 5 7) rfl (.signalAll (.create new)) rfl _ _
      (.apply [1, 0])).1⟩

end Engine

end Superstep
