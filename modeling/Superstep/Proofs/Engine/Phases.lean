import Mathlib.Data.List.Flatten
import Superstep.Proofs.Adjacency
import Superstep.Proofs.Engine.Shape
import Superstep.Proofs.Engine.Workload
import Superstep.Proofs.Interleaving

/-!
# The phases of a well-shaped engine

Each phase is a map over the vertices of the network once the shares are put together again. The
shares tile the vertices, so it does not matter where one worker's range ends and the next one's
begins; and what the workers do to the accumulator is an interleaving, of which only two things
are used. Taking names every vertex once, in whatever order. Delivering brings every vertex the
same payloads, in an order that the merge has to be indifferent to, unless there is only one
worker.

This is so for programs that only scatter, and `Regular` adds that to the shape of the engine.

## Main results

* `Regular.peek_gatherPhase`, `Regular.slots_gatherPhase`: everything is taken, and every vertex is
  started on what was pending for it
* `peek_deliverLanes`: what a delivery leaves pending
* `Regular.applyPhase_eq`: values and slots behind apply
* `Regular.peek_scatterPhase`: what is pending behind scatter
-/

namespace Superstep

/-- Deliveries whose order is fixed, because one worker sends them all, or does not count. -/
def Confluent (M : Type) [Payload M] (workers : Nat) : Prop :=
  workers ≤ 1 ∨ OrderFree (Payload.merge : M → M → M)

/-- Arrivals whose order is fixed, because one worker sends them all, or does not count. -/
def Settles {M : Type} [Payload M] (workers : Nat) (pending : Option M) (arrivals : List M) :
    Prop :=
  workers ≤ 1 ∨ AnyOrder Payload.merge pending arrivals

theorem Confluent.settles {M : Type} [Payload M] {workers : Nat} (hm : Confluent M workers)
    (pending : Option M) (arrivals : List M) : Settles workers pending arrivals :=
  hm.imp_right (·.anyOrder pending arrivals)

theorem weave_eq_flatten {α : Type} (picks : List Nat) {lanes : List (List α)}
    (h : lanes.length ≤ 1) : weave picks lanes = lanes.flatten := by
  match lanes, h with
  | [], _ => exact List.perm_nil.1 (weave_perm picks [])
  | [lane], _ => rw [weave_singleton, List.flatten_cons, List.flatten_nil, List.append_nil]

/-- Whether the vertex of a slot takes part. -/
def Slot.isLive {S G : Type} : Slot S G → Bool
  | .live .. => true
  | _ => false

namespace Engine

variable {S D M G : Type} {e : Engine S D M G} {n : Network D}

theorem WellShaped.topology_size_of_mem_occupants (w : WellShaped e)
    (hn : n.topology.size = e.slots.size) {item : Vertex D × Slot S G} (h : item ∈ e.occupants n) :
    item.1.network.topology.size = e.accumulator.size := by
  rw [Network.network_eq_of_mem (List.of_mem_zip h).1, hn, w.size_slots]

/-- What every worker maps over its share is mapped over all items. -/
theorem WellShaped.map_share {α β : Type} (w : WellShaped e) {items : List α}
    (h : items.length = e.slots.size) (f : α → β) :
    (e.share items).flatMap (fun share => share.2.map f) = items.map f := by
  simp only [List.map_eq_flatMap]
  exact w.flatMap_share h fun item => [f item]

theorem firstFailure_none {α : Type} (l : List α) :
    firstFailure (l.map fun _ => none) = none := by
  simp [firstFailure]

/-! ### Gather -/

section Gather

variable [Payload G] [Inhabited G]

/-- The slot of a vertex behind gather, given what was pending for it. -/
def started (e : Engine S D M G) (n : Network D) (v : Vertex D) : Slot S G :=
  e.program.begin e.prototype (e.context n) v (e.accumulator.peek v.id)

theorem isLive_started (v : Vertex D) :
    (e.started n v).isLive = (e.accumulator.peek v.id).isSome := by
  cases h : e.accumulator.peek v.id <;> simp [started, h, VertexProgram.begin, Slot.isLive]

omit [Payload G] [Inhabited G] in
theorem map_fst_occupants (hn : n.topology.size = e.slots.size) :
    (e.occupants n).map Prod.fst = n.vertices :=
  List.map_fst_zip (by simp [hn])

/-- The workers' errands, each over the vertices of its share. -/
theorem gatherErrands_eq (hn : n.topology.size = e.slots.size) :
    e.gatherErrands n = (e.share n.vertices).map fun share =>
      e.program.gatherAll e.prototype (e.context n) share.2 := by
  rw [← map_fst_occupants hn, share_map, List.map_map]
  rfl

/-- Between them the workers take every vertex once at most. -/
theorem WellShaped.nodup_takenOn (w : WellShaped e) (hn : n.topology.size = e.slots.size)
    (hle : n.topology.size ≤ UInt32.size) (pending : VertexId → Option M) :
    ((e.gatherErrands n).flatMap (Errand.takenOn pending)).Nodup := by
  have hlen : n.vertices.length = e.slots.size := by simp [hn]
  have hids : (e.share n.vertices).flatMap (fun share => share.2.map Vertex.id) =
      n.vertices.map Vertex.id := w.map_share hlen Vertex.id
  have nodup : (n.vertices.map Vertex.id).Nodup := by
    rw [Network.map_id_vertices]
    exact nodup_map_ofNat_range hle
  rw [gatherErrands_eq hn, List.flatMap_map]
  refine (hids ▸ nodup).sublist (List.Sublist.flatMap_right _ fun share _ => ?_)
  exact VertexProgram.takenOn_gatherAll ..

/-- An engine whose workers share the vertices, with a program that only scatters. -/
structure Regular (e : Engine S D M G) : Prop extends WellShaped e where
  only : e.program.OnlyScatters

omit [Payload G] [Inhabited G] in
theorem Regular.of_sameShape {e' : Engine S D M G} (w : Regular e) (h : SameShape e e') :
    Regular e' where
  toWellShaped := w.toWellShaped.of_sameShape h
  only := h.program ▸ w.only

variable [Payload M]

/-- If nothing is sent meanwhile, every worker comes to what was pending for its vertices at
first. -/
theorem WellShaped.gathered_of_silent (w : WellShaped e) (silent : e.program.GathersSilently)
    (hn : n.topology.size = e.slots.size) (hle : n.topology.size ≤ UInt32.size)
    (picks : List Nat) :
    e.gatheredBy n picks = (e.gatherErrands n).map (Errand.resultOn e.accumulator.peek) ∧
      ∀ v, (e.gatherPhase n picks).1.accumulator.peek v =
        if v ∈ (e.gatherErrands n).flatMap (Errand.takenOn e.accumulator.peek) then none
        else e.accumulator.peek v := by
  refine (Errand.interleaved_run e.accumulator picks (e.gatherErrands n)).of_onlyTakes
    (fun errand herrand => ?_) (w.nodup_takenOn hn hle e.accumulator.peek) fun _ _ => rfl
  obtain ⟨share, -, rfl⟩ := List.mem_map.1 herrand
  exact VertexProgram.onlyTakes_gatherAll silent ..

/-- If no vertex breaks off either, every worker starts its vertices on what was pending for them,
and everything is taken. -/
theorem WellShaped.gathered_of_overture (w : WellShaped e) (silent : e.program.GathersSilently)
    (hn : n.topology.size = e.slots.size) (hle : n.topology.size ≤ UInt32.size)
    (h : ∀ v ∈ n.vertices, e.program.overture e.prototype (e.context n) v
      (e.accumulator.peek v.id) = ([], none)) (picks : List Nat) :
    e.gatheredBy n picks =
        (e.share (e.occupants n)).map (fun share =>
          ⟨share.2.map fun item => e.started n item.1, none⟩) ∧
      ∀ v, (e.gatherPhase n picks).1.accumulator.peek v = none := by
  have hlen : n.vertices.length = e.slots.size := by simp [hn]
  have hids : (e.gatherErrands n).flatMap (Errand.takenOn e.accumulator.peek) =
      n.vertices.map Vertex.id := by
    rw [gatherErrands_eq hn, List.flatMap_map, ← w.map_share hlen Vertex.id]
    exact List.flatMap_congr fun share hshare => VertexProgram.takenOn_gatherAll_eq fun v hv =>
      h v (w.mem_of_mem_share hlen hshare hv)
  obtain ⟨hresults, hpeek⟩ := w.gathered_of_silent silent hn hle picks
  constructor
  · rw [hresults, gatherErrands, List.map_map]
    refine List.map_congr_left fun share hshare => ?_
    rw [Function.comp_apply, VertexProgram.resultOn_gatherAll, List.map_map]
    · rfl
    · intro v hv
      obtain ⟨item, hitem, rfl⟩ := List.mem_map.1 hv
      exact h item.1 (List.of_mem_zip (w.mem_of_mem_share (length_occupants hn) hshare hitem)).1
  · intro v
    refine (hpeek v).trans ?_
    rw [hids, Network.map_id_vertices]
    split
    · rfl
    · rename_i hv
      rw [mem_map_ofNat_range, hn, w.size_slots] at hv
      exact Accumulator.peek_eq_none_of_size_le (Nat.le_of_not_lt hv)

/-- Every worker starts its vertices on what was pending for them, and everything is taken. -/
theorem Regular.gathered (w : Regular e) (hn : n.topology.size = e.slots.size)
    (hle : n.topology.size ≤ UInt32.size) (picks : List Nat) :
    e.gatheredBy n picks =
        (e.share (e.occupants n)).map (fun share =>
          ⟨share.2.map fun item => e.started n item.1, none⟩) ∧
      ∀ v, (e.gatherPhase n picks).1.accumulator.peek v = none :=
  w.gathered_of_overture w.only.gathersSilently hn hle (fun _ _ => w.only.overture_eq ..) picks

/-- Gathering leaves nothing pending. -/
theorem Regular.peek_gatherPhase (w : Regular e) (hn : n.topology.size = e.slots.size)
    (hle : n.topology.size ≤ UInt32.size) (picks : List Nat) (v : VertexId) :
    (e.gatherPhase n picks).1.accumulator.peek v = none :=
  (w.gathered hn hle picks).2 v

/-- If nothing is pending, gathering leaves the accumulator as it is. -/
theorem Regular.accumulator_gatherPhase_of_quiet (w : Regular e)
    (hn : n.topology.size = e.slots.size) (hle : n.topology.size ≤ UInt32.size)
    (quiet : ∀ v, e.accumulator.peek v = none) (picks : List Nat) :
    (e.gatherPhase n picks).1.accumulator = e.accumulator := by
  have hsize := e.size_accumulator_gatherPhase n picks
  refine Accumulator.eq_of_peek_eq hsize ?_ fun v => ?_
  · rw [hsize]
    exact w.size_accumulator_le hn hle
  · rw [w.peek_gatherPhase hn hle, quiet]

/-- Gathering does not fail. -/
theorem Regular.gatherPhase_snd (w : Regular e) (hn : n.topology.size = e.slots.size)
    (hle : n.topology.size ≤ UInt32.size) (picks : List Nat) :
    (e.gatherPhase n picks).2 = none := by
  have h : (e.gatherPhase n picks).2 =
      firstFailure ((e.gatheredBy n picks).map fun g => g.failure.map .fault) := rfl
  rw [h, (w.gathered hn hle picks).1, List.map_map]
  exact firstFailure_none _

/-- What the workers settle, share by share. -/
theorem Regular.settled (w : Regular e) (hn : n.topology.size = e.slots.size)
    (hle : n.topology.size ≤ UInt32.size) (picks : List Nat) :
    (e.share (e.occupants n)).zipWith
        (fun share g => (({ share.1.reset with
            active := g.slots.countP fun slot => slot matches .live .. } : Worker),
          g.slots ++ (share.2.map Prod.snd).drop g.slots.length))
        (e.gatheredBy n picks) =
      (e.share (e.occupants n)).map fun share =>
        ({ share.1.reset with
            active := (share.2.map fun item => e.started n item.1).countP Slot.isLive },
          share.2.map fun item => e.started n item.1) := by
  rw [(w.gathered hn hle picks).1, List.zipWith_map_right, List.zipWith_self]
  refine List.map_congr_left fun share _ => Prod.ext rfl ?_
  simp

/-- Every vertex is started on what was pending for it. -/
theorem Regular.slots_gatherPhase (w : Regular e) (hn : n.topology.size = e.slots.size)
    (hle : n.topology.size ≤ UInt32.size) (picks : List Nat) :
    (e.gatherPhase n picks).1.slots.toList = n.vertices.map (e.started n) := by
  have hlen := length_occupants hn
  have hslots : (e.gatherPhase n picks).1.slots =
      overlay e.slots ((e.occupants n).map fun item => e.started n item.1) := by
    rw [← w.map_share hlen]
    refine congrArg (overlay e.slots) ((congrArg (List.flatMap Prod.snd)
      (w.settled hn hle picks)).trans ?_)
    rw [List.flatMap_map]
  rw [hslots, toList_overlay (by rw [List.length_map, hlen]), ← map_fst_occupants hn, List.map_map]
  rfl

/-- As many vertices take part as have something pending. -/
theorem Regular.numActive_gatherPhase (w : Regular e) (hn : n.topology.size = e.slots.size)
    (hle : n.topology.size ≤ UInt32.size) (picks : List Nat) :
    (e.gatherPhase n picks).1.numActive =
      n.vertices.countP fun v => (e.accumulator.peek v.id).isSome := by
  have hlen := length_occupants hn
  have hworkers := congrArg (List.map Prod.fst) (w.settled hn hle picks)
  calc (e.gatherPhase n picks).1.numActive
      = ((e.occupants n).map fun item => e.started n item.1).countP Slot.isLive := by
        rw [← w.map_share hlen, List.countP_flatMap, numActive]
        refine congrArg (List.foldr (· + ·) 0) ((congrArg (List.map Worker.active)
          hworkers).trans ?_)
        rw [List.map_map, List.map_map]
        rfl
    _ = (n.vertices.map (e.started n)).countP Slot.isLive := by
        rw [← map_fst_occupants hn, List.map_map]
        rfl
    _ = n.vertices.countP fun v => (e.accumulator.peek v.id).isSome := by
        rw [List.countP_map]
        exact List.countP_congr fun v _ => by rw [Function.comp_apply, isLive_started]

/-- The round has nobody to take part exactly if nothing is pending. -/
theorem Regular.numActive_eq_zero_iff (w : Regular e) (hn : n.topology.size = e.slots.size)
    (hle : n.topology.size ≤ UInt32.size) (picks : List Nat) :
    (e.gatherPhase n picks).1.numActive = 0 ↔ ∀ v, e.accumulator.peek v = none := by
  rw [w.numActive_gatherPhase hn hle, List.countP_eq_zero]
  constructor
  · intro h v
    by_cases hv : v.toNat < n.topology.size
    · have := h ⟨n, v, hv⟩ (Network.mem_vertices _)
      simpa using this
    · rw [hn, w.size_slots] at hv
      exact Accumulator.peek_eq_none_of_size_le (Nat.le_of_not_lt hv)
  · intro h v _
    simp [h v.id]

end Gather

/-! ### Deliveries -/

/-- The signals of a delivery with their workers. -/
def posts {M : Type} (lanes : List (List (Signal M) × Bool)) : List (List (Accumulator.Post M)) :=
  lanes.mapIdx fun i lane => lane.1.map fun signal => ⟨i, signal⟩

theorem mem_posts {M : Type} {lanes : List (List (Signal M) × Bool)} {picks : List Nat}
    {post : Accumulator.Post M} (h : post ∈ weave picks (posts lanes)) :
    post.worker < lanes.length ∧ ∃ lane ∈ lanes, post.signal ∈ lane.1 := by
  obtain ⟨lane, hlane, hpost⟩ := List.mem_flatten.1 ((weave_perm _ _).mem_iff.1 h)
  obtain ⟨i, hi, rfl⟩ := List.mem_mapIdx.1 hlane
  obtain ⟨signal, hsignal, rfl⟩ := List.mem_map.1 hpost
  exact ⟨hi, _, List.getElem_mem hi, hsignal⟩

theorem signals_posts {M : Type} (lanes : List (List (Signal M) × Bool)) :
    (posts lanes).flatten.map Accumulator.Post.signal = lanes.flatMap Prod.fst := by
  rw [List.map_flatten, List.flatMap_def]
  refine congrArg _ (List.ext_getElem? fun i => ?_)
  simp [posts, List.getElem?_mapIdx, Function.comp_def]

/-- Interleaved posts bring a vertex what the lanes bring it, in some order. -/
theorem arrivals_weave_perm {M : Type} (lanes : List (List (Signal M) × Bool)) (picks : List Nat)
    (v : VertexId) :
    (Accumulator.arrivals v ((weave picks (posts lanes)).map Accumulator.Post.signal)).Perm
      (Accumulator.arrivals v (lanes.flatMap Prod.fst)) :=
  Accumulator.arrivals_perm v (signals_posts lanes ▸ (weave_perm picks _).map _)

/-- The arrivals of interleaved posts, up to the order in which the workers come to their turns. -/
theorem mergeAllInto_arrivals_weave [Payload M] {lanes : List (List (Signal M) × Bool)}
    {pending : Option M} {v : VertexId}
    (hm : Settles lanes.length pending (Accumulator.arrivals v (lanes.flatMap Prod.fst)))
    (picks : List Nat) :
    mergeAllInto Payload.merge pending (Accumulator.arrivals v
      ((weave picks (posts lanes)).map Accumulator.Post.signal)) =
    mergeAllInto Payload.merge pending (Accumulator.arrivals v (lanes.flatMap Prod.fst)) := by
  rcases hm with h | h
  · rw [weave_eq_flatten picks (by simpa [posts] using h), signals_posts]
  · exact h _ (arrivals_weave_perm lanes picks v)

/-- What a delivery leaves pending, in the order in which the workers come to their turns. -/
theorem peek_deliverLanes_weave [Payload M] (e : Engine S D M G) (picks : List Nat)
    {lanes : List (List (Signal M) × Bool)}
    (h : ∀ lane ∈ lanes, ∀ signal ∈ lane.1, signal.target.toNat < e.accumulator.size)
    (v : VertexId) :
    (e.deliverLanes picks lanes).accumulator.peek v =
      mergeAllInto Payload.merge (e.accumulator.peek v) (Accumulator.arrivals v
        ((weave picks (posts lanes)).map Accumulator.Post.signal)) := by
  have hacc : (e.deliverLanes picks lanes).accumulator =
      (e.accumulator.deliver (weave picks (posts lanes))).1 := rfl
  rw [hacc, Accumulator.peek_deliver]
  intro post hp
  obtain ⟨-, lane, hlane, hsignal⟩ := mem_posts hp
  exact h lane hlane _ hsignal

/-- What a delivery leaves pending. -/
theorem peek_deliverLanes [Payload M] (e : Engine S D M G) (picks : List Nat)
    {lanes : List (List (Signal M) × Bool)}
    (h : ∀ lane ∈ lanes, ∀ signal ∈ lane.1, signal.target.toNat < e.accumulator.size)
    {v : VertexId} (hm : Settles lanes.length (e.accumulator.peek v)
      (Accumulator.arrivals v (lanes.flatMap Prod.fst))) :
    (e.deliverLanes picks lanes).accumulator.peek v =
      mergeAllInto Payload.merge (e.accumulator.peek v)
        (Accumulator.arrivals v (lanes.flatMap Prod.fst)) := by
  rw [peek_deliverLanes_weave e picks h, mergeAllInto_arrivals_weave hm]

/-- A delivery of what the workers' items send, share by share, brings every vertex what all items
send. -/
theorem WellShaped.peek_deliverLanes_share [Payload M] {α : Type} (w : WellShaped e)
    {items : List α} (hlen : items.length = e.slots.size)
    (e' : Engine S D M G) {send : α → List (Signal M)}
    (inside : ∀ item ∈ items, ∀ signal ∈ send item, signal.target.toNat < e'.accumulator.size)
    (picks : List Nat) {v : VertexId} (hm : Settles e.workers.length (e'.accumulator.peek v)
      (Accumulator.arrivals v (items.flatMap send))) :
    (e'.deliverLanes picks ((e.share items).map fun share =>
      (share.2.flatMap send, true))).accumulator.peek v =
        mergeAllInto Payload.merge (e'.accumulator.peek v)
          (Accumulator.arrivals v (items.flatMap send)) := by
  have hsent : ((e.share items).map fun share => (share.2.flatMap send, true)).flatMap Prod.fst =
      items.flatMap send := by
    rw [List.flatMap_map, w.flatMap_share hlen]
  rw [← hsent] at hm ⊢
  refine peek_deliverLanes e' picks (fun lane hlane signal hsignal => ?_)
    (by simpa [w.length_share hlen] using hm)
  obtain ⟨share, hshare, rfl⟩ := List.mem_map.1 hlane
  obtain ⟨item, hitem, hsignal⟩ := List.mem_flatMap.1 hsignal
  exact inside item (w.mem_of_mem_share hlen hshare hitem) signal hsignal

/-- Lanes that are not marked are delivered and not reported. -/
theorem workers_deliverLanes_unmarked [Payload M] (e : Engine S D M G) (picks : List Nat)
    {lanes : List (List (Signal M) × Bool)} (h : ∀ lane ∈ lanes, lane.2 = false) :
    (e.deliverLanes picks lanes).workers = e.workers := by
  refine List.ext_getElem (by simp [deliverLanes]) fun i hi hi' => ?_
  simp only [deliverLanes, List.getElem_mapIdx]
  split
  · rename_i hlane
    cases h _ (List.mem_of_getElem? hlane)
  · rfl

/-- Lanes without signals and marks change nothing. -/
theorem deliverLanes_silent [Payload M] (e : Engine S D M G) (picks : List Nat)
    {lanes : List (List (Signal M) × Bool)} (h : ∀ lane ∈ lanes, lane = ([], false)) :
    e.deliverLanes picks lanes = e := by
  have hposts : weave picks (posts lanes) = [] := by
    refine List.eq_nil_iff_forall_not_mem.2 fun post hpost => ?_
    obtain ⟨-, lane, hlane, hsignal⟩ := mem_posts hpost
    rw [h lane hlane] at hsignal
    cases hsignal
  have hdeliver : e.accumulator.deliver (weave picks (posts lanes)) = (e.accumulator, []) := by
    rw [hposts]
    rfl
  have haccumulator : (e.deliverLanes picks lanes).accumulator = e.accumulator :=
    congrArg Prod.fst hdeliver
  have hworkers := workers_deliverLanes_unmarked e picks fun lane hlane =>
    congrArg Prod.snd (h lane hlane)
  calc e.deliverLanes picks lanes
      = { e with
          accumulator := (e.deliverLanes picks lanes).accumulator
          workers := (e.deliverLanes picks lanes).workers } := rfl
    _ = e := by rw [haccumulator, hworkers]

/-! ### Apply -/

/-- Values and slots behind apply, if every state that has to be saved can be. -/
theorem Regular.applyPhase_eq_of_save [Payload M] (w : Regular e)
    (hn : n.topology.size = e.slots.size)
    (h : e.options.persist = true → ∀ v state total, (v, Slot.live state total) ∈ e.occupants n →
      ∃ bytes, e.program.save (e.program.apply (e.context n) v.site total state v.value).1 =
        .ok bytes)
    (picks : List Nat) :
    e.applyPhase n picks =
      ({ e with
          slots := overlay e.slots
            ((e.occupants n).map (e.program.slotOf (e.context n) e.options.persist)) },
        (e.occupants n).map (e.program.valueOf (e.context n)), none) := by
  have hlen := length_occupants hn
  have hall : e.appliedBy n = (e.share (e.occupants n)).map fun share =>
      ⟨[], share.2.map (e.program.valueOf (e.context n)),
        share.2.map (e.program.slotOf (e.context n) e.options.persist), none⟩ := by
    refine List.map_congr_left fun share hs => VertexProgram.applyAll_eq_of_save w.only ?_
    exact fun hp v state total hm => h hp v state total (w.mem_of_mem_share hlen hs hm)
  have hfail : firstFailure ((e.share (e.occupants n)).map fun _ => none) = none :=
    firstFailure_none _
  have hsilent : e.deliverLanes picks ((e.share (e.occupants n)).map fun _ => ([], false)) = e :=
    deliverLanes_silent e picks fun lane hlane => by
      obtain ⟨-, -, rfl⟩ := List.mem_map.1 hlane
      rfl
  simp only [applyPhase, hall, List.flatMap_map, List.map_map, Function.comp_def,
    w.map_share hlen, hsilent, hfail]

/-- Values and slots behind apply, of an engine whose states can be saved. -/
theorem Regular.applyPhase_eq [Payload M] (w : Regular e) (hn : n.topology.size = e.slots.size)
    (hk : ∀ state, ∃ state', e.program.kept e.options.persist e.prototype state = .ok state')
    (picks : List Nat) :
    e.applyPhase n picks =
      ({ e with
          slots := overlay e.slots
            ((e.occupants n).map (e.program.slotOf (e.context n) e.options.persist)) },
        (e.occupants n).map (e.program.valueOf (e.context n)), none) := by
  refine w.applyPhase_eq_of_save hn (fun hp v state total _ => ?_) picks
  obtain ⟨state', hkept⟩ := hk (e.program.apply (e.context n) v.site total state v.value).1
  rw [hp] at hkept
  obtain ⟨bytes, hs, -⟩ := VertexProgram.save_of_kept hkept
  exact ⟨bytes, hs⟩

/-! ### Scatter -/

section Scatter

variable [Payload M] (w : Regular e) (hn : n.topology.size = e.slots.size)
  (inside : e.program.StaysInside)
  (hr : ∀ item ∈ e.occupants n, ∃ state, e.program.revive e.prototype item.2 = .ok state)
include w hn inside hr

/-- If every state can be loaded and signals stay inside, scattering is delivering. -/
theorem Regular.scatterPhase_eq (picks : List Nat) :
    (e.scatterPhase n picks).2 = none ∧
      (e.scatterPhase n picks).1.accumulator =
        (e.deliverLanes picks ((e.share (e.occupants n)).map fun share =>
          (share.2.flatMap (e.program.signalsIn e.prototype (e.context n)),
            true))).accumulator := by
  have hall : e.scatteredBy n = (e.share (e.occupants n)).map fun share =>
      ⟨share.2.flatMap (e.program.signalsIn e.prototype (e.context n)),
        share.2.map fun _ => .idle, none⟩ := by
    refine List.map_congr_left fun share hs =>
      VertexProgram.scatterAll_eq w.only inside fun item hi => ?_
    have hmem := w.mem_of_mem_share (length_occupants hn) hs hi
    exact ⟨w.topology_size_of_mem_occupants hn hmem, hr item hmem⟩
  simp only [scatterPhase, hall, List.map_map]
  exact ⟨firstFailure_none _, rfl⟩

/-- What is pending behind scatter. -/
theorem Regular.peek_scatterPhase (picks : List Nat) {v : VertexId}
    (hm : Settles e.workers.length (e.accumulator.peek v) (Accumulator.arrivals v
      ((e.occupants n).flatMap (e.program.signalsIn e.prototype (e.context n))))) :
    (e.scatterPhase n picks).1.accumulator.peek v =
      mergeAllInto Payload.merge (e.accumulator.peek v) (Accumulator.arrivals v
        ((e.occupants n).flatMap (e.program.signalsIn e.prototype (e.context n)))) := by
  rw [(w.scatterPhase_eq hn inside hr picks).2]
  refine w.peek_deliverLanes_share (length_occupants hn) e (fun item hi signal hs => ?_) picks hm
  have := inside.target_lt hs
  rwa [w.topology_size_of_mem_occupants hn hi] at this

end Scatter

end Engine

end Superstep
