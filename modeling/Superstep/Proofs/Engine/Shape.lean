import Superstep.Proofs.Errands
import Superstep.Proofs.Tiling

/-!
# The shape of an engine

Signals, rounds and transformations change what an engine holds. They do not change its shape: how
many slots there are on either side, and how the vertices are shared among the workers. A step may
fail in any of its phases, and the shape survives that too, so it is stated as a relation between
the engines before and after an operation, whatever the operation answers.

`WellShaped` is what the phases rely on. A new engine is well-shaped, and so is every engine that
can be reached from one.

## Main results

* `WellShaped.share_fst`, `WellShaped.share_snd`: the shares are all of the workers and all of the
  items, in order, and no share is dropped
* `WellShaped.sameShape_step`, `sameShape_transform`: rounds and transformations keep the shape
* `Reachable.wellShaped`: engines stay well-shaped
-/

namespace Superstep

/-- The bounds of a worker's range. -/
def Worker.range (w : Worker) : Nat × Nat := (w.start, w.stop)

theorem flatMap_ids (workers : List Worker) :
    workers.flatMap Worker.ids =
      ((workers.map Worker.range).flatMap Tiling.positions).map UInt32.ofNat := by
  rw [List.map_flatMap, List.flatMap_map]
  rfl

namespace Engine

variable {S D M G : Type}

/-- Accumulator and slots have one place for every vertex, and the workers have the ranges that
share the vertices. -/
structure WellShaped (e : Engine S D M G) : Prop where
  size_slots : e.slots.size = e.accumulator.size
  tiled : e.isTiled = true
  ranges : e.workers.map Worker.range = Tiling.ranges e.slots.size e.options.workers

/-- What an operation leaves alone, whatever it answers. -/
structure SameShape (e e' : Engine S D M G) : Prop where
  program : e'.program = e.program
  prototype : e'.prototype = e.prototype
  options : e'.options = e.options
  size_slots : e'.slots.size = e.slots.size
  size_accumulator : e'.accumulator.size = e.accumulator.size
  workers : e'.workers.map Worker.reset = e.workers.map Worker.reset

theorem SameShape.refl (e : Engine S D M G) : SameShape e e := ⟨rfl, rfl, rfl, rfl, rfl, rfl⟩

theorem SameShape.phase (e : Engine S D M G) (phase : Phase) :
    SameShape e { e with phase := phase } := ⟨rfl, rfl, rfl, rfl, rfl, rfl⟩

theorem SameShape.overlaid (e : Engine S D M G) (slots : List (Slot S G)) :
    SameShape e { e with slots := overlay e.slots slots } :=
  ⟨rfl, rfl, rfl, size_overlay .., rfl, rfl⟩

theorem SameShape.trans {e e' e'' : Engine S D M G} (h : SameShape e e') (h' : SameShape e' e'') :
    SameShape e e'' :=
  ⟨h'.program.trans h.program, h'.prototype.trans h.prototype, h'.options.trans h.options,
    h'.size_slots.trans h.size_slots, h'.size_accumulator.trans h.size_accumulator,
    h'.workers.trans h.workers⟩

theorem SameShape.length_workers {e e' : Engine S D M G} (h : SameShape e e') :
    e'.workers.length = e.workers.length := by
  simpa using congrArg List.length h.workers

theorem SameShape.ranges {e e' : Engine S D M G} (h : SameShape e e') :
    e'.workers.map Worker.range = e.workers.map Worker.range := by
  have hrange := congrArg (List.map Worker.range) h.workers
  rwa [List.map_map, List.map_map] at hrange

theorem WellShaped.of_sameShape {e e' : Engine S D M G} (w : WellShaped e) (h : SameShape e e') :
    WellShaped e' where
  size_slots := by rw [h.size_slots, h.size_accumulator, w.size_slots]
  tiled := by rw [isTiled, h.size_slots, h.options]; exact w.tiled
  ranges := by rw [h.ranges, h.size_slots, h.options, w.ranges]

theorem WellShaped.size_accumulator_le {e : Engine S D M G} {n : Network D} (w : WellShaped e)
    (hn : n.topology.size = e.slots.size) (hle : n.topology.size ≤ UInt32.size) :
    e.accumulator.size ≤ UInt32.size := by
  rwa [← w.size_slots, ← hn]

/-! ### Shares -/

theorem WellShaped.length_workers {e : Engine S D M G} (w : WellShaped e) :
    e.workers.length = (Tiling.ranges e.slots.size e.options.workers).length := by
  rw [← w.ranges, List.length_map]

/-- Between them the workers have every vertex once, ascending. -/
theorem WellShaped.flatten_ids {e : Engine S D M G} (w : WellShaped e) :
    (e.workers.map Worker.ids).flatten = (List.range e.slots.size).map UInt32.ofNat := by
  rw [← List.flatMap_def, flatMap_ids, w.ranges, Tiling.flatMap_positions_ranges]

/-- Every worker has a share. -/
theorem WellShaped.share_fst {α : Type} {e : Engine S D M G} (w : WellShaped e) {items : List α}
    (h : items.length = e.slots.size) : (e.share items).map Prod.fst = e.workers := by
  refine List.map_fst_zip ?_
  rw [w.length_workers, Tiling.length_chunks_eq_length_ranges h]

/-- The shares are all of the items, in order. -/
theorem WellShaped.share_snd {α : Type} {e : Engine S D M G} (w : WellShaped e) {items : List α}
    (h : items.length = e.slots.size) : ((e.share items).map Prod.snd).flatten = items := by
  have hsnd : (e.share items).map Prod.snd =
      Tiling.chunks (Tiling.chunkSize e.slots.size e.options.workers) items := by
    refine List.map_snd_zip ?_
    rw [w.length_workers, Tiling.length_chunks_eq_length_ranges h]
  rw [hsnd, Tiling.flatten_chunks (Tiling.chunkSize_pos ..)]

theorem WellShaped.length_share {α : Type} {e : Engine S D M G} (w : WellShaped e)
    {items : List α} (h : items.length = e.slots.size) :
    (e.share items).length = e.workers.length := by
  rw [← w.share_fst h, List.length_map]

theorem WellShaped.mem_of_mem_share {α : Type} {e : Engine S D M G} (w : WellShaped e)
    {items : List α} (h : items.length = e.slots.size) {share : Worker × List α}
    (hshare : share ∈ e.share items) {item : α} (hitem : item ∈ share.2) : item ∈ items := by
  rw [← w.share_snd h]
  exact List.mem_flatten.2 ⟨share.2, List.mem_map_of_mem hshare, hitem⟩

theorem WellShaped.exists_share_of_mem {α : Type} {e : Engine S D M G} (w : WellShaped e)
    {items : List α} (h : items.length = e.slots.size) {item : α} (hitem : item ∈ items) :
    ∃ share ∈ e.share items, item ∈ share.2 := by
  rw [← w.share_snd h] at hitem
  obtain ⟨chunk, hchunk, hitem⟩ := List.mem_flatten.1 hitem
  obtain ⟨share, hshare, rfl⟩ := List.mem_map.1 hchunk
  exact ⟨share, hshare, hitem⟩

/-- What every worker makes of its share element by element is what becomes of all items. -/
theorem WellShaped.flatMap_share {α β : Type} {e : Engine S D M G} (w : WellShaped e)
    {items : List α} (h : items.length = e.slots.size) (f : α → List β) :
    (e.share items).flatMap (fun share => share.2.flatMap f) = items.flatMap f := by
  calc (e.share items).flatMap (fun share => share.2.flatMap f)
      = ((e.share items).map Prod.snd).flatMap (fun items => items.flatMap f) := by
        rw [List.flatMap_map]
    _ = ((e.share items).map Prod.snd).flatten.flatMap f := by
        rw [← List.flatMap_id, List.flatMap_assoc]
        rfl
    _ = items.flatMap f := by rw [w.share_snd h]

/-- What becomes of the items one by one becomes of them within their shares. -/
theorem share_map {α β : Type} (e : Engine S D M G) (f : α → β) (items : List α) :
    e.share (items.map f) = (e.share items).map fun share => (share.1, share.2.map f) := by
  rw [share, Tiling.chunks_map (Tiling.chunkSize_pos ..), List.zip_map_right, share]
  rfl

/-! ### Phases -/

theorem length_occupants {e : Engine S D M G} {n : Network D}
    (hn : n.topology.size = e.slots.size) : (e.occupants n).length = e.slots.size := by
  simp [occupants, Network.vertices, hn]

/-- Every worker settles its share. -/
theorem WellShaped.sameShape_settle {e : Engine S D M G} (w : WellShaped e) {n : Network D}
    (hn : n.topology.size = e.slots.size) {gathered : List (Gathered S G)}
    (hlength : gathered.length = (e.share (e.occupants n)).length) :
    SameShape e (e.settle n gathered).1 where
  program := rfl
  prototype := rfl
  options := rfl
  size_slots := size_overlay ..
  size_accumulator := rfl
  workers := by
    conv_rhs => rw [← w.share_fst (length_occupants hn)]
    refine List.ext_getElem (by simp [settle, hlength]) fun i hi hi' => ?_
    simp only [settle, List.getElem_map, List.getElem_zipWith]
    rfl

section Gather

variable [Payload M] [Payload G] [Inhabited G] {e : Engine S D M G} {n : Network D}

/-- What the workers come to while they gather. -/
def gatheredBy (e : Engine S D M G) (n : Network D) (picks : List Nat) : List (Gathered S G) :=
  (Errand.run e.accumulator picks (e.gatherErrands n)).2

theorem length_gatheredBy (e : Engine S D M G) (n : Network D) (picks : List Nat) :
    (e.gatheredBy n picks).length = (e.share (e.occupants n)).length := by
  have hends := (Errand.interleaved_run e.accumulator picks (e.gatherErrands n)).endsIn
  rw [gatheredBy, ← hends.length_eq, gatherErrands, List.length_map]

theorem size_accumulator_gatherPhase (e : Engine S D M G) (n : Network D) (picks : List Nat) :
    (e.gatherPhase n picks).1.accumulator.size = e.accumulator.size :=
  (Errand.interleaved_run e.accumulator picks (e.gatherErrands n)).size_eq

theorem WellShaped.sameShape_gatherPhase (w : WellShaped e) (hn : n.topology.size = e.slots.size)
    (picks : List Nat) : SameShape e (e.gatherPhase n picks).1 := by
  obtain ⟨program, prototype, options, size_slots, -, workers⟩ :=
    w.sameShape_settle hn (e.length_gatheredBy n picks)
  exact ⟨program, prototype, options, size_slots, e.size_accumulator_gatherPhase n picks, workers⟩

end Gather

theorem sameShape_deliverLanes [Payload M] (e : Engine S D M G) (picks : List Nat)
    (lanes : List (List (Signal M) × Bool)) : SameShape e (e.deliverLanes picks lanes) where
  program := rfl
  prototype := rfl
  options := rfl
  size_slots := rfl
  size_accumulator := Accumulator.size_deliver ..
  workers := by
    refine List.ext_getElem? fun i => ?_
    simp only [deliverLanes, List.getElem?_map, List.getElem?_mapIdx, Option.map_map]
    refine congrArg (Option.map · _) (funext fun worker => ?_)
    simp only [Function.comp_apply]
    split <;> rfl

theorem sameShape_applyPhase [Payload M] (e : Engine S D M G) (n : Network D) (picks : List Nat) :
    SameShape e (e.applyPhase n picks).1 :=
  (sameShape_deliverLanes e picks _).trans (.overlaid _ _)

theorem sameShape_scatterPhase [Payload M] (e : Engine S D M G) (n : Network D) (picks : List Nat) :
    SameShape e (e.scatterPhase n picks).1 :=
  (sameShape_deliverLanes e picks _).trans (.overlaid _ _)

/-! ### Rounds -/

theorem sameShape_conclude {g : Graph D} {e : Engine S D M G}
    {t : Engine S D M G × Option Failure} (h : SameShape e t.1) :
    SameShape e (conclude g t).engine := by
  obtain ⟨e', _ | failure⟩ := t
  · exact h.trans ⟨rfl, rfl, rfl, rfl, rfl, rfl⟩
  · exact h

theorem sameShape_enterScatter [Payload M] {g : Graph D} {hf : g.finalized = true}
    {picks : List Nat} {e : Engine S D M G} {t : Engine S D M G × Option Failure}
    (h : SameShape e t.1) : SameShape e (enterScatter g hf picks t).engine := by
  obtain ⟨e', _ | failure⟩ := t
  · exact sameShape_conclude (h.trans ((SameShape.phase e' .scatter).trans
      (sameShape_scatterPhase ..)))
  · exact h

theorem sameShape_enterApply [Payload M] {g : Graph D} {hf : g.finalized = true}
    {schedule : Schedule} {e : Engine S D M G} {t : Engine S D M G × Option Failure}
    (h : SameShape e t.1) : SameShape e (enterApply g hf schedule t).engine := by
  obtain ⟨e', _ | failure⟩ := t
  · unfold enterApply
    simp only
    split
    · exact h.trans (.phase e' .done)
    · exact sameShape_enterScatter (h.trans ((SameShape.phase e' .apply).trans
        (sameShape_applyPhase ..)))
  · exact h.trans (.phase e' .gather)

theorem topology_size_of_refusal {e : Engine S D M G} {g : Graph D} (h : e.refusal g = none)
    (hf : g.finalized = true) : (g.network hf).topology.size = e.accumulator.size := by
  rw [refusal, if_neg (by simp [hf])] at h
  split at h
  · cases h
  · rename_i hs
    exact (Graph.topology_size hf).symm.trans (Classical.not_not.1 hs)

theorem WellShaped.sameShape_step [Payload M] [Payload G] [Inhabited G] {e : Engine S D M G}
    (w : WellShaped e) (g : Graph D) (schedule : Schedule) :
    SameShape e (e.step g schedule).engine := by
  unfold step
  split
  · exact .refl e
  · rename_i hr
    have hs := topology_size_of_refusal hr (finalized_of_refusal_eq_none hr)
    unfold stepOn
    split
    · exact .phase e .done
    · split
      · exact sameShape_enterApply (w.sameShape_gatherPhase (hs.trans w.size_slots.symm) _)
      · exact .phase e .gather

theorem sameShape_transform [Payload M] (e : Engine S D M G) (g : Graph D)
    (transformation : Transformation D M) (picks : List Nat) :
    SameShape e (e.transform g transformation picks).engine := by
  have hcleared : SameShape e { e with workers := e.workers.map Worker.reset } :=
    ⟨rfl, rfl, rfl, rfl, rfl, by rw [List.map_map]; rfl⟩
  unfold transform
  split
  · exact .refl e
  · split
    · unfold transformOn
      simp only
      split
      · exact hcleared.trans (sameShape_deliverLanes ..)
      · exact (hcleared.trans (sameShape_deliverLanes ..)).trans ⟨rfl, rfl, rfl, rfl, rfl, rfl⟩
    · exact .refl e

theorem size_foldl_deposit [Payload M] {α : Type} (f : α → VertexId) (payload : M) (l : List α)
    (a : Accumulator M) :
    (l.foldl (fun a i => a.deposit (f i) payload) a).size = a.size := by
  induction l generalizing a with
  | nil => rfl
  | cons i l ih => rw [List.foldl_cons, ih, Accumulator.size_deposit]

theorem sameShape_signalAll [Payload M] [Inhabited M] (e : Engine S D M G) :
    SameShape e e.signalAll :=
  ⟨rfl, rfl, rfl, rfl, size_foldl_deposit _ _ _ _, rfl⟩

theorem sameShape_signal [Payload M] {e e' : Engine S D M G} {vertex : VertexId} {payload : M}
    (h : e.signal vertex payload = .ok e') : SameShape e e' := by
  unfold signal Accumulator.add Accumulator.onSlot at h
  split at h
  · split at h
    · cases h
      exact ⟨rfl, rfl, rfl, rfl, Accumulator.size_deposit .., rfl⟩
    · cases h
  · cases h

theorem sameShape_take? {e e' : Engine S D M G} {vertex : VertexId} {payload : Option M}
    (h : e.take? vertex = .ok (payload, e')) : SameShape e e' := by
  unfold take? Accumulator.take? Accumulator.onSlot at h
  split at h
  · cases h
    exact ⟨rfl, rfl, rfl, rfl, Accumulator.size_clear .., rfl⟩
  · cases h

/-! ### Reachable engines -/

theorem wellShaped_restarted {e : Engine S D M G} (hs : e.slots.size = e.accumulator.size)
    (ht : e.isTiled = true) : WellShaped e.restarted where
  size_slots := hs
  tiled := ht
  ranges := by
    refine List.ext_getElem? fun i => ?_
    rw [restarted, workersFor, List.getElem?_map, List.getElem?_mapIdx, Option.map_map]
    exact congrFun Option.map_id _

theorem size_emptied (e : Engine S D M G) (n : Nat) :
    (e.emptied n).slots.size = (e.emptied n).accumulator.size := by
  simp [emptied]

theorem WellShaped.create {program : VertexProgram S D M G} {prototype : S} {n : Nat}
    {options : EngineOptions} {e : Engine S D M G}
    (h : Engine.create program prototype n options = .ok e) : WellShaped e := by
  simp only [Engine.create] at h
  split at h
  · rename_i ht
    cases h
    exact wellShaped_restarted (size_emptied ..) ht
  · cases h

theorem WellShaped.resize {e : Engine S D M G} {n : Nat} (h : (e.resize n).1 = .ok ()) :
    WellShaped (e.resize n).2 := by
  simp only [Engine.resize] at h ⊢
  split at h
  · rename_i ht
    rw [if_pos ht]
    exact wellShaped_restarted (size_emptied ..) ht
  · cases h

/-- The engines that operations lead to. Rounds and transformations may fail or be refused, and
what they leave behind counts; a number of vertices that cannot be shared leaves no engine. -/
inductive Reachable [Payload M] [Inhabited M] [Payload G] [Inhabited G] :
    Engine S D M G → Prop
  | create {program : VertexProgram S D M G} {prototype : S} {n : Nat} {options : EngineOptions}
      {e : Engine S D M G} (h : Engine.create program prototype n options = .ok e) : Reachable e
  | resize {e : Engine S D M G} {n : Nat} (reachable : Reachable e)
      (h : (e.resize n).1 = .ok ()) : Reachable (e.resize n).2
  | signal {e e' : Engine S D M G} {vertex : VertexId} {payload : M} (reachable : Reachable e)
      (h : e.signal vertex payload = .ok e') : Reachable e'
  | signalAll {e : Engine S D M G} (reachable : Reachable e) : Reachable e.signalAll
  | take {e e' : Engine S D M G} {vertex : VertexId} {payload : Option M}
      (reachable : Reachable e) (h : e.take? vertex = .ok (payload, e')) : Reachable e'
  | step {e : Engine S D M G} (reachable : Reachable e) (g : Graph D) (schedule : Schedule) :
      Reachable (e.step g schedule).engine
  | transform {e : Engine S D M G} (reachable : Reachable e) (g : Graph D)
      (transformation : Transformation D M) (picks : List Nat) :
      Reachable (e.transform g transformation picks).engine

/-- **Engines stay well-shaped**, whatever is asked of them and whatever they answer. -/
theorem Reachable.wellShaped [Payload M] [Inhabited M] [Payload G] [Inhabited G]
    {e : Engine S D M G} (reachable : Reachable e) : WellShaped e := by
  induction reachable with
  | create h => exact .create h
  | resize _ h _ => exact .resize h
  | signal _ h ih => exact ih.of_sameShape (sameShape_signal h)
  | signalAll _ ih => exact ih.of_sameShape (sameShape_signalAll _)
  | take _ h ih => exact ih.of_sameShape (sameShape_take? h)
  | step _ g schedule ih => exact ih.of_sameShape (ih.sameShape_step g schedule)
  | transform _ g t picks ih => exact ih.of_sameShape (sameShape_transform _ g t picks)

/-- The workers are those that share the vertices, up to their figures. -/
def Staffed (e : Engine S D M G) : Prop :=
  e.workers.map Worker.reset = workersFor e.slots.size e.options.workers

theorem Staffed.of_sameShape {e e' : Engine S D M G} (staffed : Staffed e) (h : SameShape e e') :
    Staffed e' := by
  rw [Staffed, h.workers, h.size_slots, h.options]
  exact staffed

theorem staffed_restarted (e : Engine S D M G) : Staffed e.restarted := by
  show (workersFor e.slots.size e.options.workers).map Worker.reset =
    workersFor e.slots.size e.options.workers
  refine List.ext_getElem? fun i => ?_
  rw [workersFor, List.getElem?_map, List.getElem?_mapIdx, Option.map_map]
  rfl

/-- Engines keep their workers. -/
theorem Reachable.staffed [Payload M] [Inhabited M] [Payload G] [Inhabited G]
    {e : Engine S D M G} (reachable : Reachable e) : Staffed e := by
  induction reachable with
  | create h =>
    rw [Engine.create] at h
    split at h
    · cases h
      exact staffed_restarted _
    · cases h
  | resize _ h _ =>
    rw [Engine.resize] at h ⊢
    split at h
    · rename_i ht
      rw [if_pos ht]
      exact staffed_restarted _
    · cases h
  | signal _ h ih => exact ih.of_sameShape (sameShape_signal h)
  | signalAll _ ih => exact ih.of_sameShape (sameShape_signalAll _)
  | take _ h ih => exact ih.of_sameShape (sameShape_take? h)
  | step reachable g schedule ih =>
    exact ih.of_sameShape (reachable.wellShaped.sameShape_step g schedule)
  | transform _ g t picks ih => exact ih.of_sameShape (sameShape_transform _ g t picks)

end Engine

end Superstep
