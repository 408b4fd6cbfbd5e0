import Superstep.Proofs.Engine.Figures
import Superstep.Proofs.Engine.Session
import Superstep.Proofs.Engine.Start

/-!
# Twin engines

Slots do not outlive a round, the figures of the workers are set anew in every round, and whether
states are saved between apply and scatter is a matter of the engine alone. Two engines that differ
in nothing else are twins.

The phases of a round keep twins twins, whatever the program does on the way. Gathering settles the
slots of twins alike. What was saved must scatter as what was not, and then apply leaves slots that
say the same. Deliveries bring the same payloads.

Twins may be scheduled alike. If they are not, the order of operations has to be one that is not
noticed. That is so with one worker. With several, deliveries come to the same if the merge does not
mind their order, and taking payloads comes to the same if nothing is sent meanwhile: a signal that
is sent while payloads are taken is found in this round or the next, depending on who comes first.

## Main definitions

* `Engine.Twin`: engines that only differ where nobody looks
* `SameDeliveries`, `VertexProgram.SameTakes`: orders that come to the same
* `VertexProgram.Restores`: saving a state and loading it does not change how it scatters
* `VertexProgram.voice`: all that scatter makes of a slot
* `Engine.KeepsVoices`: two engines of which it cannot be heard whether they save states

## Main results

* `Engine.Twin.gatherPhase`, `Engine.Twin.applyPhase`, `Engine.Twin.scatterPhase`
-/

namespace Superstep

variable {S D M G : Type}

/-- What is determined by `f` is the same along two lists along which `f` is. -/
theorem map_eq_map_of_factors {α β γ : Type} {f : α → β} {g : α → γ}
    (h : ∀ a b, f a = f b → g a = g b) {l l' : List α} (hl : l.map f = l'.map f) :
    l.map g = l'.map g := by
  induction l generalizing l' with
  | nil =>
    obtain rfl : l' = [] := by simpa using hl.symm
    rfl
  | cons a l ih =>
    cases l' with
    | nil => simp at hl
    | cons b l' =>
      obtain ⟨hhead, htail⟩ := List.cons.inj hl
      rw [List.map_cons, List.map_cons, h a b hhead, ih htail]

namespace Engine

/-- Two engines that only differ where nobody looks: in whether they save states, in what their
slots hold, and in the figures of a round that is over. -/
structure Twin (e e' : Engine S D M G) : Prop where
  wellShaped : WellShaped e
  program : e'.program = e.program
  prototype : e'.prototype = e.prototype
  maxRounds : e'.options.maxRounds = e.options.maxRounds
  numWorkers : e'.options.workers = e.options.workers
  size_slots : e'.slots.size = e.slots.size
  workers : e'.workers.map Worker.reset = e.workers.map Worker.reset
  accumulator : e'.accumulator = e.accumulator
  phase : e'.phase = e.phase
  round : e'.round = e.round
  signals : e'.signals = e.signals

namespace Twin

variable {e e' : Engine S D M G}

theorem context_eq (t : Twin e e') (n : Network D) : e'.context n = e.context n := by
  rw [context, context, t.accumulator, t.round, t.maxRounds]

theorem refusal_eq (t : Twin e e') (g : Graph D) : e'.refusal g = e.refusal g := by
  rw [refusal, refusal, t.accumulator]

theorem isTiled_eq (t : Twin e e') : e'.isTiled = e.isTiled := by
  rw [isTiled, isTiled, t.size_slots, t.numWorkers]

theorem wellShaped' (t : Twin e e') : WellShaped e' where
  size_slots := by rw [t.size_slots, t.accumulator, t.wellShaped.size_slots]
  tiled := by rw [t.isTiled_eq, t.wellShaped.tiled]
  ranges := by
    have hrange : Worker.range = Worker.range ∘ Worker.reset := rfl
    rw [t.size_slots, t.numWorkers, ← t.wellShaped.ranges, hrange, ← List.map_map, t.workers,
      List.map_map]

/-- Twins share items in the same way. -/
theorem share_eq {α : Type} (t : Twin e e') (items : List α) :
    (e'.share items).map (Prod.map Worker.reset id) =
      (e.share items).map (Prod.map Worker.reset id) := by
  have h : ∀ (workers : List Worker) (pieces : List (List α)),
      (workers.zip pieces).map (Prod.map Worker.reset id) =
        (workers.map Worker.reset).zip pieces := by
    intro workers pieces
    rw [List.zip_map_left]
  rw [share, share, h, h, t.workers, t.size_slots, t.numWorkers]

/-- The items of the shares, which are the same for twins. -/
theorem map_share_snd {α β : Type} (t : Twin e e') (items : List α) (f : List α → β) :
    (e'.share items).map (fun share => f share.2) = (e.share items).map fun share => f share.2 := by
  have h := congrArg (List.map fun share => f share.2) (t.share_eq items)
  rw [List.map_map, List.map_map] at h
  exact h

/-- Twins of which the same is noted. -/
theorem noted (t : Twin e e') (phase : Phase) (round signals : Nat) :
    Twin { e with phase := phase, round := round, signals := signals }
      { e' with phase := phase, round := round, signals := signals } where
  wellShaped := ⟨t.wellShaped.size_slots, t.wellShaped.tiled, t.wellShaped.ranges⟩
  program := t.program
  prototype := t.prototype
  maxRounds := t.maxRounds
  numWorkers := t.numWorkers
  size_slots := t.size_slots
  workers := t.workers
  accumulator := t.accumulator
  phase := rfl
  round := rfl
  signals := rfl

/-- Twins in another phase. -/
theorem withPhase (t : Twin e e') (phase : Phase) :
    Twin { e with phase := phase } { e' with phase := phase } := by
  have hnoted : { e' with phase := phase } =
      { e' with phase := phase, round := e.round, signals := e.signals } := by
    rw [← t.round, ← t.signals]
  exact hnoted ▸ t.noted phase e.round e.signals

/-- Twins whose slots are written over. -/
theorem overlaid (t : Twin e e') (slots slots' : List (Slot S G)) :
    Twin { e with slots := overlay e.slots slots }
      { e' with slots := overlay e'.slots slots' } where
  wellShaped := t.wellShaped.of_sameShape (.overlaid e slots)
  program := t.program
  prototype := t.prototype
  maxRounds := t.maxRounds
  numWorkers := t.numWorkers
  size_slots := by rw [size_overlay, size_overlay, t.size_slots]
  workers := t.workers
  accumulator := t.accumulator
  phase := t.phase
  round := t.round
  signals := t.signals

end Twin

end Engine

/-! ### Orders -/

/-- Two orders of what `workers` workers do that are the same, because there is one worker or the
picks are the same. -/
def SameOrder (workers : Nat) (picks picks' : List Nat) : Prop := workers ≤ 1 ∨ picks' = picks

theorem weave_congr {α : Type} {picks picks' : List Nat} {lanes : List (List α)}
    (h : SameOrder lanes.length picks picks') : weave picks' lanes = weave picks lanes := by
  rcases h with h | rfl
  · rw [weave_eq_flatten _ h, weave_eq_flatten _ h]
  · rfl

/-- Two orders of deliveries that come to the same: they are the same, or the merge does not
mind. -/
def SameDeliveries (M : Type) [Payload M] (workers : Nat) (picks picks' : List Nat) : Prop :=
  SameOrder workers picks picks' ∨ OrderFree (Payload.merge : M → M → M)

/-- Two orders of taking payloads that come to the same: they are the same, or nothing is sent
meanwhile. -/
def VertexProgram.SameTakes (p : VertexProgram S D M G) (workers : Nat) (picks picks' : List Nat) :
    Prop :=
  SameOrder workers picks picks' ∨ p.GathersSilently

namespace Engine

/-- One worker of one that is asked for. -/
theorem WellShaped.sameOrder {e : Engine S D M G} (w : WellShaped e) {picks picks' : List Nat}
    (h : SameOrder e.options.workers picks picks') : SameOrder e.workers.length picks picks' :=
  h.imp_left w.length_workers_le_one

theorem WellShaped.sameDeliveries [Payload M] {e : Engine S D M G} (w : WellShaped e)
    {picks picks' : List Nat} (h : SameDeliveries M e.options.workers picks picks') :
    SameDeliveries M e.workers.length picks picks' := h.imp_left w.sameOrder

/-! ### Deliveries -/

/-- Deliveries change nothing of a worker but its figures, and only the number of activations
depends on their order. -/
theorem map_workers_deliverLanes [Payload M] {β : Type} {f : Worker → β}
    (hf : ∀ worker k, f { worker with activated := k } = f worker) {e e' : Engine S D M G}
    (hw : e'.workers = e.workers) (lanes : List (List (Signal M) × Bool))
    (picks picks' : List Nat) :
    (e'.deliverLanes picks' lanes).workers.map f = (e.deliverLanes picks lanes).workers.map f := by
  refine List.ext_getElem? fun i => ?_
  simp only [deliverLanes, hw, List.getElem?_map, List.getElem?_mapIdx, Option.map_map]
  refine congrArg (Option.map · _) (funext fun worker => ?_)
  simp only [Function.comp_apply]
  split
  · rename_i signals _
    exact (hf { worker with sent := signals.length } _).trans
      (hf { worker with sent := signals.length } _).symm
  · rfl

/-- What deliveries leave pending does not depend on their order, if the order does not matter. -/
theorem accumulator_deliverLanes_congr [Payload M] {e e' : Engine S D M G}
    (ha : e'.accumulator = e.accumulator) (hle : e.accumulator.size ≤ UInt32.size)
    {lanes : List (List (Signal M) × Bool)}
    (inside : ∀ lane ∈ lanes, ∀ signal ∈ lane.1, signal.target.toNat < e.accumulator.size)
    {picks picks' : List Nat} (order : SameDeliveries M lanes.length picks picks') :
    (e'.deliverLanes picks' lanes).accumulator = (e.deliverLanes picks lanes).accumulator := by
  rcases order with order | free
  · have hweave : weave picks' (posts lanes) = weave picks (posts lanes) :=
      weave_congr (by rwa [posts, List.length_mapIdx])
    have hposts : ∀ (e : Engine S D M G) (picks : List Nat),
        (e.deliverLanes picks lanes).accumulator =
          (e.accumulator.deliver (weave picks (posts lanes))).1 := fun _ _ => rfl
    rw [hposts, hposts, ha, hweave]
  · have hsize := (sameShape_deliverLanes e picks lanes).size_accumulator
    have hsize' := (sameShape_deliverLanes e' picks' lanes).size_accumulator
    refine Accumulator.eq_of_peek_eq ?_ ?_ fun v => ?_
    · rw [hsize', ha, hsize]
    · rwa [hsize', ha]
    · rw [peek_deliverLanes e picks inside (.inr (free.anyOrder _ _)),
        peek_deliverLanes e' picks' (ha ▸ inside) (.inr (free.anyOrder _ _)), ha]

/-- What deliveries leave of two twins whose workers have the same figures. -/
structure SameDelivery (e e' : Engine S D M G) : Prop where
  twin : Twin e e'
  numActive : e'.numActive = e.numActive
  numSent : e'.numSent = e.numSent

/-- The signals that were sent are counted. -/
theorem SameDelivery.counted {e e' : Engine S D M G} (h : SameDelivery e e') :
    Twin { e with signals := e.signals + e.numSent }
      { e' with signals := e'.signals + e'.numSent } := by
  have hnoted : { e' with signals := e'.signals + e'.numSent } =
      { e' with phase := e.phase, round := e.round, signals := e.signals + e.numSent } := by
    rw [h.numSent, ← h.twin.phase, ← h.twin.round, h.twin.signals]
  exact hnoted ▸ h.twin.noted e.phase e.round (e.signals + e.numSent)

theorem Twin.deliverLanes [Payload M] {e e' : Engine S D M G} (t : Twin e e')
    (hw : e'.workers = e.workers) (hle : e.accumulator.size ≤ UInt32.size)
    {lanes : List (List (Signal M) × Bool)}
    (inside : ∀ lane ∈ lanes, ∀ signal ∈ lane.1, signal.target.toNat < e.accumulator.size)
    {picks picks' : List Nat} (order : SameDeliveries M lanes.length picks picks') :
    SameDelivery (e.deliverLanes picks lanes) (e'.deliverLanes picks' lanes) where
  twin :=
    { wellShaped := t.wellShaped.of_sameShape (sameShape_deliverLanes ..)
      program := t.program
      prototype := t.prototype
      maxRounds := t.maxRounds
      numWorkers := t.numWorkers
      size_slots := t.size_slots
      workers := map_workers_deliverLanes (fun _ _ => rfl) hw lanes picks picks'
      accumulator := accumulator_deliverLanes_congr t.accumulator hle inside order
      phase := t.phase
      round := t.round
      signals := t.signals }
  numActive := by
    rw [numActive, numActive,
      map_workers_deliverLanes (f := Worker.active) (fun _ _ => rfl) hw lanes picks picks']
  numSent := by
    rw [numSent, numSent,
      map_workers_deliverLanes (f := Worker.sent) (fun _ _ => rfl) hw lanes picks picks']

theorem Twin.numActivated_deliverLanes [Payload M] {e e' : Engine S D M G} (t : Twin e e')
    (hw : e'.workers = e.workers) (hle : e.accumulator.size ≤ UInt32.size)
    {lanes : List (List (Signal M) × Bool)}
    (inside : ∀ lane ∈ lanes, ∀ signal ∈ lane.1, signal.target.toNat < e.accumulator.size)
    (hlen : lanes.length = e.workers.length) (complete : ∀ lane ∈ lanes, lane.2 = true)
    {picks picks' : List Nat} (order : SameDeliveries M lanes.length picks picks') :
    (e'.deliverLanes picks' lanes).numActivated = (e.deliverLanes picks lanes).numActivated := by
  have h := Engine.numActivated_deliverLanes e picks hlen complete inside
  have h' := Engine.numActivated_deliverLanes e' picks' (hw ▸ hlen) complete
    (t.accumulator ▸ inside)
  rw [accumulator_deliverLanes_congr t.accumulator hle inside order, t.accumulator] at h'
  omega

/-! ### Gathering -/

theorem eq_none_of_firstFailure {failures : List (Option Failure)}
    (h : firstFailure failures = none) : ∀ failure ∈ failures, failure = none := by
  have hnil : failures.filterMap id = [] := by
    rw [firstFailure, Option.or_eq_none_iff, List.head?_eq_none_iff] at h
    exact h.2
  exact List.filterMap_eq_nil_iff.1 hnil

section Gather

variable {e e' : Engine S D M G} {n : Network D}

/-- Slots that are all settled. -/
theorem zipWith_settled {shares : List (Worker × List (Vertex D × Slot S G))}
    {gathered : List (Gathered S G)}
    (h : List.Forall₂ (fun share g => g.slots.length = share.2.length) shares gathered) :
    shares.zipWith (fun share g => g.slots ++ (share.2.map Prod.snd).drop g.slots.length)
        gathered = gathered.map Gathered.slots ∧
      (gathered.flatMap Gathered.slots).length = (shares.flatMap Prod.snd).length := by
  induction h with
  | nil => exact ⟨rfl, rfl⟩
  | @cons share g shares gathered hslots _ ih =>
    obtain ⟨hzip, hlength⟩ := ih
    have hdrop : (share.2.map Prod.snd).drop g.slots.length = [] :=
      List.drop_eq_nil_of_le (by rw [List.length_map, hslots])
    constructor
    · rw [List.zipWith_cons_cons, hzip, hdrop, List.append_nil, List.map_cons]
    · rw [List.flatMap_cons, List.flatMap_cons, List.length_append, List.length_append, hslots,
        hlength]

variable [Payload M] [Payload G] [Inhabited G]

/-- The workers behind gather, which have no figures but those of the round. -/
theorem WellShaped.workers_gatherPhase (w : WellShaped e) (hn : n.topology.size = e.slots.size)
    (picks : List Nat) :
    (e.gatherPhase n picks).1.workers = (e.workers.map Worker.reset).zipWith
      (fun worker g => { worker with active := g.slots.countP fun slot => slot matches .live .. })
      (e.gatheredBy n picks) := by
  have hsettle : (e.gatherPhase n picks).1.workers =
      (e.settle n (e.gatheredBy n picks)).1.workers := rfl
  rw [hsettle]
  conv_rhs => rw [← w.share_fst (length_occupants hn), List.map_map, List.zipWith_map_left]
  exact List.map_zipWith ..

/-- Every worker ends as it may. -/
theorem endsIn_gatheredBy (e : Engine S D M G) (n : Network D) (picks : List Nat) :
    List.Forall₂ (fun share g => (e.program.gatherAll e.prototype (e.context n)
      (share.2.map Prod.fst)).EndsIn g) (e.share (e.occupants n)) (e.gatheredBy n picks) :=
  List.forall₂_map_left_iff.1
    (Errand.interleaved_run e.accumulator picks (e.gatherErrands n)).endsIn

/-- A gather phase that does not fail decides every slot anew. -/
theorem WellShaped.toList_slots_gatherPhase (w : WellShaped e) (hn : n.topology.size = e.slots.size)
    {picks : List Nat} (ok : (e.gatherPhase n picks).2 = none) :
    (e.gatherPhase n picks).1.slots.toList = (e.gatheredBy n picks).flatMap Gathered.slots := by
  have hlen := length_occupants hn
  have hends := e.endsIn_gatheredBy n picks
  have hnone : ∀ g ∈ e.gatheredBy n picks, g.failure = none := fun g hg => by
    have := eq_none_of_firstFailure ok _ (List.mem_map_of_mem hg)
    rwa [Option.map_eq_none_iff] at this
  have hlengths : List.Forall₂ (fun share g => g.slots.length = share.2.length)
      (e.share (e.occupants n)) (e.gatheredBy n picks) := by
    rw [List.forall₂_iff_get] at hends ⊢
    refine ⟨hends.1, fun i hi hi' => ?_⟩
    rw [VertexProgram.length_of_gatherAll (hends.2 i hi hi') (hnone _ (List.get_mem ..)),
      List.length_map]
  obtain ⟨hzip, hlength⟩ := zipWith_settled hlengths
  have hslots : (e.gatherPhase n picks).1.slots =
      overlay e.slots ((e.gatheredBy n picks).flatMap Gathered.slots) := by
    rw [List.flatMap_def (f := Gathered.slots), ← hzip]
    exact congrArg (fun slots => overlay e.slots (List.flatten slots)) (List.map_zipWith ..)
  rw [hslots]
  refine toList_overlay ?_
  rw [hlength, List.flatMap_def, w.share_snd hlen, hlen]

namespace Twin

omit [Payload M] in
/-- Twins go on the same errands. -/
theorem gatherErrands_eq (t : Twin e e') (hn : n.topology.size = e.slots.size) :
    e'.gatherErrands n = e.gatherErrands n := by
  rw [Engine.gatherErrands_eq hn, Engine.gatherErrands_eq (hn.trans t.size_slots.symm), t.program,
    t.prototype, t.context_eq]
  exact t.map_share_snd n.vertices (e.program.gatherAll e.prototype (e.context n))

/-- Twins come to the same while they gather, if the order of it does not matter. -/
theorem run_gatherErrands (t : Twin e e') (hn : n.topology.size = e.slots.size)
    (hle : n.topology.size ≤ UInt32.size) {picks picks' : List Nat}
    (order : e.program.SameTakes e.options.workers picks picks') :
    Errand.run e'.accumulator picks' (e'.gatherErrands n) =
      Errand.run e.accumulator picks (e.gatherErrands n) := by
  rw [t.gatherErrands_eq hn, t.accumulator]
  have h := Errand.interleaved_run e.accumulator picks (e.gatherErrands n)
  have h' := Errand.interleaved_run e.accumulator picks' (e.gatherErrands n)
  rcases order with (alone | rfl) | silent
  · have hlength : (e.gatherErrands n).length ≤ 1 := by
      rw [gatherErrands, List.length_map, t.wellShaped.length_share (length_occupants hn)]
      exact t.wellShaped.length_workers_le_one alone
    obtain ⟨haccumulator, hresults⟩ := h.eq_of_length_le_one hlength h'
    exact Prod.ext haccumulator hresults
  · rfl
  · -- each errand finds what was pending at first, under either order
    have only : ∀ errand ∈ e.gatherErrands n, errand.OnlyTakes := by
      intro errand herrand
      obtain ⟨share, -, rfl⟩ := List.mem_map.1 herrand
      exact VertexProgram.onlyTakes_gatherAll silent ..
    have nodup := t.wellShaped.nodup_takenOn hn hle e.accumulator.peek
    obtain ⟨hresults, hpeek⟩ := h.of_onlyTakes only nodup fun _ _ => rfl
    obtain ⟨hresults', hpeek'⟩ := h'.of_onlyTakes only nodup fun _ _ => rfl
    refine Prod.ext (Accumulator.eq_of_peek_eq (h'.size_eq.trans h.size_eq.symm) ?_ fun v => ?_)
      (hresults'.trans hresults.symm)
    · rw [h'.size_eq]
      exact t.wellShaped.size_accumulator_le hn hle
    · rw [hpeek, hpeek']

end Twin

/-- What a gather phase leaves of twins. -/
structure SameGather (t t' : Engine S D M G × Option Failure) : Prop where
  twin : Twin t.1 t'.1
  workers : t'.1.workers = t.1.workers
  failure : t'.2 = t.2
  /-- Workers that fail leave some of their slots as they were. -/
  slots : t.2 = none → t'.1.slots = t.1.slots

/-- **Twins gather alike**, whatever the program does meanwhile. -/
theorem Twin.gatherPhase (t : Twin e e') (hn : n.topology.size = e.slots.size)
    (hle : n.topology.size ≤ UInt32.size) {picks picks' : List Nat}
    (order : e.program.SameTakes e.options.workers picks picks') :
    SameGather (e.gatherPhase n picks) (e'.gatherPhase n picks') := by
  have hn' : n.topology.size = e'.slots.size := hn.trans t.size_slots.symm
  have hrun := t.run_gatherErrands hn hle order
  have hgathered : e'.gatheredBy n picks' = e.gatheredBy n picks := congrArg Prod.snd hrun
  have hshape := t.wellShaped.sameShape_gatherPhase hn picks
  have hshape' := t.wellShaped'.sameShape_gatherPhase hn' picks'
  have hworkers : (e'.gatherPhase n picks').1.workers = (e.gatherPhase n picks).1.workers := by
    rw [t.wellShaped.workers_gatherPhase hn, t.wellShaped'.workers_gatherPhase hn', hgathered,
      t.workers]
  have hfailure : (e'.gatherPhase n picks').2 = (e.gatherPhase n picks).2 := by
    have h : ∀ (e : Engine S D M G) (picks : List Nat), (e.gatherPhase n picks).2 =
        firstFailure ((e.gatheredBy n picks).map fun g => g.failure.map .fault) := fun _ _ => rfl
    rw [h, h, hgathered]
  exact
    { twin :=
        { wellShaped := t.wellShaped.of_sameShape hshape
          program := t.program
          prototype := t.prototype
          maxRounds := t.maxRounds
          numWorkers := t.numWorkers
          size_slots := by rw [hshape.size_slots, hshape'.size_slots, t.size_slots]
          workers := by rw [hworkers]
          accumulator := congrArg Prod.fst hrun
          phase := t.phase
          round := t.round
          signals := t.signals }
      workers := hworkers
      failure := hfailure
      slots := fun ok => Array.toList_inj.1 <| by
        rw [t.wellShaped.toList_slots_gatherPhase hn ok,
          t.wellShaped'.toList_slots_gatherPhase hn' (hfailure.trans ok), hgathered] }

end Gather

end Engine

/-! ### Applying -/

namespace VertexProgram

variable {p : VertexProgram S D M G} {prototype : S}

/-- Two states that scatter alike. -/
structure ScattersAs (p : VertexProgram S D M G) (state state' : S) : Prop where
  links : ∀ c v, p.scatterLinks c v state' = p.scatterLinks c v state
  signals : ∀ c v link, p.scatter c v link state' = p.scatter c v link state
  aside : ∀ c v, p.asides.scatterLinks c v state' = p.asides.scatterLinks c v state
  fault : ∀ c v link, p.asides.scatter c v link state' = p.asides.scatter c v link state

theorem ScattersAs.sends_eq {state state' : S} (h : p.ScattersAs state state') (c : Context)
    (v : Vertex D) : p.sends c v state' = p.sends c v state := by
  simp only [sends, h.links, h.signals, h.aside, h.fault]

/-- What is loaded from the bytes of a state scatters as the state itself. -/
def Restores (p : VertexProgram S D M G) (prototype state : S) : Prop :=
  ∃ bytes restored, p.save state = .ok bytes ∧ p.load bytes prototype = .ok restored ∧
    p.ScattersAs state restored

/-- All that scatter makes of a slot, whatever it is told. -/
def voice (p : VertexProgram S D M G) (prototype : S) (slot : Slot S G) (c : Context)
    (v : Vertex D) : Except Error (Aside M) :=
  p.outgoing prototype c (v, slot)

/-- A state that can be restored says the same whether it was parked or not. -/
theorem Restores.voice_eq {state : S} (h : p.Restores prototype state) :
    ∃ bytes, p.save state = .ok bytes ∧ ∀ total : G,
      p.voice prototype (.parked bytes) = p.voice prototype (.live state total) := by
  obtain ⟨bytes, restored, hs, hl, halike⟩ := h
  refine ⟨bytes, hs, fun total => funext fun c => funext fun v => ?_⟩
  have hrevive : p.revive prototype (.parked bytes : Slot S G) = .ok (some restored) := by
    rw [revive, hl]
    rfl
  rw [voice, outgoing, hrevive]
  exact congrArg Except.ok (halike.sends_eq c v)

/-- Slots with the same voices send the same from the same vertices. -/
theorem map_outgoing_of_voice {slots slots' : List (Slot S G)}
    (h : slots'.map (p.voice prototype) = slots.map (p.voice prototype)) (c : Context)
    (vertices : List (Vertex D)) :
    (vertices.zip slots').map (p.outgoing prototype c) =
      (vertices.zip slots).map (p.outgoing prototype c) := by
  have hvoice : ∀ slots : List (Slot S G), (vertices.zip slots).map (p.outgoing prototype c) =
      vertices.zipWith (fun v voice => voice c v) (slots.map (p.voice prototype)) := by
    intro slots
    rw [List.zipWith_map_right, List.zip, List.map_zipWith]
    rfl
  rw [hvoice, hvoice, h]

end VertexProgram

/-- What a worker leaves behind, its slots as scatter hears them. -/
def Applied.heard (a : Applied S D M G) (p : VertexProgram S D M G) (prototype : S) :
    List (Signal M) × List D × List (Context → Vertex D → Except Error (Aside M)) ×
      Option Failure :=
  (a.signals, a.values, a.slots.map (p.voice prototype), a.failure)

theorem Applied.heard_cons (signals : List (Signal M)) (value : D) (slot : Slot S G)
    (rest : Applied S D M G) (p : VertexProgram S D M G) (prototype : S) :
    (rest.cons signals value slot).heard p prototype =
      (signals ++ (rest.heard p prototype).1, value :: (rest.heard p prototype).2.1,
        p.voice prototype slot :: (rest.heard p prototype).2.2.1,
        (rest.heard p prototype).2.2.2) := rfl

/-- **Nobody hears whether a worker parks its states**, if all that it parks can be restored. -/
theorem VertexProgram.heard_applyAll {p : VertexProgram S D M G} {prototype : S} {c : Context}
    {items : List (Vertex D × Slot S G)}
    (restores : ∀ state ∈ p.finished c items, p.Restores prototype state) (persist : Bool) :
    (p.applyAll c persist items).heard p prototype =
      (p.applyAll c false items).heard p prototype := by
  induction items with
  | nil => rfl
  | cons item items ih =>
    obtain ⟨v, slot⟩ := item
    cases slot with
    | idle =>
      show Applied.heard (.cons [] v.value .idle _) .. = Applied.heard (.cons [] v.value .idle _) ..
      rw [Applied.heard_cons, Applied.heard_cons, ih restores]
    | parked bytes =>
      show Applied.heard (.cons [] v.value (.parked bytes) _) .. =
        Applied.heard (.cons [] v.value (.parked bytes) _) ..
      rw [Applied.heard_cons, Applied.heard_cons, ih restores]
    | live state total =>
      rw [finished] at restores
      rw [applyAll, applyAll]
      generalize p.attempt c v state total = attempt at restores ⊢
      obtain ⟨signals, state, value, _ | fault⟩ := attempt
      · have ih := ih fun state hstate => restores state (List.mem_cons_of_mem _ hstate)
        obtain ⟨bytes, hsave, hvoice⟩ := (restores state List.mem_cons_self).voice_eq
        cases persist with
        | false => rfl
        | true =>
          simp only [hsave, if_true, Bool.false_eq_true, if_false, Applied.heard_cons, ih,
            hvoice total]
      · rfl

namespace Engine

section Apply

variable [Payload M] {e e' : Engine S D M G} {n : Network D}

/-- What is to be delivered while totals are applied. None of it is counted. -/
def appliedLanes (e : Engine S D M G) (n : Network D) : List (List (Signal M) × Bool) :=
  (e.appliedBy n).map fun a => (a.signals, false)

omit [Payload M] in
theorem WellShaped.length_appliedLanes (w : WellShaped e) (hn : n.topology.size = e.slots.size) :
    (e.appliedLanes n).length = e.workers.length := by
  rw [appliedLanes, appliedBy, List.length_map, List.length_map,
    w.length_share (length_occupants hn)]

omit [Payload M] in
theorem target_lt_of_mem_appliedLanes {lane : List (Signal M) × Bool}
    (h : lane ∈ e.appliedLanes n) :
    ∀ signal ∈ lane.1, signal.target.toNat < e.accumulator.size := by
  rw [appliedLanes, appliedBy, List.map_map] at h
  obtain ⟨share, -, rfl⟩ := List.mem_map.1 h
  exact fun signal hs => VertexProgram.target_lt_of_mem_applyAll hs

theorem workers_deliverLanes_applied (e e' : Engine S D M G) (n : Network D) (picks : List Nat) :
    (e.deliverLanes picks (e'.appliedLanes n)).workers = e.workers := by
  refine workers_deliverLanes_unmarked e picks fun lane hlane => ?_
  obtain ⟨a, -, rfl⟩ := List.mem_map.1 hlane
  rfl

/-- It cannot be heard whether two engines save their states: they agree on it, or every state that
reaches the end of apply can be restored. -/
def KeepsVoices (e e' : Engine S D M G) (n : Network D) : Prop :=
  e'.options.persist = e.options.persist ∨ ∀ share ∈ e.share (e.occupants n),
    ∀ state ∈ e.program.finished (e.context n) share.2, e.program.Restores e.prototype state

omit [Payload M] in
/-- Twins make the same of their shares, as far as it is heard. -/
theorem Twin.map_heard_appliedBy {β : Type} (t : Twin e e') (hworkers : e'.workers = e.workers)
    (hslots : e'.slots = e.slots) (kept : KeepsVoices e e' n) (f : _ → β) :
    (e'.appliedBy n).map (fun a => f (a.heard e.program e.prototype)) =
      (e.appliedBy n).map fun a => f (a.heard e.program e.prototype) := by
  have hshare : e'.share (e'.occupants n) = e.share (e.occupants n) := by
    rw [share, share, occupants, occupants, hworkers, hslots, t.numWorkers]
  rw [appliedBy, appliedBy, hshare, t.program, t.context_eq, List.map_map, List.map_map]
  refine List.map_congr_left fun share hmem => congrArg f ?_
  rcases kept with same | restores
  · rw [same]
  · rw [VertexProgram.heard_applyAll (restores share hmem) e'.options.persist,
      VertexProgram.heard_applyAll (restores share hmem) e.options.persist]

/-- What an apply phase leaves of twins: slots that say the same, and otherwise twins. -/
structure SameApply (t t' : Engine S D M G × List D × Option Failure) : Prop where
  twin : Twin t.1 t'.1
  workers : t'.1.workers = t.1.workers
  voices : t'.1.slots.toList.map (t.1.program.voice t.1.prototype) =
    t.1.slots.toList.map (t.1.program.voice t.1.prototype)
  values : t'.2.1 = t.2.1
  failure : t'.2.2 = t.2.2

/-- **Twins with the same slots apply alike.** If one of them saves states and the other does not,
those that reach the end have to be restored. -/
theorem Twin.applyPhase (t : Twin e e') (hworkers : e'.workers = e.workers)
    (hslots : e'.slots = e.slots) (hn : n.topology.size = e.slots.size)
    (hle : n.topology.size ≤ UInt32.size) (kept : KeepsVoices e e' n)
    {picks picks' : List Nat} (order : SameDeliveries M e.options.workers picks picks') :
    SameApply (e.applyPhase n picks) (e'.applyPhase n picks') := by
  have hlanes : e'.appliedLanes n = e.appliedLanes n :=
    t.map_heard_appliedBy hworkers hslots kept fun heard => (heard.1, false)
  have hdelivery : SameDelivery (e.deliverLanes picks (e.appliedLanes n))
      (e'.deliverLanes picks' (e'.appliedLanes n)) := by
    rw [hlanes]
    exact t.deliverLanes hworkers (t.wellShaped.size_accumulator_le hn hle)
      (fun lane => target_lt_of_mem_appliedLanes)
      ((t.wellShaped.length_appliedLanes hn).symm ▸ t.wellShaped.sameDeliveries order)
  have hvoices : ((e'.appliedBy n).flatMap Applied.slots).map (e.program.voice e.prototype) =
      ((e.appliedBy n).flatMap Applied.slots).map (e.program.voice e.prototype) := by
    rw [List.map_flatMap, List.map_flatMap]
    exact congrArg List.flatten
      (t.map_heard_appliedBy hworkers hslots kept fun heard => heard.2.2.1)
  exact
    { twin := hdelivery.twin.overlaid _ _
      workers := by
        show (e'.deliverLanes picks' (e'.appliedLanes n)).workers =
          (e.deliverLanes picks (e.appliedLanes n)).workers
        rw [workers_deliverLanes_applied, workers_deliverLanes_applied, hworkers]
      voices := by
        show (overlay e'.slots _).toList.map _ = (overlay e.slots _).toList.map _
        rw [hslots]
        exact map_overlay_congr e.slots hvoices
      values := congrArg List.flatten
        (t.map_heard_appliedBy hworkers hslots kept fun heard => heard.2.1)
      failure := congrArg firstFailure
        (t.map_heard_appliedBy hworkers hslots kept fun heard => heard.2.2.2) }

end Apply

section Scatter

variable [Payload M] {e e' : Engine S D M G} {n : Network D}

/-- What is to be delivered in a scatter phase. What failing workers sent is not counted. -/
def scatteredLanes (e : Engine S D M G) (n : Network D) : List (List (Signal M) × Bool) :=
  (e.scatteredBy n).map fun s => (s.signals, s.failure.isNone)

omit [Payload M] in
theorem WellShaped.length_scatteredLanes (w : WellShaped e) (hn : n.topology.size = e.slots.size) :
    (e.scatteredLanes n).length = e.workers.length := by
  rw [scatteredLanes, scatteredBy, List.length_map, List.length_map,
    w.length_share (length_occupants hn)]

omit [Payload M] in
theorem target_lt_of_mem_scatteredLanes {lane : List (Signal M) × Bool}
    (h : lane ∈ e.scatteredLanes n) :
    ∀ signal ∈ lane.1, signal.target.toNat < e.accumulator.size := by
  rw [scatteredLanes, scatteredBy, List.map_map] at h
  obtain ⟨share, -, rfl⟩ := List.mem_map.1 h
  exact fun signal hs => VertexProgram.target_lt_of_mem_scatterAll hs

/-- All of it is counted if nobody fails. -/
theorem snd_of_mem_scatteredLanes {picks : List Nat} (ok : (e.scatterPhase n picks).2 = none)
    {lane : List (Signal M) × Bool} (h : lane ∈ e.scatteredLanes n) : lane.2 = true := by
  obtain ⟨s, hs, rfl⟩ := List.mem_map.1 h
  have hnone := eq_none_of_firstFailure ok _ (List.mem_map_of_mem hs)
  rw [hnone, Option.isNone_none]

/-- What a scatter phase leaves of twins. -/
structure SameScatter (t t' : Engine S D M G × Option Failure) : Prop extends
    SameDelivery t.1 t'.1 where
  failure : t'.2 = t.2
  numActivated : t.2 = none → t'.1.numActivated = t.1.numActivated

omit [Payload M] in
/-- Twins scatter alike if the same is to be sent. -/
theorem Twin.map_scatteredBy {β : Type} (t : Twin e e') (hw : e'.workers = e.workers)
    (hout : (e'.occupants n).map (e.program.outgoing e.prototype (e.context n)) =
      (e.occupants n).map (e.program.outgoing e.prototype (e.context n)))
    {f : Scattered S M G → β}
    (hf : ∀ s s', s.signals = s'.signals → s.failure = s'.failure → f s = f s') :
    (e'.scatteredBy n).map f = (e.scatteredBy n).map f := by
  have hshare : e'.share ((e'.occupants n).map
      (e.program.outgoing e.prototype (e.context n))) =
      e.share ((e.occupants n).map (e.program.outgoing e.prototype (e.context n))) := by
    rw [share, share, hout, hw, t.size_slots, t.numWorkers]
  have houtgoing := congrArg (List.map Prod.snd) hshare
  rw [share_map, share_map, List.map_map, List.map_map] at houtgoing
  rw [scatteredBy, scatteredBy, t.program, t.prototype, t.context_eq, List.map_map, List.map_map]
  refine map_eq_map_of_factors (fun share share' h => ?_) houtgoing
  obtain ⟨hsignals, hfailure⟩ := VertexProgram.scatterAll_congr h
  exact hf _ _ hsignals hfailure

theorem Twin.scatterPhase (t : Twin e e') (hw : e'.workers = e.workers)
    (hn : n.topology.size = e.slots.size) (hle : n.topology.size ≤ UInt32.size)
    (hout : (e'.occupants n).map (e.program.outgoing e.prototype (e.context n)) =
      (e.occupants n).map (e.program.outgoing e.prototype (e.context n)))
    {picks picks' : List Nat} (order : SameDeliveries M e.options.workers picks picks') :
    SameScatter (e.scatterPhase n picks) (e'.scatterPhase n picks') := by
  have hlanes : e'.scatteredLanes n = e.scatteredLanes n :=
    t.map_scatteredBy hw hout fun s s' hs hf => by rw [hs, hf]
  have hfailures : (e'.scatteredBy n).map Scattered.failure =
      (e.scatteredBy n).map Scattered.failure := t.map_scatteredBy hw hout fun s s' _ hf => hf
  have hlength := t.wellShaped.length_scatteredLanes hn
  have hacc := t.wellShaped.size_accumulator_le hn hle
  have order : SameDeliveries M (e.scatteredLanes n).length picks picks' :=
    hlength.symm ▸ t.wellShaped.sameDeliveries order
  have hdelivery : SameDelivery (e.deliverLanes picks (e.scatteredLanes n))
      (e'.deliverLanes picks' (e'.scatteredLanes n)) := by
    rw [hlanes]
    exact t.deliverLanes hw hacc (fun lane => target_lt_of_mem_scatteredLanes) order
  exact
    { twin := hdelivery.twin.overlaid _ _
      numActive := hdelivery.numActive
      numSent := hdelivery.numSent
      failure := congrArg firstFailure hfailures
      numActivated := fun ok => by
        show (e'.deliverLanes picks' (e'.scatteredLanes n)).numActivated =
          (e.deliverLanes picks (e.scatteredLanes n)).numActivated
        rw [hlanes]
        exact t.numActivated_deliverLanes hw hacc (fun lane => target_lt_of_mem_scatteredLanes)
          hlength (fun lane => snd_of_mem_scatteredLanes ok) order }

end Scatter

end Engine

end Superstep
