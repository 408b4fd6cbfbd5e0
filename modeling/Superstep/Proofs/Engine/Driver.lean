import Mathlib.Order.Bounds.Basic
import Superstep.Proofs.Engine.Unordered

/-!
# What drives the rounds

A step either is refused, or finds the cap reached, or finds nothing pending, or fails in a phase,
or completes a round. `StepEnds` says what each of these leaves behind, for every well-shaped engine
whose program only scatters, and everything below is read off it. What is sent is taken to fit what
is pending, so that a delivery does not fail where it merges.

Between operations an engine is `InOrder`: its round is within the cap, and its slots are idle
unless the phase shows that a round has failed halfway. A failed phase is only ever left by a step
that starts the next round, or by making the engine anew.

A run repeats the step. If none fails, it stops at the first number of rounds behind which the cap
is reached or nothing is pending, and this is the number of rounds that it reports.

## Main definitions

* `Engine.StepEnds`: how a step ends
* `Engine.InOrder`: what holds of an engine between operations
* `Engine.stepped`: engine and graph behind a number of steps
* `Engine.StopsBehind`: a run that stops behind a number of rounds

## Main results

* `Engine.Regular.stepEnds`: every step ends in one of these ways
* `Engine.Reachable.inOrder`: operations keep an engine in order
* `Engine.Regular.exists_stopsBehind`: a run in which no step fails stops as soon as it can
-/

namespace Superstep

variable {S D M G : Type}

/-! ### Counting what is pending -/

namespace Accumulator

variable {a : Accumulator M}

/-- The slots in use, counted vertex by vertex, as far as vertices reach. -/
theorem numPending_eq_countP (h : a.size ≤ UInt32.size) :
    a.numPending =
      ((List.range a.size).map UInt32.ofNat).countP fun v => (a.peek v).isSome := by
  have hslots : a.slots.toList = ((List.range a.size).map UInt32.ofNat).map a.peek := by
    refine List.ext_getElem (by simp [size]) fun i hi _ => ?_
    have hlt : i < UInt32.size := Nat.lt_of_lt_of_le (by simpa [size] using hi) h
    have hsize : i < a.slots.size := by simpa using hi
    simp [peek, UInt32.toNat_ofNat_of_lt' hlt, hsize]
  rw [numPending, ← Array.countP_toList, hslots, List.countP_map]
  rfl

theorem numPending_eq_zero_iff (h : a.size ≤ UInt32.size) :
    a.numPending = 0 ↔ ∀ v, a.peek v = none := by
  rw [numPending_eq_countP h, List.countP_eq_zero]
  constructor
  · intro hnone v
    by_cases hv : v.toNat < a.size
    · simpa using hnone v (mem_map_ofNat_range.2 hv)
    · exact peek_eq_none_of_size_le (Nat.le_of_not_lt hv)
  · intro hnone v _
    simp [hnone v]

end Accumulator

/-! ### Workers that did not fail -/

/-- If there is no fault, all signals are delivered. -/
theorem eq_of_deliverable {numSlots : Nat} {signals sent : List (Signal M)} {fault : Option Fault}
    (h : deliverable numSlots signals fault = (sent, none)) : sent = signals ∧ fault = none := by
  obtain ⟨rfl, hfault⟩ := Prod.mk.inj h
  rw [Option.or_eq_none_iff, Option.map_eq_none_iff, List.head?_eq_none_iff] at hfault
  have happend := List.takeWhile_append_dropWhile
    (p := fun signal : Signal M => decide (signal.target.toNat < numSlots)) (l := signals)
  rw [hfault.1, List.append_nil] at happend
  exact ⟨happend, hfault.2⟩

namespace VertexProgram

variable {p : VertexProgram S D M G} {prototype : S} {c : Context}

/-- A worker that did not fail has saved every state that it applied. -/
theorem exists_save_of_applyAll (only : p.OnlyScatters) {items : List (Vertex D × Slot S G)}
    (h : (p.applyAll c true items).failure = none) {v : Vertex D} {state : S} {total : G}
    (hm : (v, .live state total) ∈ items) :
    ∃ bytes, p.save (p.apply c v.site total state v.value).1 = .ok bytes := by
  induction items with
  | nil => cases hm
  | cons item items ih =>
    obtain ⟨w, slot⟩ := item
    cases slot with
    | idle =>
      rcases List.mem_cons.1 hm with heq | hm
      · cases heq
      · exact ih h hm
    | parked bytes =>
      rcases List.mem_cons.1 hm with heq | hm
      · cases heq
      · exact ih h hm
    | live state' total' =>
      simp only [applyAll, only.attempt_eq, if_pos] at h
      cases hsave : p.save (p.apply c w.site total' state' w.value).1 with
      | error cause =>
        rw [hsave] at h
        cases h
      | ok bytes =>
        rw [hsave] at h
        rcases List.mem_cons.1 hm with heq | hm
        · cases heq
          exact ⟨bytes, hsave⟩
        · exact ih h hm

/-- What a slot sends, if it can be said and nothing breaks off, is what its state sends. -/
theorem signalsIn_of_faultless (only : p.OnlyScatters) {item : Vertex D × Slot S G}
    {sends : Aside M} (h : p.outgoing prototype c item = .ok sends) (hfault : sends.fault = none) :
    p.signalsIn prototype c item = sends.signals := by
  rw [outgoing] at h
  rw [signalsIn]
  cases hr : p.revive prototype item.2 with
  | error cause =>
    rw [hr] at h
    cases h
  | ok state =>
    rw [hr] at h
    obtain rfl := Except.ok.inj h
    cases state with
    | none => rfl
    | some state => exact (congrArg Aside.signals (only.sends_eq hfault)).symm

/-- A worker that did not fail has sent what its items are to send, and leaves all of its slots
idle. -/
theorem scatterAll_of_none (only : p.OnlyScatters) {items : List (Vertex D × Slot S G)}
    (h : (p.scatterAll prototype c items).failure = none) :
    p.scatterAll prototype c items =
      ⟨items.flatMap (p.signalsIn prototype c), items.map fun _ => .idle, none⟩ := by
  induction items with
  | nil => rfl
  | cons item items ih =>
    rw [scatterAll_cons] at h ⊢
    cases hitem : p.outgoing prototype c item with
    | error cause =>
      rw [hitem] at h
      cases h
    | ok sends =>
      simp only [hitem] at h ⊢
      split at h
      · rename_i sent hsent
        obtain ⟨rfl, hfault⟩ := eq_of_deliverable hsent
        rw [ih h, List.flatMap_cons, signalsIn_of_faultless only hitem hfault]
        rfl
      · cases h

end VertexProgram

namespace Engine

variable {e : Engine S D M G} {g : Graph D}

/-- No slot holds a state. -/
def AllIdle (e : Engine S D M G) : Prop := ∀ slot ∈ e.slots, slot = .idle

theorem allIdle_of_toList {α : Type} (items : List α)
    (h : e.slots.toList = items.map fun _ => .idle) : e.AllIdle := by
  intro slot hslot
  rw [← Array.mem_toList_iff, h] at hslot
  obtain ⟨-, -, rfl⟩ := List.mem_map.1 hslot
  rfl

/-- Why a scatter phase did not fail: no worker did. -/
theorem scatterAll_of_scatterPhase [Payload M] (only : e.program.OnlyScatters) {n : Network D}
    {picks : List Nat} (h : (e.scatterPhase n picks).2 = none)
    {share : Worker × List (Vertex D × Slot S G)}
    (hshare : share ∈ e.share (e.occupants n)) :
    e.program.scatterAll e.prototype (e.context n) share.2 =
      ⟨share.2.flatMap (e.program.signalsIn e.prototype (e.context n)),
        share.2.map fun _ => .idle, none⟩ :=
  VertexProgram.scatterAll_of_none only
    (eq_none_of_firstFailure h _ (List.mem_map_of_mem (List.mem_map_of_mem hshare)))

/-- What the workers of a scatter phase send, share by share. -/
def lanes (e : Engine S D M G) (n : Network D) : List (List (Signal M) × Bool) :=
  (e.share (e.occupants n)).map fun share =>
    (share.2.flatMap (e.program.signalsIn e.prototype (e.context n)), true)

/-- **A scatter phase that did not fail** has delivered all signals and leaves all slots idle. -/
theorem Regular.scatterPhase_of_none [Payload M] (w : Regular e) {n : Network D}
    (hn : n.topology.size = e.slots.size) {picks : List Nat}
    (h : (e.scatterPhase n picks).2 = none) :
    (e.scatterPhase n picks).1 =
      { e.deliverLanes picks (e.lanes n) with
        slots := overlay e.slots ((e.occupants n).map fun _ => .idle) } := by
  have hall : e.scatteredBy n = (e.share (e.occupants n)).map fun share =>
      ⟨share.2.flatMap (e.program.signalsIn e.prototype (e.context n)),
        share.2.map fun _ => .idle, none⟩ :=
    List.map_congr_left fun share hshare => scatterAll_of_scatterPhase w.only h hshare
  simp only [scatterPhase, hall, List.flatMap_map, List.map_map, w.map_share (length_occupants hn)]
  rfl

theorem Regular.allIdle_scatterPhase [Payload M] (w : Regular e) {n : Network D}
    (hn : n.topology.size = e.slots.size) {picks : List Nat}
    (h : (e.scatterPhase n picks).2 = none) : (e.scatterPhase n picks).1.AllIdle := by
  refine allIdle_of_toList (e.occupants n) ?_
  rw [w.scatterPhase_of_none hn h]
  exact toList_overlay (by rw [List.length_map, length_occupants hn])

section Gather

variable [Payload M] [Payload G] [Inhabited G]

/-- An apply phase that did not fail has saved every state that it left. -/
theorem Regular.exists_save_of_applyPhase (w : Regular e) (hf : g.finalized = true)
    (hs : g.numVertices = e.accumulator.size) {picks picks' : List Nat}
    (h : ((e.gathered (g.network hf) picks).applyPhase (g.network hf) picks').2.2 = none) :
    e.options.persist = true → ∀ state, e.LeftByApply g state →
      ∃ bytes, e.program.save state = .ok bytes := by
  intro hpersist state hleft
  obtain ⟨_, v, payload, _, _, hv, hp, rfl⟩ := hleft
  have hn := w.topology_size hf hs
  have hshape := w.sameShape_gathered hn picks
  have hlen := length_occupants (e := e.gathered (g.network hf) picks)
    (hn.trans hshape.size_slots.symm)
  have hmem : (v, e.started (g.network hf) v) ∈
      (e.gathered (g.network hf) picks).occupants (g.network hf) := by
    rw [w.occupants_gathered hn (g.topology_size_le hf)]
    exact List.mem_map_of_mem (hv ▸ Network.mem_vertices v)
  obtain ⟨share, hshare, hmem⟩ := (w.toWellShaped.of_sameShape hshape).exists_share_of_mem hlen hmem
  rw [started_of_some hp] at hmem
  have hnone := eq_none_of_firstFailure h _ (List.mem_map_of_mem (List.mem_map_of_mem hshare))
  rw [context_gathered, show (e.gathered (g.network hf) picks).options = e.options from rfl,
    hpersist] at hnone
  exact VertexProgram.exists_save_of_applyAll w.only hnone hmem

/-- If nobody takes part, gathering changes figures only and leaves all slots idle. -/
theorem Regular.gatherPhase_of_quiet (w : Regular e) {n : Network D}
    (hn : n.topology.size = e.slots.size) (hle : n.topology.size ≤ UInt32.size)
    (quiet : ∀ v, e.accumulator.peek v = none) (picks : List Nat) :
    (e.gatherPhase n picks).1.accumulator = e.accumulator ∧
      (e.gatherPhase n picks).1.AllIdle := by
  refine ⟨w.accumulator_gatherPhase_of_quiet hn hle quiet picks,
    allIdle_of_toList n.vertices ?_⟩
  rw [w.slots_gatherPhase hn hle]
  exact List.map_congr_left fun v _ => started_of_none (quiet v.id)

end Gather

/-! ### How a step ends -/

section Step

variable [Payload M] [Payload G] [Inhabited G] {schedule : Schedule}

/-- How a step ends: what it leaves behind, in each case. -/
inductive StepEnds (e : Engine S D M G) (g : Graph D) (schedule : Schedule)
    (o : Outcome S D M G Bool) : Prop
  /-- The graph does not fit. -/
  | refused {failure : Failure}
      (outcome : o = { engine := e, graph := g, result := .error failure })
  /-- The cap was reached before. -/
  | capped (cap : e.options.maxRounds ≤ e.round)
      (outcome : o = { engine := { e with phase := .done }, graph := g, result := .ok false })
  /-- Nothing is pending. -/
  | quiet (below : e.round < e.options.maxRounds) (quiet : e.accumulator.numPending = 0)
      (accumulator : o.engine.accumulator = e.accumulator) (allIdle : o.engine.AllIdle)
      (phase : o.engine.phase = .done) (round : o.engine.round = e.round)
      (signals : o.engine.signals = e.signals) (graph : o.graph = g) (events : o.events = [])
      (result : o.result = .ok false)
  /-- A phase failed. -/
  | failed {failure : Failure} (below : e.round < e.options.maxRounds)
      (phase : o.engine.phase = .apply ∨ o.engine.phase = .scatter)
      (round : o.engine.round = e.round) (signals : o.engine.signals = e.signals)
      (events : o.events = []) (result : o.result = .error failure)
  /-- A round was completed. -/
  | completed (hf : g.finalized = true) (fits : g.numVertices = e.accumulator.size)
      (below : e.round < e.options.maxRounds) (loud : 0 < e.accumulator.numPending)
      (saves : e.options.persist = true → ∀ state, e.LeftByApply g state →
        ∃ bytes, e.program.save state = .ok bytes)
      (scattered : (e.behindScatter g hf schedule).2 = none)
      (allIdle : (e.behindScatter g hf schedule).1.AllIdle)
      (outcome : o =
        { engine := (e.behindScatter g hf schedule).1.completeRound
          graph := g.overwrite ((e.tableau g hf).values e.ideal e.round)
          events := [(e.behindScatter g hf schedule).1.roundEvent]
          result := .ok (decide (e.round + 1 < e.options.maxRounds)) })

/-- A step in which vertices take part fails in a phase or completes a round. -/
theorem Regular.stepEnds_of_loud (w : Regular e) (hf : g.finalized = true)
    (fits : g.numVertices = e.accumulator.size) (below : e.round < e.options.maxRounds)
    (loud : 0 < e.accumulator.numPending)
    (active : (e.gatherPhase (g.network hf) schedule.gather).1.numActive ≠ 0) :
    StepEnds e g schedule (e.step g schedule) := by
  have hn := w.topology_size hf fits
  have hshape := w.sameShape_applied hn schedule
  cases hfailure : ((e.gathered (g.network hf) schedule.gather).applyPhase (g.network hf)
      schedule.apply).2.2 with
  | some failure =>
    rw [step_eq_stepOn hf fits, w.stepOn_eq_enterApply hf below,
      enterApply_of_active hf (w.gatherPhase_snd hn (g.topology_size_le hf) _) active]
    simp only [hfailure]
    exact .failed below (.inl rfl) rfl rfl rfl rfl
  | none =>
    have saves := w.exists_save_of_applyPhase hf fits hfailure
    have hstep : e.step g schedule = conclude _ (e.behindScatter g hf schedule) :=
      w.step_of_saves hf fits below saves schedule active
    cases hscattered : (e.behindScatter g hf schedule).2 with
    | some failure =>
      have ht : e.behindScatter g hf schedule =
          ((e.behindScatter g hf schedule).1, some failure) := Prod.ext rfl hscattered
      rw [hstep, ht]
      exact .failed below (.inr (phase_behindScatter hf)) (round_behindScatter hf)
        (signals_behindScatter hf) rfl rfl
    | none =>
      rw [hstep, conclude_of_none hscattered, round_behindScatter, options_behindScatter]
      exact .completed hf fits below loud saves hscattered
        ((w.of_sameShape hshape).allIdle_scatterPhase (w.topology_size_applied hf fits _ _)
          hscattered) rfl

/-- **Every step ends in one of these ways.** -/
theorem Regular.stepEnds (w : Regular e) (g : Graph D) (schedule : Schedule) :
    StepEnds e g schedule (e.step g schedule) := by
  cases hr : e.refusal g with
  | some cause =>
    rw [step_of_refusal hr]
    exact .refused rfl
  | none =>
    obtain ⟨hf, fits⟩ := fits_of_refusal hr
    by_cases below : e.round < e.options.maxRounds
    · have hn := w.topology_size hf fits
      have hle := g.topology_size_le hf
      have hzero := Accumulator.numPending_eq_zero_iff (a := e.accumulator) (fits ▸ g.size_le)
      have hactive := w.numActive_eq_zero_iff hn hle schedule.gather
      by_cases hq : e.accumulator.numPending = 0
      · obtain ⟨haccumulator, hidle⟩ :=
          w.gatherPhase_of_quiet hn hle (hzero.1 hq) schedule.gather
        rw [step_eq_stepOn hf fits, w.stepOn_eq_enterApply hf below,
          enterApply_of_idle (w.gatherPhase_snd hn hle _) (hactive.2 (hzero.1 hq))]
        exact .quiet below hq haccumulator hidle rfl rfl rfl rfl rfl rfl
      · exact w.stepEnds_of_loud hf fits below (Nat.pos_of_ne_zero hq) fun h =>
          hq (hzero.2 (hactive.1 h))
    · rw [step_of_cap hf fits (Nat.le_of_not_lt below)]
      exact .capped (Nat.le_of_not_lt below) rfl

/-! ### What the result of a step tells -/

/-- The cap is reached, or nothing is pending. -/
def IsOver (e : Engine S D M G) : Prop :=
  e.options.maxRounds ≤ e.round ∨ e.accumulator.numPending = 0

instance (e : Engine S D M G) : Decidable e.IsOver := inferInstanceAs (Decidable (_ ∨ _))

/-- One round was completed, and told of. -/
structure Advances (e : Engine S D M G) (o : Outcome S D M G Bool) : Prop where
  notOver : ¬ e.IsOver
  round : o.engine.round = e.round + 1
  events : ∃ active signals activated,
    o.events = [.roundComplete e.round active signals activated]

/-- No round was completed, and none told of. -/
structure Stays (e : Engine S D M G) (o : Outcome S D M G Bool) : Prop where
  round : o.engine.round = e.round
  events : o.events = []

/-- Neither the values nor what is pending were touched. -/
structure Untouched (e : Engine S D M G) (g : Graph D) (o : Outcome S D M G Bool) : Prop extends
    Stays e o where
  graph : o.graph = g
  accumulator : o.engine.accumulator = e.accumulator

/-- What the result of a step tells of its outcome. -/
def Tells (e : Engine S D M G) (g : Graph D) (o : Outcome S D M G Bool) :
    Except Failure Bool → Prop
  | .ok true =>
    o.engine.phase = .gather ∧ o.engine.round < o.engine.options.maxRounds ∧ Advances e o
  | .ok false =>
    o.engine.phase = .done ∧
      ((o.engine.round = o.engine.options.maxRounds ∧ Advances e o) ∨
        (e.options.maxRounds ≤ e.round ∧ Untouched e g o) ∨
        (e.accumulator.numPending = 0 ∧ Untouched e g o))
  | .error _ => Stays e o

theorem Regular.tells (w : Regular e) (g : Graph D) (schedule : Schedule) :
    Tells e g (e.step g schedule) (e.step g schedule).result := by
  cases w.stepEnds g schedule with
  | refused outcome =>
    rw [outcome]
    exact ⟨rfl, rfl⟩
  | capped cap outcome =>
    rw [outcome]
    exact ⟨rfl, .inr (.inl ⟨cap, ⟨rfl, rfl⟩, rfl, rfl⟩)⟩
  | quiet below quiet accumulator allIdle phase round signals graph events result =>
    rw [result]
    exact ⟨phase, .inr (.inr ⟨quiet, ⟨round, events⟩, graph, accumulator⟩)⟩
  | failed below phase round signals events result =>
    rw [result]
    exact ⟨round, events⟩
  | completed hf fits below loud saves scattered allIdle outcome =>
    have advances : Advances e
        { engine := (e.behindScatter g hf schedule).1.completeRound
          graph := g.overwrite ((e.tableau g hf).values e.ideal e.round)
          events := [(e.behindScatter g hf schedule).1.roundEvent]
          result := .ok (decide (e.round + 1 < e.options.maxRounds)) } := by
      refine ⟨fun ended => ended.elim (Nat.not_le.2 below) loud.ne', ?_, ?_⟩
      · rw [round_completeRound, round_behindScatter]
      · rw [roundEvent, round_behindScatter]
        exact ⟨_, _, _, rfl⟩
    have hround := advances.round
    rw [outcome]
    by_cases hlt : e.round + 1 < e.options.maxRounds
    · simp only [decide_eq_true hlt] at advances ⊢
      refine ⟨?_, ?_, advances⟩
      · rw [phase_completeRound, round_behindScatter, options_behindScatter,
          if_neg (Nat.not_le.2 hlt)]
      · rwa [hround, options_completeRound, options_behindScatter]
    · simp only [decide_eq_false hlt] at advances ⊢
      have hlast : e.round + 1 = e.options.maxRounds :=
        Nat.le_antisymm below (Nat.le_of_not_lt hlt)
      refine ⟨?_, .inl ⟨?_, advances⟩⟩
      · rw [phase_completeRound, round_behindScatter, options_behindScatter,
          if_pos (Nat.le_of_eq hlast.symm)]
      · rw [hround, options_completeRound, options_behindScatter, hlast]

end Step

/-! ### Between operations -/

/-- What holds of an engine between operations. The last alternative is there because a step at the
cap shows that it is done without looking at the slots. -/
structure InOrder (e : Engine S D M G) : Prop where
  round_le : e.round ≤ e.options.maxRounds
  allIdle : e.phase = .gather ∨ e.phase = .done ∨ e.options.maxRounds ≤ e.round → e.AllIdle

/-- Nothing but slots, phase, round and options count. -/
theorem InOrder.of_eq {e' : Engine S D M G} (h : InOrder e) (slots : e'.slots = e.slots)
    (phase : e'.phase = e.phase) (round : e'.round = e.round) (options : e'.options = e.options) :
    InOrder e' := by
  refine ⟨by rw [round, options]; exact h.round_le, fun hcase => ?_⟩
  rw [phase, round, options] at hcase
  rw [AllIdle, slots]
  exact h.allIdle hcase

theorem inOrder_restarted (e : Engine S D M G) (n : Nat) : InOrder (e.emptied n).restarted where
  round_le := Nat.zero_le _
  allIdle _ := fun _ hslot => (Array.mem_replicate.1 hslot).2

section Operations

variable [Payload M]

theorem InOrder.signal {e' : Engine S D M G} {vertex : VertexId} {payload : M} (h : InOrder e)
    (hsignal : e.signal vertex payload = .ok e') : InOrder e' := by
  rw [Engine.signal] at hsignal
  cases hadd : e.accumulator.add vertex payload with
  | error fault =>
    rw [hadd] at hsignal
    cases hsignal
  | ok answer =>
    rw [hadd] at hsignal
    cases hsignal
    exact h.of_eq rfl rfl rfl rfl

omit [Payload M] in
theorem InOrder.take? {e' : Engine S D M G} {vertex : VertexId} {payload : Option M}
    (h : InOrder e) (htake : e.take? vertex = .ok (payload, e')) : InOrder e' := by
  rw [Engine.take?] at htake
  cases hanswer : e.accumulator.take? vertex with
  | error fault =>
    rw [hanswer] at htake
    cases htake
  | ok answer =>
    rw [hanswer] at htake
    cases htake
    exact h.of_eq rfl rfl rfl rfl

/-- A transformation leaves the run where it is, whatever it answers. -/
theorem InOrder.transform (h : InOrder e) (g : Graph D) (transformation : Transformation D M)
    (picks : List Nat) : InOrder (e.transform g transformation picks).engine := by
  unfold Engine.transform
  split
  · exact h
  · split
    · unfold transformOn
      simp only
      split
      · exact h.of_eq rfl rfl rfl rfl
      · exact h.of_eq rfl rfl rfl rfl
    · exact h

variable [Payload G] [Inhabited G]

/-- **A step leaves an engine in order**, however it ends. -/
theorem InOrder.step (h : InOrder e) (w : Regular e) (g : Graph D) (schedule : Schedule) :
    InOrder (e.step g schedule).engine := by
  have hoptions := (w.sameShape_step g schedule).options
  cases w.stepEnds g schedule with
  | refused outcome =>
    rw [outcome]
    exact h
  | capped cap outcome =>
    rw [outcome]
    exact ⟨h.round_le, fun _ => h.allIdle (.inr (.inr cap))⟩
  | quiet below quiet accumulator allIdle phase round signals graph events result =>
    exact ⟨by rw [round, hoptions]; exact h.round_le, fun _ => allIdle⟩
  | failed below phase round signals events result =>
    -- a phase that failed shows, and the round that it belongs to is below the cap
    refine ⟨by rw [round, hoptions]; exact h.round_le, fun hcase => ?_⟩
    rw [round, hoptions] at hcase
    rcases phase with phase | phase <;> rw [phase] at hcase <;>
      rcases hcase with hcase | hcase | hcase
    all_goals first | cases hcase | exact absurd below (Nat.not_lt.2 hcase)
  | completed hf fits below loud saves scattered allIdle outcome =>
    rw [outcome]
    constructor
    · rw [round_completeRound, round_behindScatter, options_completeRound, options_behindScatter]
      exact below
    · intro _
      rwa [AllIdle, slots_completeRound]

variable [Inhabited M]

/-- **Operations keep an engine in order**, whatever they answer. -/
theorem Reachable.inOrder (reachable : Reachable e) (only : e.program.OnlyScatters) :
    InOrder e := by
  induction reachable with
  | create h =>
    obtain rfl := eq_ofProgram_of_create h
    exact inOrder_restarted _ _
  | @resize e n _ h _ =>
    rw [Engine.resize] at h ⊢
    split at h
    · rename_i ht
      rw [if_pos ht]
      exact inOrder_restarted _ _
    · cases h
  | signal _ h ih => exact (ih ((sameShape_signal h).program ▸ only)).signal h
  | signalAll _ ih => exact (ih only).of_eq rfl rfl rfl rfl
  | take _ h ih => exact (ih ((sameShape_take? h).program ▸ only)).take? h
  | @step e reachable g schedule ih =>
    have only := (reachable.wellShaped.sameShape_step g schedule).program ▸ only
    exact (ih only).step ⟨reachable.wellShaped, only⟩ g schedule
  | @transform e _ g transformation picks ih =>
    have only := (sameShape_transform e g transformation picks).program ▸ only
    exact (ih only).transform g transformation picks

end Operations

/-- The workers' ranges are as long as there are slots, taken together. -/
theorem WellShaped.sum_numVertices (w : WellShaped e) :
    (e.workers.map Worker.numVertices).sum = e.slots.size := by
  have hlengths : e.workers.map Worker.numVertices =
      (e.workers.map Worker.ids).map List.length := by
    rw [List.map_map]
    exact List.map_congr_left fun worker _ => by simp [Worker.ids]
  rw [hlengths, ← List.length_flatten, w.flatten_ids, List.length_map, List.length_range]

/-! ### Runs -/

section Runs

variable [Payload M] [Payload G] [Inhabited G] {schedules : Nat → Schedule}

/-- Engine and graph behind `k` steps. -/
def stepped (e : Engine S D M G) (g : Graph D) (schedules : Nat → Schedule) :
    Nat → Engine S D M G × Graph D
  | 0 => (e, g)
  | k + 1 =>
    let outcome := e.step g (schedules e.round)
    outcome.engine.stepped outcome.graph schedules k

/-- A run that stops behind `k` rounds, as soon as the cap is reached or nothing is pending. -/
structure StopsBehind (e : Engine S D M G) (g : Graph D) (schedules : Nat → Schedule) (k : Nat) :
    Prop where
  result : (e.runRounds g schedules).result = .ok ()
  /-- Behind no smaller number of steps the run could have stopped. -/
  least : IsLeast {k | (e.stepped g schedules k).1.IsOver} k
  /-- Up to there every step completes a round. -/
  rounds : ∀ j ≤ k, (e.stepped g schedules j).1.round = e.round + j
  events : (e.runRounds g schedules).events.length = k
  round : (e.runRounds g schedules).engine.round = e.round + k
  phase : (e.runRounds g schedules).engine.phase = .done
  graph : (e.runRounds g schedules).graph = (e.stepped g schedules k).2
  accumulator : (e.runRounds g schedules).engine.accumulator =
    (e.stepped g schedules k).1.accumulator

/-- A run that is over before it begins. -/
theorem stopsBehind_zero (ended : e.IsOver)
    (phase : (e.step g (schedules e.round)).engine.phase = .done)
    (untouched : Untouched e g (e.step g (schedules e.round)))
    (hr : (e.step g (schedules e.round)).result = .ok false) : StopsBehind e g schedules 0 := by
  have hrun := runRounds_of_last hr
  constructor
  · rw [hrun]
  · exact ⟨ended, fun _ _ => Nat.zero_le _⟩
  · intro j hj
    obtain rfl := Nat.le_zero.1 hj
    rfl
  · rw [hrun, untouched.events]
    rfl
  · rw [hrun, untouched.round]
    rfl
  · rw [hrun, phase]
  · rw [hrun, untouched.graph]
    rfl
  · rw [hrun, untouched.accumulator]
    rfl

/-- A run whose first round is its last one. -/
theorem stopsBehind_one (phase : (e.step g (schedules e.round)).engine.phase = .done)
    (advances : Advances e (e.step g (schedules e.round)))
    (cap : (e.step g (schedules e.round)).engine.round =
      (e.step g (schedules e.round)).engine.options.maxRounds)
    (hr : (e.step g (schedules e.round)).result = .ok false) : StopsBehind e g schedules 1 := by
  have hrun := runRounds_of_last hr
  obtain ⟨active, signals, activated, hevents⟩ := advances.events
  constructor
  · rw [hrun]
  · refine ⟨.inl (Nat.le_of_eq cap.symm), fun j ended => ?_⟩
    cases j with
    | zero => exact absurd ended advances.notOver
    | succ j => exact Nat.succ_pos j
  · intro j hj
    rcases Nat.le_one_iff_eq_zero_or_eq_one.1 hj with rfl | rfl
    · rfl
    · exact advances.round
  · rw [hrun, hevents]
    rfl
  · rw [hrun, advances.round]
  · rw [hrun, phase]
  · rw [hrun]
    rfl
  · rw [hrun]
    rfl

/-- A run that goes on stops one round later than what is left of it. -/
theorem StopsBehind.succ {k : Nat} (advances : Advances e (e.step g (schedules e.round)))
    (hr : (e.step g (schedules e.round)).result = .ok true)
    (rest : StopsBehind (e.step g (schedules e.round)).engine
      (e.step g (schedules e.round)).graph schedules k) : StopsBehind e g schedules (k + 1) := by
  have hrun := runRounds_of_more hr
  obtain ⟨active, signals, activated, hevents⟩ := advances.events
  constructor
  · rw [hrun]
    exact rest.result
  · refine ⟨rest.least.1, fun j ended => ?_⟩
    cases j with
    | zero => exact absurd ended advances.notOver
    | succ j => exact Nat.succ_le_succ (rest.least.2 ended)
  · intro j hj
    cases j with
    | zero => rfl
    | succ j =>
      have hround := rest.rounds j (Nat.le_of_succ_le_succ hj)
      rw [advances.round] at hround
      exact hround.trans (by omega)
  · rw [hrun, hevents, List.length_append, rest.events, List.length_singleton, Nat.add_comm]
  · rw [hrun, rest.round, advances.round]
    omega
  · rw [hrun, rest.phase]
  · rw [hrun, rest.graph]
    rfl
  · rw [hrun, rest.accumulator]
    rfl

/-- **A run in which no step fails stops as soon as it can.** -/
theorem Regular.exists_stopsBehind (w : Regular e)
    (ok : ∀ e' g', StepsFrom schedules e g e' g' →
      ∃ more, (e'.step g' (schedules e'.round)).result = .ok more) :
    ∃ k, StopsBehind e g schedules k := by
  induction e, g using rounds_induction (M := M) (G := G) schedules with
  | step e g ih =>
    have htells := w.tells g (schedules e.round)
    obtain ⟨more, hr⟩ := ok e g (.first e g)
    rw [hr] at htells
    cases more with
    | false =>
      obtain ⟨phase, ⟨cap, advances⟩ | ⟨cap, untouched⟩ | ⟨quiet, untouched⟩⟩ := htells
      · exact ⟨1, stopsBehind_one phase advances cap hr⟩
      · exact ⟨0, stopsBehind_zero (.inl cap) phase untouched hr⟩
      · exact ⟨0, stopsBehind_zero (.inr quiet) phase untouched hr⟩
    | true =>
      obtain ⟨-, -, advances⟩ := htells
      obtain ⟨k, rest⟩ := ih hr (w.of_sameShape (w.sameShape_step g _))
        fun e' g' steps => ok e' g' (.later hr steps)
      exact ⟨k + 1, rest.succ advances hr⟩

/-- If a run does not fail, none of its steps does. -/
theorem ok_of_stepsFrom {e' : Engine S D M G} {g' : Graph D}
    (steps : StepsFrom schedules e g e' g') (h : (e.runRounds g schedules).result = .ok ()) :
    ∃ more, (e'.step g' (schedules e'.round)).result = .ok more := by
  induction steps with
  | first e g =>
    cases hr : (e.step g (schedules e.round)).result with
    | error failure =>
      rw [runRounds_of_error hr] at h
      cases h
    | ok more => exact ⟨more, rfl⟩
  | later more _ ih =>
    rw [runRounds_of_more more] at h
    exact ih h

/-- A run that is over before it begins completes no round. -/
theorem Runnable.round_runRounds_of_over (ready : Runnable e g)
    (ended : e.options.maxRounds ≤ e.round ∨ (e.tableau g ready.finalized).IsQuiet) :
    (e.runRounds g schedules).engine.round = e.round := by
  by_cases cap : e.options.maxRounds ≤ e.round
  · have hstep := step_of_cap ready.finalized ready.size cap (schedules e.round)
    rw [runRounds_of_last (by rw [hstep]), hstep]
  · obtain ⟨-, -, hround, hr⟩ := ready.regular.step_of_isQuiet ready.finalized ready.size
      (Nat.not_le.1 cap) (ended.resolve_left cap) (schedules e.round)
    rw [runRounds_of_last hr, hround]

/-- A run goes no further than to a round behind which nothing is pending. -/
theorem Runnable.round_runRounds_le (ready : Runnable e g) {k : Nat}
    (quiet : ((e.tableau g ready.finalized).rounds e.machine e.round k).IsQuiet) :
    (e.runRounds g schedules).engine.round ≤ e.round + k := by
  -- by induction on the rounds up to there, for all engines and graphs that the run goes through
  induction k generalizing e g with
  | zero => exact Nat.le_of_eq (ready.round_runRounds_of_over (.inr quiet))
  | succ k ih =>
    by_cases ended : e.options.maxRounds ≤ e.round ∨ (e.tableau g ready.finalized).IsQuiet
    · exact Nat.le_trans (Nat.le_of_eq (ready.round_runRounds_of_over ended)) (Nat.le_add_right ..)
    · obtain ⟨cap, active⟩ := not_or.1 ended
      have cap := Nat.not_le.1 cap
      obtain ⟨-, -, hround, hr⟩ := ready.step_of_active cap active (schedules e.round)
      by_cases more : e.round + 1 < e.options.maxRounds
      · rw [decide_eq_true more] at hr
        obtain ⟨next, htableau⟩ := ready.step cap active (schedules e.round)
        have hshape := ready.regular.sameShape_step g (schedules e.round)
        rw [Tableau.rounds_succ, ← htableau, ← hshape.machine_eq, ← hround] at quiet
        rw [runRounds_of_more hr]
        exact Nat.le_trans (ih next quiet) (by omega)
      · rw [decide_eq_false more] at hr
        rw [runRounds_of_last hr]
        exact Nat.le_trans (Nat.le_of_eq hround) (by omega)

variable [Inhabited M]

/-- What a run leads to is what its steps lead to. -/
theorem Reachable.runRounds (reachable : Reachable e) (g : Graph D) (schedules : Nat → Schedule) :
    Reachable (e.runRounds g schedules).engine := by
  induction e, g using rounds_induction (M := M) (G := G) schedules with
  | step e g ih =>
    have hstep := reachable.step g (schedules e.round)
    cases hr : (e.step g (schedules e.round)).result with
    | error failure =>
      rw [runRounds_of_error hr]
      exact hstep
    | ok more =>
      cases more with
      | false =>
        rw [runRounds_of_last hr]
        exact hstep
      | true =>
        rw [runRounds_of_more hr]
        exact ih hr hstep

/-- **The rounds are driven as they should be.** An engine that operations lead to is within its
cap, its accumulator, its slots and its workers agree in size, and its slots are idle unless its
phase shows a failure. What a step answers tells what it did: `true` one round below the cap, and
`false` the round that reaches the cap, or nothing because the cap was reached or nothing was
pending. A run leads to such an engine again, and if none of its steps fails it completes as many
rounds as it takes to reach the cap or to have nothing pending, and no more. -/
theorem Reachable.driven (reachable : Reachable e) (only : e.program.OnlyScatters) :
    (e.round ≤ e.options.maxRounds ∧ e.accumulator.size = e.slots.size ∧
      (e.workers.map Worker.numVertices).sum = e.slots.size ∧
      (e.phase = .gather ∨ e.phase = .done → ∀ slot ∈ e.slots, slot = .idle)) ∧
    (∀ (g : Graph D) (schedule : Schedule),
      Tells e g (e.step g schedule) (e.step g schedule).result) ∧
    ∀ (g : Graph D) (schedules : Nat → Schedule),
      Reachable (e.run g schedules).engine ∧
      ((∀ e' g', StepsFrom schedules e g e' g' →
          ∃ more, (e'.step g' (schedules e'.round)).result = .ok more) →
        ∃ k summary, (e.run g schedules).result = .ok summary ∧ summary.rounds = k ∧
          IsLeast {k | (e.stepped g schedules k).1.IsOver} k ∧
          (∀ j ≤ k, (e.stepped g schedules j).1.round = e.round + j) ∧
          (e.run g schedules).events.length = k ∧
          (e.run g schedules).engine.round = e.round + k ∧
          (e.run g schedules).engine.phase = .done ∧
          (e.run g schedules).graph = (e.stepped g schedules k).2 ∧
          (e.run g schedules).engine.accumulator = (e.stepped g schedules k).1.accumulator) := by
  have w : Regular e := ⟨reachable.wellShaped, only⟩
  have order := reachable.inOrder only
  refine ⟨⟨order.round_le, w.size_slots.symm, w.sum_numVertices, fun phase => ?_⟩, w.tells, ?_⟩
  · exact order.allIdle (phase.imp_right .inl)
  · intro g schedules
    refine ⟨reachable.runRounds g schedules, fun ok => ?_⟩
    obtain ⟨k, h⟩ := w.exists_stopsBehind ok
    refine ⟨k, ⟨k, (e.runRounds g schedules).engine.signals - e.signals⟩, ?_, rfl,
      h.least, h.rounds, h.events, h.round, h.phase, h.graph, h.accumulator⟩
    rw [run, h.result, h.round, Nat.add_sub_cancel_left]
    rfl

/-- Two rounds below a cap of three, and then the one that reaches it. -/
theorem driven_twoWorkers :
    let g := Graph.twoCycle 5 7
    let schedules : Nat → Schedule := fun _ => ⟨[1, 0], [], [1]⟩
    (twoWorkers.step g (schedules 0)).result = .ok true ∧
      (twoWorkers.step g (schedules 0)).engine.phase = .gather ∧
      ∃ summary, (twoWorkers.run g schedules).result = .ok summary ∧ summary.rounds = 3 := by
  intro g schedules
  have new : create tally 0 2 ⟨3, 2, true⟩ = .ok (ofProgram tally 0 2 ⟨3, 2, true⟩) := rfl
  have reachable : Reachable twoWorkers := .signalAll (.create new)
  have ready : Runnable twoWorkers g :=
    ⟨⟨reachable.wellShaped, .of_asides rfl⟩, rfl, rfl,
      .inr ⟨UInt64.add_comm, UInt64.add_assoc⟩, tally_staysInside,
      carries_of_load_save fun state => ⟨_, _, rfl, rfl⟩⟩
  have loud : ¬ (twoWorkers.tableau g rfl).IsQuiet := fun quiet => by
    have := quiet 0
    revert this
    decide
  obtain ⟨-, -, -, first⟩ := ready.step_of_active (by decide) loud (schedules 0)
  have early : ∀ j < 3, ¬ (twoWorkers.stepped g schedules j).1.IsOver := by decide +kernel
  have stops : IsLeast {k | (twoWorkers.stepped g schedules k).1.IsOver} 3 :=
    ⟨by decide +kernel, fun j ended => Nat.le_of_not_lt fun hlt => early j hlt ended⟩
  obtain ⟨-, tells, runs⟩ := Reachable.driven reachable (.of_asides rfl)
  have told := tells g (schedules 0)
  rw [first] at told
  obtain ⟨k, summary, hresult, hrounds, hleast, -⟩ := (runs g schedules).2 fun e' g' steps =>
    ok_of_stepsFrom steps (ready.run_eq_rounds schedules).result
  exact ⟨first, told.1, summary, hresult, hrounds.trans (hleast.unique stops)⟩

end Runs

end Engine

end Superstep
