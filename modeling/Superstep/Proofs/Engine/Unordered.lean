import Superstep.Proofs.Engine.Leftovers
import Superstep.Proofs.Engine.Saving

/-!
# Rounds whose signals arrive in any order

If payloads merge to something else in another order, and several workers deliver them, then a step
does not refine a round: what is pending behind it depends on who came first. It depends on nothing
else. The values are those of the round, and every vertex has pending what it was sent, merged in
some order. That is `Tableau.MayFollow`, and whatever every such round preserves holds wherever
steps lead to.

States may be parked on the way. A parked state need not be restored: it may also fail to load, and
then the step fails. What is asked of a program is that a state which can be loaded sends what it
would have sent, which is `VertexProgram.Parks`.

## Main definitions

* `Tableau.MayFollow`: one round, up to the order of arrivals
* `Engine.Prepared`: engines and graphs to which this applies
* `Engine.Proceeds`: where steps lead to, as long as none fails

## Main results

* `Engine.Prepared.step_cases`: a step that does not fail
* `Engine.Prepared.of_proceeds`: what every round preserves holds behind any number of them
* `Engine.exists_proceeds_runRounds`: a run is such a sequence of steps, up to the one that fails
* `Engine.Prepared.runRounds_ok`: a run that need not load anything does not fail
-/

namespace Superstep

variable {S D M G : Type}

/-- The second tableau stands behind round `r` of the first one, for some order in which signals
arrive at each vertex. -/
structure Tableau.MayFollow [Payload M] [Payload G] [Inhabited G] (m : Machine S D M G) (r : Nat)
    (t t' : Tableau D M) : Prop where
  graph : t'.graph = (t.round m r).graph
  pending : ∀ v, ∃ order : List M, order.Perm (Accumulator.arrivals v (t.sent m r)) ∧
    t'.pending v = mergeAllInto Payload.merge none order

namespace VertexProgram

variable {p : VertexProgram S D M G} {prototype : S}

/-- Every state can be saved, and what can be loaded again sends what was saved. -/
structure Parks (p : VertexProgram S D M G) (prototype : S) : Prop where
  save : ∀ state, ∃ bytes, p.save state = .ok bytes
  load : ∀ state bytes restored, p.save state = .ok bytes → p.load bytes prototype = .ok restored →
    ∀ c v, p.signals c v restored = p.signals c v state

/-- If it can be said what a slot sends, it is what the state sends that apply left there. -/
theorem Parks.sends_of_outgoing (only : p.OnlyScatters) (inside : p.StaysInside) {persist : Bool}
    (parks : persist = true → p.Parks prototype) {c c' : Context} {v w : Vertex D} {state : S}
    {total : G} {sends : Aside M}
    (h : p.outgoing prototype c' (w, p.slotOf c persist (v, .live state total)) = .ok sends) :
    sends = ⟨p.signals c' w (p.apply c v.site total state v.value).1, none⟩ := by
  rw [← inside.sends_eq only]
  cases persist with
  | false => exact (Except.ok.inj h).symm
  | true =>
    obtain ⟨bytes, hsave⟩ := (parks rfl).save (p.apply c v.site total state v.value).1
    have hslot : p.slotOf c true (v, .live state total) = .parked bytes := by
      simp [slotOf, hsave, Except.toOption]
    rw [hslot, outgoing, revive] at h
    cases hload : p.load bytes prototype with
    | error cause =>
      rw [hload] at h
      cases h
    | ok restored =>
      rw [hload] at h
      rw [inside.sends_eq only, ← (parks rfl).load _ _ _ hsave hload c' w,
        ← inside.sends_eq only]
      exact (Except.ok.inj h).symm

theorem exists_revive_of_outgoing {c : Context} {item : Vertex D × Slot S G}
    {sends : Aside M} (h : p.outgoing prototype c item = .ok sends) :
    ∃ state, p.revive prototype item.2 = .ok state := by
  rw [outgoing] at h
  cases hr : p.revive prototype item.2 with
  | error cause =>
    rw [hr] at h
    cases h
  | ok state => exact ⟨state, rfl⟩

theorem signalsIn_of_outgoing (only : p.OnlyScatters) (inside : p.StaysInside) {c : Context}
    {item : Vertex D × Slot S G} {sends : Aside M} (h : p.outgoing prototype c item = .ok sends) :
    p.signalsIn prototype c item = sends.signals := by
  rw [outgoing] at h
  rw [signalsIn]
  cases hr : p.revive prototype item.2 with
  | error cause =>
    rw [hr] at h
    cases h
  | ok state =>
    rw [hr] at h
    rw [← Except.ok.inj h]
    cases state with
    | none => rfl
    | some state => exact (congrArg Aside.signals (inside.sends_eq only c item.1 state)).symm

/-- A worker that did not fail knew of every item what to send. -/
theorem exists_outgoing_of_scatterAll {c : Context} {items : List (Vertex D × Slot S G)}
    (h : (p.scatterAll prototype c items).failure = none) :
    ∀ item ∈ items, ∃ sends, p.outgoing prototype c item = .ok sends := by
  induction items with
  | nil => simp
  | cons item items ih =>
    rw [scatterAll_cons] at h
    cases hitem : p.outgoing prototype c item with
    | error cause =>
      rw [hitem] at h
      cases h
    | ok sends =>
      simp only [hitem] at h
      split at h
      · rintro other hother
        rcases List.mem_cons.1 hother with rfl | hother
        · exact ⟨sends, hitem⟩
        · exact ih h other hother
      · cases h

end VertexProgram

namespace Engine

variable {e e' : Engine S D M G} {g g' : Graph D}

/-- A scatter phase that did not fail knew of every vertex what to send. -/
theorem WellShaped.exists_outgoing_of_scatterPhase [Payload M] (w : WellShaped e) {n : Network D}
    (hn : n.topology.size = e.slots.size) {picks : List Nat}
    (h : (e.scatterPhase n picks).2 = none) :
    ∀ item ∈ e.occupants n, ∃ sends,
      e.program.outgoing e.prototype (e.context n) item = .ok sends := by
  intro item hitem
  obtain ⟨share, hshare, hitem⟩ := w.exists_share_of_mem (length_occupants hn) hitem
  refine VertexProgram.exists_outgoing_of_scatterAll ?_ item hitem
  exact eq_none_of_firstFailure h _ (List.mem_map_of_mem (List.mem_map_of_mem hshare))

/-- What a delivery of shares brings a vertex, in some order. -/
theorem WellShaped.exists_order_deliverLanes_share [Payload M] {α : Type} (w : WellShaped e)
    {items : List α} (hlen : items.length = e.slots.size)
    (e' : Engine S D M G) {send : α → List (Signal M)}
    (inside : ∀ item ∈ items, ∀ signal ∈ send item, signal.target.toNat < e'.accumulator.size)
    (picks : List Nat) (v : VertexId) :
    ∃ order : List M, order.Perm (Accumulator.arrivals v (items.flatMap send)) ∧
      (e'.deliverLanes picks ((e.share items).map fun share =>
        (share.2.flatMap send, true))).accumulator.peek v =
          mergeAllInto Payload.merge (e'.accumulator.peek v) order := by
  have hsent : ((e.share items).map fun share => (share.2.flatMap send, true)).flatMap Prod.fst =
      items.flatMap send := by
    rw [List.flatMap_map, w.flatMap_share hlen]
  refine ⟨_, hsent ▸ arrivals_weave_perm _ picks v, peek_deliverLanes_weave e' picks ?_ v⟩
  intro lane hlane signal hsignal
  obtain ⟨share, hshare, rfl⟩ := List.mem_map.1 hlane
  obtain ⟨item, hitem, hsignal⟩ := List.mem_flatMap.1 hsignal
  exact inside item (w.mem_of_mem_share hlen hshare hitem) signal hsignal

/-! ### One step -/

/-- An engine and a graph that it can take through rounds, whoever delivers first. -/
structure Prepared (e : Engine S D M G) (g : Graph D) : Prop where
  regular : Regular e
  finalized : g.finalized = true
  size : g.numVertices = e.accumulator.size
  inside : e.program.StaysInside
  parks : e.options.persist = true → e.program.Parks e.prototype

theorem Prepared.of_sameShape (ready : Prepared e g) (h : SameShape e e')
    (hf : g'.finalized = true) (hsize : g'.numVertices = g.numVertices) : Prepared e' g' where
  regular := ready.regular.of_sameShape h
  finalized := hf
  size := by rw [hsize, ready.size, h.size_accumulator]
  inside := h.program ▸ ready.inside
  parks := by
    rw [h.options, h.program, h.prototype]
    exact ready.parks

theorem SameShape.ideal_eq (h : SameShape e e') : e'.ideal = e.ideal := by
  rw [ideal, ideal, h.program, h.prototype, h.options]

/-- A new engine is prepared for a graph of its size. -/
theorem Prepared.of_create {program : VertexProgram S D M G} {prototype : S}
    {options : EngineOptions} (hf : g.finalized = true)
    (h : create program prototype g.numVertices options = .ok e) (only : program.OnlyScatters)
    (inside : program.StaysInside) (parks : options.persist = true → program.Parks prototype) :
    Prepared e g := by
  have w := WellShaped.create h
  obtain rfl := eq_ofProgram_of_create h
  exact
    { regular := ⟨w, only⟩
      finalized := hf
      size := (size_ofProgram ..).symm
      inside := inside
      parks := parks }

section Step

variable [Payload M] [Payload G] [Inhabited G] {schedule : Schedule} {more : Bool}

omit [Payload M] in
theorem Prepared.exists_save (ready : Prepared e g) : e.options.persist = true →
    ∀ state, e.LeftByApply g state → ∃ bytes, e.program.save state = .ok bytes :=
  fun persist state _ => (ready.parks persist).save state

omit [Payload M] in
/-- If it can be said what a vertex sends behind apply, it is what it sends in the tableau. -/
theorem Prepared.signals_of_outgoing (ready : Prepared e g) {v : Vertex D} {sends : Aside M}
    (h : e.program.outgoing e.prototype (e.context (g.network ready.finalized))
      (v.withValues ((e.tableau g ready.finalized).values e.ideal e.round),
        e.program.slotOf (e.context (g.network ready.finalized)) e.options.persist
          (v, e.started (g.network ready.finalized) v)) = .ok sends) :
    sends.signals = (e.tableau g ready.finalized).signalsOf e.ideal e.round v := by
  rw [Tableau.signalsOf]
  cases hp : e.accumulator.peek v.id with
  | none =>
    rw [started_of_none hp] at h
    rw [show (e.tableau g ready.finalized).pending v.id = none from hp, ← Except.ok.inj h]
    rfl
  | some payload =>
    rw [started_of_some hp] at h
    rw [show (e.tableau g ready.finalized).pending v.id = some payload from hp,
      VertexProgram.Parks.sends_of_outgoing ready.regular.only ready.inside ready.parks h,
      context_eq ready.finalized ready.size]
    rfl

/-- The engine and the failure behind the scatter phase of a round, if its states can be saved. -/
def behindScatter (e : Engine S D M G) (g : Graph D) (hf : g.finalized = true)
    (schedule : Schedule) : Engine S D M G × Option Failure :=
  (e.applied (g.network hf) schedule).scatterPhase
    ((g.network hf).withValues ((e.tableau g hf).values e.ideal e.round)) schedule.scatter

/-- Behind scatter, nothing but the accumulator, the workers' figures and the slots is new. -/
theorem behindScatter_frame (e : Engine S D M G) (hf : g.finalized = true) (schedule : Schedule) :
    ∃ accumulator workers slots, (e.behindScatter g hf schedule).1 =
      { e with phase := .scatter, accumulator, workers, slots } :=
  ⟨_, _, _, rfl⟩

@[simp]
theorem phase_behindScatter (hf : g.finalized = true) :
    (e.behindScatter g hf schedule).1.phase = .scatter := by
  obtain ⟨_, _, _, frame⟩ := e.behindScatter_frame hf schedule
  rw [frame]

@[simp]
theorem round_behindScatter (hf : g.finalized = true) :
    (e.behindScatter g hf schedule).1.round = e.round := by
  obtain ⟨_, _, _, frame⟩ := e.behindScatter_frame hf schedule
  rw [frame]

@[simp]
theorem signals_behindScatter (hf : g.finalized = true) :
    (e.behindScatter g hf schedule).1.signals = e.signals := by
  obtain ⟨_, _, _, frame⟩ := e.behindScatter_frame hf schedule
  rw [frame]

@[simp]
theorem options_behindScatter (hf : g.finalized = true) :
    (e.behindScatter g hf schedule).1.options = e.options := by
  obtain ⟨_, _, _, frame⟩ := e.behindScatter_frame hf schedule
  rw [frame]

/-- What is pending behind a scatter phase that did not fail: what was sent, in some order. -/
theorem Prepared.exists_order_behindScatter (ready : Prepared e g)
    (cap : e.round < e.options.maxRounds)
    (ok : (e.behindScatter g ready.finalized schedule).2 = none) (v : VertexId) :
    ∃ order : List M, order.Perm (Accumulator.arrivals v
        ((e.tableau g ready.finalized).sent e.ideal e.round)) ∧
      (e.behindScatter g ready.finalized schedule).1.accumulator.peek v =
        mergeAllInto Payload.merge none order := by
  have w := ready.regular
  have hf := ready.finalized
  have hn := w.topology_size hf ready.size
  have hshape := w.sameShape_applied hn schedule
  have w' := w.of_sameShape hshape
  have hn' := w.topology_size_applied hf ready.size schedule
    ((e.tableau g hf).values e.ideal e.round)
  have hocc := w.occupants_applied_of_saves hf ready.size cap ready.exists_save schedule
  have hout := w'.exists_outgoing_of_scatterPhase hn' ok
  have hsent : ((e.applied (g.network hf) schedule).occupants
      ((g.network hf).withValues ((e.tableau g hf).values e.ideal e.round))).flatMap
        (e.program.signalsIn e.prototype (e.context (g.network hf))) =
      (e.tableau g hf).sent e.ideal e.round := by
    rw [hocc, List.flatMap_map]
    refine List.flatMap_congr fun v hv => ?_
    obtain ⟨sends, hsends⟩ := hout _ (hocc ▸ List.mem_map_of_mem hv)
    rw [context_applied] at hsends
    exact (VertexProgram.signalsIn_of_outgoing w.only ready.inside hsends).trans
      (ready.signals_of_outgoing hsends)
  have hnone : (e.applied (g.network hf) schedule).accumulator.peek v = none := by
    rw [applied, w.applyPhase_of_saves hf ready.size cap ready.exists_save]
    exact w.peek_gatherPhase hn (g.topology_size_le hf) schedule.gather v
  rw [behindScatter, (w'.scatterPhase_eq hn' ready.inside (fun item hitem =>
    (hout item hitem).elim fun _ h => VertexProgram.exists_revive_of_outgoing h)
      schedule.scatter).2, context_applied, ← hsent, ← hnone]
  refine w'.exists_order_deliverLanes_share (length_occupants hn') _
    (fun item hitem signal hsignal => ?_) schedule.scatter v
  rw [← w'.topology_size_of_mem_occupants hn' hitem]
  exact ready.inside.target_lt hsignal

omit [Payload M] [Payload G] [Inhabited G] in
theorem none_of_conclude {t : Engine S D M G × Option Failure}
    (h : (conclude g t).result = .ok more) : t.2 = none := by
  obtain ⟨e, _ | failure⟩ := t
  · rfl
  · cases h

/-- What a step does that does not fail: nothing if the cap is reached or nothing is pending, and
otherwise one round. -/
inductive StepsTo (e : Engine S D M G) (g : Graph D) (hf : g.finalized = true) :
    Engine S D M G → Graph D → Bool → Prop
  | rest {e' : Engine S D M G} (accumulator : e'.accumulator = e.accumulator)
      (round : e'.round = e.round) : StepsTo e g hf e' g false
  | round {e' : Engine S D M G} {g' : Graph D} (cap : e.round < e.options.maxRounds)
      (active : ¬ (e.tableau g hf).IsQuiet) (hf' : g'.finalized = true)
      (follows : (e.tableau g hf).MayFollow e.ideal e.round (e'.tableau g' hf'))
      (round : e'.round = e.round + 1) :
      StepsTo e g hf e' g' (decide (e.round + 1 < e.options.maxRounds))

/-- **A step that does not fail**, whoever delivers first. -/
theorem Prepared.step_cases (ready : Prepared e g) (ok : (e.step g schedule).result = .ok more) :
    StepsTo e g ready.finalized (e.step g schedule).engine (e.step g schedule).graph more := by
  have w := ready.regular
  have hf := ready.finalized
  have hs := ready.size
  by_cases cap : e.round < e.options.maxRounds
  · by_cases hq : (e.tableau g hf).IsQuiet
    · obtain ⟨hg, ha, hr, hresult⟩ := w.step_of_isQuiet hf hs cap hq schedule
      rw [hg]
      obtain rfl : false = more := Except.ok.inj (hresult.symm.trans ok)
      exact .rest ha hr
    · have hn := w.topology_size hf hs
      have active : (e.gatherPhase (g.network hf) schedule.gather).1.numActive ≠ 0 := fun h =>
        hq ((w.numActive_eq_zero_iff hn (g.topology_size_le hf) _).1 h)
      have hstep : e.step g schedule = conclude _ (e.behindScatter g hf schedule) :=
        w.step_of_saves hf hs cap ready.exists_save schedule active
      rw [hstep] at ok ⊢
      have hnone := none_of_conclude ok
      rw [conclude_of_none hnone] at ok ⊢
      rw [round_behindScatter, options_behindScatter] at ok
      obtain rfl := Except.ok.inj ok
      refine .round cap hq hf ⟨rfl, fun v => ?_⟩
        (by rw [round_completeRound, round_behindScatter])
      exact ready.exists_order_behindScatter cap hnone v
  · rw [step_of_cap hf hs (Nat.le_of_not_lt cap)] at ok ⊢
    obtain rfl := Except.ok.inj ok
    exact .rest rfl rfl

/-- Behind a step that does not fail there are an engine and a graph for the next one. -/
theorem Prepared.step (ready : Prepared e g) (ok : (e.step g schedule).result = .ok more) :
    Prepared (e.step g schedule).engine (e.step g schedule).graph := by
  have h := ready.step_cases ok
  have hshape := ready.regular.sameShape_step g schedule
  revert hshape h
  generalize (e.step g schedule).engine = e', (e.step g schedule).graph = g'
  intro h hshape
  cases h with
  | rest accumulator round => exact ready.of_sameShape hshape ready.finalized rfl
  | round cap active hf' follows round =>
    refine ready.of_sameShape hshape hf' ?_
    have hgraph : g' = _ := follows.graph
    rw [hgraph, Tableau.graph_round, Graph.numVertices_overwrite]
    rfl

end Step

/-! ### Transformations -/

/-- **A transformation whose signals stay inside**, whoever delivers first. -/
theorem WellShaped.transform_unordered [Payload M] (w : WellShaped e) (hf : g.finalized = true)
    (hs : g.numVertices = e.accumulator.size) (transformation : Transformation D M)
    (inside : ∀ v ∈ (g.network hf).vertices, ∀ signal ∈
      emitted transformation (e.context (g.network hf)) v,
        signal.target.toNat < e.accumulator.size)
    (picks : List Nat) :
    (e.transform g transformation picks).result =
        .ok (e.emittedBy (g.network hf) transformation).length ∧
      (e.transform g transformation picks).graph =
        g.overwrite ((g.network hf).vertices.map fun v =>
          (transformation (e.context (g.network hf)) v.site v.value).2) ∧
      (e.transform g transformation picks).engine.round = e.round ∧
      ∀ v, ∃ order : List M,
        order.Perm (Accumulator.arrivals v (e.emittedBy (g.network hf) transformation)) ∧
          (e.transform g transformation picks).engine.accumulator.peek v =
            mergeAllInto Payload.merge (e.accumulator.peek v) order := by
  rw [transform_eq_transformOn w hf hs, w.transformOn_eq inside hs]
  refine ⟨congrArg Except.ok (w.numSent_delivered hs picks), rfl, rfl, fun v => ?_⟩
  exact w.exists_order_deliverLanes_share (w.length_vertices hf hs) _ inside picks v

/-! ### Any number of steps -/

section Proceeds

variable [Payload M] [Payload G] [Inhabited G]

/-- The engines and graphs that steps lead to, as long as none fails. -/
inductive Proceeds (e : Engine S D M G) (g : Graph D) : Engine S D M G → Graph D → Prop
  | refl : Proceeds e g e g
  | step {e' : Engine S D M G} {g' : Graph D} (h : Proceeds e g e' g') (schedule : Schedule)
      {more : Bool} (ok : (e'.step g' schedule).result = .ok more) :
      Proceeds e g (e'.step g' schedule).engine (e'.step g' schedule).graph

theorem Proceeds.trans {e'' : Engine S D M G} {g'' : Graph D} (h : Proceeds e g e' g')
    (h' : Proceeds e' g' e'' g'') : Proceeds e g e'' g'' := by
  induction h' with
  | refl => exact h
  | step _ schedule ok ih => exact ih.step schedule ok

/-- What a round preserves, a step preserves. -/
theorem StepsTo.preserves {P : Nat → Tableau D M → Prop}
    {hf : g.finalized = true} {more : Bool} (h : StepsTo e g hf e' g' more)
    (start : P e.round (e.tableau g hf))
    (round : ∀ t', e.round < e.options.maxRounds → ¬ (e.tableau g hf).IsQuiet →
      (e.tableau g hf).MayFollow e.ideal e.round t' → P (e.round + 1) t')
    (hf' : g'.finalized = true) : P e'.round (e'.tableau g' hf') := by
  cases h with
  | rest accumulator round =>
    rw [round, tableau, accumulator]
    exact start
  | round cap active _ follows hround =>
    rw [hround]
    exact round _ cap active follows

/-- **What every round preserves holds behind any number of steps.** -/
theorem Prepared.of_proceeds {P : Nat → Tableau D M → Prop} (ready : Prepared e g)
    (start : P e.round (e.tableau g ready.finalized))
    (round : ∀ r t t', r < e.options.maxRounds → ¬ t.IsQuiet → P r t →
      t.MayFollow e.ideal r t' → P (r + 1) t')
    (h : Proceeds e g e' g') :
    ∃ next : Prepared e' g', SameShape e e' ∧ P e'.round (e'.tableau g' next.finalized) := by
  induction h with
  | refl => exact ⟨ready, .refl e, start⟩
  | @step e' g' h schedule more ok ih =>
    obtain ⟨next, hshape, hp⟩ := ih
    refine ⟨next.step ok,
      hshape.trans (next.regular.sameShape_step g' schedule),
      (next.step_cases ok).preserves hp (fun t' cap active follows => ?_) _⟩
    rw [hshape.ideal_eq] at follows
    exact round _ _ _ (hshape.options ▸ cap) active hp follows

/-- A run is a sequence of steps, up to the one that fails, and a round that fails is not
counted. -/
theorem exists_proceeds_runRounds (e : Engine S D M G) (g : Graph D)
    (schedules : Nat → Schedule) :
    ∃ e' g', Proceeds e g e' g' ∧ (e.runRounds g schedules).engine.round = e'.round ∧
      ((e.runRounds g schedules).result = .ok () →
        (e.runRounds g schedules).engine = e' ∧ (e.runRounds g schedules).graph = g') := by
  induction e, g using rounds_induction (M := M) (G := G) schedules with
  | step e g ih =>
    cases hr : (e.step g (schedules e.round)).result with
    | error failure =>
      rw [runRounds_of_error hr]
      exact ⟨e, g, .refl, (uncounted_of_step_error hr).round, nofun⟩
    | ok more =>
      have first := (Proceeds.refl (e := e) (g := g)).step _ hr
      cases more with
      | false =>
        rw [runRounds_of_last hr]
        exact ⟨_, _, first, rfl, fun _ => ⟨rfl, rfl⟩⟩
      | true =>
        obtain ⟨e', g', h, hrest⟩ := ih hr
        rw [runRounds_of_more hr]
        exact ⟨e', g', first.trans h, hrest⟩

/-- A run goes no further than the cap. -/
theorem Prepared.round_run_le (ready : Prepared e g) (h : e.round ≤ e.options.maxRounds)
    (schedules : Nat → Schedule) : (e.run g schedules).engine.round ≤ e.options.maxRounds := by
  obtain ⟨e', g', hproceeds, hend, -⟩ := exists_proceeds_runRounds e g schedules
  obtain ⟨-, -, hle⟩ := ready.of_proceeds (P := fun r _ => r ≤ e.options.maxRounds) h
    (fun r t t' cap _ _ _ => cap) hproceeds
  exact Nat.le_trans (Nat.le_of_eq hend) hle

theorem rounds_of_run {schedules : Nat → Schedule} {summary : RunSummary}
    (h : (e.run g schedules).result = .ok summary) :
    summary.rounds = (e.run g schedules).engine.round - e.round := by
  rw [run] at h ⊢
  cases hr : (e.runRounds g schedules).result with
  | error failure =>
    rw [hr] at h
    cases h
  | ok _ =>
    rw [hr] at h
    rw [← Except.ok.inj h]

/-- A step that need not load anything does not fail. -/
theorem Prepared.step_ok (ready : Prepared e g) (hc : e.Carries) (schedule : Schedule) :
    ∃ more, (e.step g schedule).result = .ok more := by
  have w := ready.regular
  have hf := ready.finalized
  have hs := ready.size
  by_cases cap : e.round < e.options.maxRounds
  · by_cases hq : (e.tableau g hf).IsQuiet
    · exact ⟨_, (w.step_of_isQuiet hf hs cap hq schedule).2.2.2⟩
    · rw [w.step_of_active hf hs ready.inside hc cap hq]
      exact ⟨_, rfl⟩
  · rw [step_of_cap hf hs (Nat.le_of_not_lt cap)]
    exact ⟨_, rfl⟩

/-- **A run that need not load anything does not fail**, whoever delivers first. -/
theorem Prepared.runRounds_ok (ready : Prepared e g) (hc : e.Carries)
    (schedules : Nat → Schedule) : (e.runRounds g schedules).result = .ok () := by
  induction e, g using rounds_induction (M := M) (G := G) schedules with
  | step e g ih =>
    obtain ⟨more, hr⟩ := ready.step_ok hc (schedules e.round)
    cases more with
    | false => rw [runRounds_of_last hr]
    | true =>
      rw [runRounds_of_more hr]
      exact ih hr (ready.step hr) (hc.of_sameShape (ready.regular.sameShape_step g _))

omit [Payload M] [Payload G] [Inhabited G] in
theorem carries_of_persist (h : e.options.persist = false) : e.Carries :=
  carries_of_kept fun state => ⟨state, by rw [h]; rfl⟩

end Proceeds

end Engine

end Superstep
