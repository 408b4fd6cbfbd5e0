import Superstep.Proofs.Engine.Twins

/-!
# Rounds in which nothing breaks off

A program that is silent till it scatters may break off before that, and then the round is not
completed. In a round that is completed nothing has broken off, so it is the round of a program that
never does: the same program without what it does on the way to `scatter`, which is `unbroken`. So
whatever is known of completed rounds of programs that only scatter holds for these programs too.

The phases are compared one by one, each under the condition that it did not fail.

## Main definitions

* `VertexProgram.unbroken`, `Engine.unbroken`: without what might break off before `scatter`

## Main results

* `Engine.WellShaped.step_unbroken`: a step that does not fail is a step of the engine that does
  not break off
-/

namespace Superstep

variable {S D M G : Type}

namespace VertexProgram

/-- The program that does not break off before it scatters. -/
def unbroken (p : VertexProgram S D M G) : VertexProgram S D M G :=
  { p with asides := { scatterLinks := p.asides.scatterLinks, scatter := p.asides.scatter } }

variable {p : VertexProgram S D M G} {c : Context}

theorem SilentTillScatter.onlyScatters_unbroken (silent : p.SilentTillScatter) :
    p.unbroken.OnlyScatters where
  init _ _ _ _ := rfl
  gatherLinks _ _ _ := rfl
  gather _ _ _ _ := rfl
  apply _ _ _ _ _ := rfl
  scatterLinks := silent.scatterLinks

theorem SilentTillScatter.attempt_unbroken (silent : p.SilentTillScatter) {v : Vertex D}
    {state : S} {total : G} (ok : (p.attempt c v state total).fault = none) :
    p.attempt c v state total = p.unbroken.attempt c v state total := by
  have hsilent := silent.apply c v.site total state v.value
  rw [attempt] at ok ⊢
  generalize p.asides.apply c v.site total state v.value = aside at hsilent ok ⊢
  obtain ⟨emissions, broken⟩ := aside
  obtain rfl : emissions = [] := hsilent
  obtain rfl : broken = none := ok
  rfl

/-- A worker that did not fail applied what it would have applied. -/
theorem SilentTillScatter.applyAll_unbroken (silent : p.SilentTillScatter) {persist : Bool}
    {items : List (Vertex D × Slot S G)} (ok : (p.applyAll c persist items).failure = none) :
    p.unbroken.applyAll c persist items = p.applyAll c persist items := by
  induction items with
  | nil => rfl
  | cons item items ih =>
    obtain ⟨v, slot⟩ := item
    cases slot with
    | idle => exact congrArg (Applied.cons [] v.value .idle) (ih ok)
    | parked bytes => exact congrArg (Applied.cons [] v.value (.parked bytes)) (ih ok)
    | live state total =>
      have hattempt (ok : (p.attempt c v state total).fault = none) :
          p.attempt c v state total = p.unbroken.attempt c v state total :=
        silent.attempt_unbroken ok
      rw [applyAll] at ok
      rw [applyAll, applyAll]
      generalize p.attempt c v state total = attempt at hattempt ok ⊢
      obtain ⟨signals, state, value, _ | fault⟩ := attempt
      · rw [← hattempt rfl]
        simp only at ok ⊢
        split at ok
        · rename_i hpersist
          rw [if_pos hpersist, if_pos hpersist]
          have hsave : p.unbroken.save state = p.save state := rfl
          rw [hsave]
          split at ok
          · exact congrArg _ (ih ok)
          · cases ok
        · rename_i hpersist
          rw [if_neg hpersist, if_neg hpersist]
          exact congrArg _ (ih ok)
      · cases ok

theorem scatterAll_unbroken (p : VertexProgram S D M G) (prototype : S) (c : Context)
    (items : List (Vertex D × Slot S G)) :
    p.unbroken.scatterAll prototype c items = p.scatterAll prototype c items := by
  induction items with
  | nil => rfl
  | cons item items ih =>
    rw [scatterAll_cons, scatterAll_cons, ih]
    rfl

end VertexProgram

/-- The engine whose program does not break off before it scatters. -/
def Engine.unbroken (e : Engine S D M G) : Engine S D M G :=
  { e with program := e.program.unbroken }

/-- The outcome with that engine. -/
def Outcome.unbroken {α : Type} (o : Outcome S D M G α) : Outcome S D M G α :=
  { o with engine := o.engine.unbroken }

namespace Engine

variable {e : Engine S D M G} {g : Graph D} {n : Network D}

theorem WellShaped.unbroken (w : WellShaped e) : WellShaped e.unbroken :=
  ⟨w.size_slots, w.tiled, w.ranges⟩

theorem WellShaped.regular_unbroken (w : WellShaped e) (silent : e.program.SilentTillScatter) :
    Regular e.unbroken :=
  ⟨w.unbroken, silent.onlyScatters_unbroken⟩

/-! ### The phases -/

section Gather

variable [Payload M] [Payload G] [Inhabited G]

/-- In a gather phase that did not fail, no vertex has broken off. -/
theorem WellShaped.overture_of_gatherPhase (w : WellShaped e)
    (silent : e.program.GathersSilently) (hn : n.topology.size = e.slots.size)
    (hle : n.topology.size ≤ UInt32.size) {picks : List Nat}
    (ok : (e.gatherPhase n picks).2 = none) :
    ∀ v ∈ n.vertices, e.program.overture e.prototype (e.context n) v
      (e.accumulator.peek v.id) = ([], none) := by
  intro v hv
  have hlen : n.vertices.length = e.slots.size := by simp [hn]
  obtain ⟨share, hshare, hv⟩ := w.exists_share_of_mem hlen hv
  refine VertexProgram.overture_of_gatherAll silent ?_ v hv
  have hgathered := (w.gathered_of_silent silent hn hle picks).1
  rw [gatherErrands_eq hn, List.map_map] at hgathered
  have hmem : (e.program.gatherAll e.prototype (e.context n) share.2).resultOn
      e.accumulator.peek ∈ e.gatheredBy n picks := by
    rw [hgathered]
    exact List.mem_map_of_mem hshare
  have hnone := eq_none_of_firstFailure ok _ (List.mem_map_of_mem hmem)
  rwa [Option.map_eq_none_iff] at hnone

theorem WellShaped.gatherPhase_unbroken (w : WellShaped e) (silent : e.program.SilentTillScatter)
    (hn : n.topology.size = e.slots.size) (hle : n.topology.size ≤ UInt32.size)
    {picks : List Nat} (ok : (e.gatherPhase n picks).2 = none) :
    e.unbroken.gatherPhase n picks = ((e.gatherPhase n picks).1.unbroken, none) := by
  have hovertures := w.overture_of_gatherPhase silent.toGathersSilently hn hle ok
  obtain ⟨hgathered, hpeek⟩ :=
    w.gathered_of_overture silent.toGathersSilently hn hle hovertures picks
  obtain ⟨hgathered', hpeek'⟩ := (w.regular_unbroken silent).gathered hn hle picks
  have hrun : Errand.run e.unbroken.accumulator picks (e.unbroken.gatherErrands n) =
      Errand.run e.accumulator picks (e.gatherErrands n) := by
    refine Prod.ext (Accumulator.eq_of_peek_eq ?_ ?_ fun v => ?_) ?_
    · exact (e.unbroken.size_accumulator_gatherPhase n picks).trans
        (e.size_accumulator_gatherPhase n picks).symm
    · refine Nat.le_trans (Nat.le_of_eq (e.unbroken.size_accumulator_gatherPhase n picks)) ?_
      exact w.size_accumulator_le hn hle
    · exact (hpeek' v).trans (hpeek v).symm
    · exact hgathered'.trans hgathered.symm
  rw [Engine.gatherPhase] at ok ⊢
  rw [hrun]
  exact Prod.ext rfl ok

end Gather

variable [Payload M]

theorem applyPhase_unbroken (silent : e.program.SilentTillScatter) {picks : List Nat}
    (ok : (e.applyPhase n picks).2.2 = none) :
    e.unbroken.applyPhase n picks =
      ((e.applyPhase n picks).1.unbroken, (e.applyPhase n picks).2) := by
  have hall : e.unbroken.appliedBy n = e.appliedBy n := by
    refine List.map_congr_left fun share hshare => silent.applyAll_unbroken ?_
    exact eq_none_of_firstFailure ok _ (List.mem_map_of_mem (List.mem_map_of_mem hshare))
  rw [Engine.applyPhase, Engine.applyPhase]
  simp only [hall]
  rfl

theorem scatterPhase_unbroken (e : Engine S D M G) (n : Network D) (picks : List Nat) :
    e.unbroken.scatterPhase n picks =
      ((e.scatterPhase n picks).1.unbroken, (e.scatterPhase n picks).2) := by
  have hall : e.unbroken.scatteredBy n = e.scatteredBy n :=
    List.map_congr_left fun share _ => e.program.scatterAll_unbroken ..
  rw [Engine.scatterPhase, Engine.scatterPhase]
  simp only [hall]
  rfl

/-! ### A step -/

omit [Payload M] in
theorem conclude_unbroken (e : Engine S D M G) (failure : Option Failure) :
    conclude g (e.unbroken, failure) = (conclude g (e, failure)).unbroken := by
  cases failure <;> rfl

theorem enterScatter_unbroken (hf : g.finalized = true) (picks : List Nat) (e : Engine S D M G)
    (failure : Option Failure) :
    enterScatter g hf picks (e.unbroken, failure) =
      (enterScatter g hf picks (e, failure)).unbroken := by
  cases failure with
  | some failure => rfl
  | none =>
    exact (congrArg (conclude g) (scatterPhase_unbroken { e with phase := .scatter } _ picks)).trans
      (conclude_unbroken _ _)

theorem none_of_enterScatter {hf : g.finalized = true} {picks : List Nat}
    {t : Engine S D M G × Option Failure} {more : Bool}
    (ok : (enterScatter g hf picks t).result = .ok more) : t.2 = none := by
  obtain ⟨e, _ | failure⟩ := t
  · rfl
  · cases ok

theorem none_of_enterApply {hf : g.finalized = true} {schedule : Schedule}
    {t : Engine S D M G × Option Failure} {more : Bool}
    (ok : (enterApply g hf schedule t).result = .ok more) : t.2 = none := by
  obtain ⟨e, _ | failure⟩ := t
  · rfl
  · cases ok

theorem enterApply_unbroken {hf : g.finalized = true} {schedule : Schedule}
    {t : Engine S D M G × Option Failure} (silent : t.1.program.SilentTillScatter) {more : Bool}
    (ok : (enterApply g hf schedule t).result = .ok more) :
    enterApply g hf schedule (t.1.unbroken, none) = (enterApply g hf schedule t).unbroken := by
  have hnone := none_of_enterApply ok
  by_cases hidle : t.1.numActive = 0
  · rw [enterApply_of_idle hnone hidle,
      enterApply_of_idle (t := (t.1.unbroken, none)) rfl hidle]
    rfl
  · rw [enterApply_of_busy hnone hidle] at ok ⊢
    rw [enterApply_of_busy (t := (t.1.unbroken, none)) rfl hidle]
    have hphase : ({ t.1.unbroken with phase := .apply } : Engine S D M G).applyPhase
        (g.network hf) schedule.apply = _ :=
      applyPhase_unbroken (e := { t.1 with phase := .apply }) silent (none_of_enterScatter ok)
    simp only [hphase]
    exact enterScatter_unbroken (g := g.overwrite _) hf schedule.scatter _ _

variable [Payload G] [Inhabited G]

/-- **A step that does not fail** is one in which nothing could have broken off before `scatter`. -/
theorem WellShaped.step_unbroken (w : WellShaped e) (silent : e.program.SilentTillScatter)
    {schedule : Schedule} {more : Bool} (ok : (e.step g schedule).result = .ok more) :
    e.unbroken.step g schedule = (e.step g schedule).unbroken := by
  cases hr : e.refusal g with
  | some cause =>
    rw [step_of_refusal hr, step_of_refusal (e := e.unbroken) hr]
    rfl
  | none =>
    obtain ⟨hf, hs⟩ := fits_of_refusal hr
    by_cases cap : e.round < e.options.maxRounds
    · have hn := w.topology_size hf hs
      have hle := g.topology_size_le hf
      rw [step_eq_stepOn hf hs, w.stepOn_eq_enterApply hf cap] at ok ⊢
      rw [step_eq_stepOn (e := e.unbroken) hf hs, w.unbroken.stepOn_eq_enterApply hf cap,
        w.gatherPhase_unbroken silent hn hle (none_of_enterApply ok)]
      exact enterApply_unbroken silent ok
    · rw [step_of_cap hf hs (Nat.le_of_not_lt cap),
        step_of_cap (e := e.unbroken) hf hs (Nat.le_of_not_lt cap)]
      rfl

end Engine

end Superstep
