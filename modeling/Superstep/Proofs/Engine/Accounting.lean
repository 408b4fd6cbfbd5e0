import Superstep.Proofs.Engine.Driver
import Superstep.Proofs.Engine.Unbroken

/-!
# The accounts of a run

Every completed round tells how many vertices took part, how many signals they sent, and how many
of these reached an empty slot. The workers count for themselves, and what one worker counts
depends on who comes first. The totals do not: they are said here through what is pending before
and behind the round, and through the degrees of the vertices that take part.

So the accounts of consecutive rounds agree. What one round activates takes part in the next one,
and what a run reports to have sent is what its rounds reported, whatever was sent before it.

Only what is sent in the scatter phase is counted, so programs have to be silent till they scatter.
They may break off wherever they like: of rounds that are not completed nothing is told. As in all
that is said of deliveries, what is sent is taken to fit what is pending.

## Main definitions

* `Tableau.active`, `Tableau.direction`: who takes part, and over which links it scatters
* `Vertex.degree`: the number of links in a direction
* `Event.Ledger`: the events of consecutive rounds

## Main results

* `Engine.WellShaped.events_step`: what a completed round tells
* `Engine.WellShaped.accounts_step`: what a step tells, however it ends
* `Engine.WellShaped.accounts_runRounds`: what a run tells
-/

namespace Superstep

variable {S D M G : Type}

/-! ### Signals and degrees -/

/-- The number of links of a vertex in a direction. -/
def Vertex.degree (v : Vertex D) (direction : Direction) : Nat :=
  (if direction.includesIn then v.inDegree else 0) +
    (if direction.includesOut then v.outDegree else 0)

theorem Vertex.length_links (v : Vertex D) (direction : Direction) :
    (v.links direction).length = v.degree direction := by
  have hin : v.inLinks.length = v.inDegree := by simp [inLinks, inDegree]
  have hout : v.outLinks.length = v.outDegree := by simp [outLinks, outDegree]
  rw [links, List.length_append, degree, apply_ite List.length, apply_ite List.length, hin, hout]
  rfl

/-- Every call of `scatter` sends one signal. -/
def VertexProgram.SendsOne (p : VertexProgram S D M G) : Prop :=
  ∀ c v link state, (p.scatter c v link state).length = 1

/-- A state sends one signal over each of its links. -/
theorem VertexProgram.SendsOne.length_signals {p : VertexProgram S D M G} (one : p.SendsOne)
    (c : Context) (v : Vertex D) (state : S) :
    (p.signals c v state).length = v.degree (p.scatterLinks c v state) := by
  rw [signals, List.length_flatMap, ← v.length_links,
    List.map_congr_left fun link _ => one c v link state]
  simp

theorem flatMap_filter_of_nil {α β : Type} {l : List α} {p : α → Bool} {f : α → List β}
    (h : ∀ a ∈ l, p a = false → f a = []) : (l.filter p).flatMap f = l.flatMap f := by
  induction l with
  | nil => rfl
  | cons a l ih =>
    have ih := ih fun b hb => h b (List.mem_cons_of_mem _ hb)
    rw [List.filter_cons]
    split
    · rw [List.flatMap_cons, List.flatMap_cons, ih]
    · rename_i hp
      rw [List.flatMap_cons, h a List.mem_cons_self (Bool.eq_false_of_not_eq_true hp), ih,
        List.nil_append]

namespace Tableau

section

variable [Payload G] [Inhabited G] (t : Tableau D M) (m : Machine S D M G) (r : Nat)

omit [Payload G] [Inhabited G] in
/-- The vertices for which something is pending. -/
def active (t : Tableau D M) : List (Vertex D) :=
  t.network.vertices.filter fun v => (t.pending v.id).isSome

/-- The links over which a vertex scatters. It has none if it does not take part. -/
def direction (v : Vertex D) : Direction :=
  match t.pending v.id with
  | none => .none
  | some payload =>
    m.program.scatterLinks (t.context m r) (v.withValues (t.values m r))
      (m.carry (m.turn (t.context m r) v payload).1)

/-- What the vertices send that take part, by their degrees. -/
def traffic : Nat := (t.active.map fun v => v.degree (t.direction m r v)).sum

variable {t m r}

theorem length_signalsOf (one : m.program.SendsOne) {v : Vertex D}
    (h : (t.pending v.id).isSome = true) :
    (t.signalsOf m r v).length = v.degree (t.direction m r v) := by
  obtain ⟨payload, hp⟩ := Option.isSome_iff_exists.1 h
  rw [signalsOf, direction, hp]
  exact one.length_signals ..

theorem length_sent (one : m.program.SendsOne) : (t.sent m r).length = t.traffic m r := by
  have hsent : t.sent m r = t.active.flatMap (t.signalsOf m r) := by
    refine (flatMap_filter_of_nil fun v _ hv => ?_).symm
    rw [signalsOf, Option.isNone_iff_eq_none.1 (Option.isSome_eq_false_iff.1 hv)]
  rw [hsent, List.length_flatMap, traffic]
  refine congrArg List.sum (List.map_congr_left fun v hv => ?_)
  exact length_signalsOf one (List.mem_filter.1 hv).2

end

end Tableau

/-! ### Events of rounds -/

namespace Event

/-- How many signals an event tells of. -/
def sent : Event → Nat
  | roundComplete _ _ signals _ => signals
  | _ => 0

/-- The events of consecutive rounds, the first of which has the given number and finds the given
number of slots in use. Every other one finds in use what the one before it activated. The last
argument is what the last one leaves in use. -/
inductive Ledger : Nat → Nat → List Event → Nat → Prop
  | nil {round pending : Nat} : Ledger round pending [] pending
  | cons {round pending signals activated last : Nat} {events : List Event}
      (rest : Ledger (round + 1) activated events last) :
      Ledger round pending (roundComplete round pending signals activated :: events) last

theorem Ledger.append {round pending activated last : Nat} {events events' : List Event}
    (h : Ledger round pending events activated)
    (h' : Ledger (round + events.length) activated events' last) :
    Ledger round pending (events ++ events') last := by
  induction h with
  | nil => exact h'
  | cons _ ih =>
    refine .cons (ih ?_)
    rwa [List.length_cons, Nat.add_comm _ 1, ← Nat.add_assoc] at h'

end Event

/-! ### The figures of a round -/

namespace VertexProgram

variable {p : VertexProgram S D M G} {prototype : S} {c : Context} {persist : Bool} {v : Vertex D}
  {state : S} {total : G}
  (saves : persist = true → ∃ bytes, p.save (p.apply c v.site total state v.value).1 = .ok bytes)
include saves

/-- What scatter finds in the slot that apply left is what is kept of the state. -/
theorem revive_slotOf_eq_kept :
    p.revive prototype (p.slotOf c persist (v, .live state total)) =
      (p.kept persist prototype (p.apply c v.site total state v.value).1).map some := by
  cases persist with
  | false => rfl
  | true =>
    obtain ⟨bytes, hsave⟩ := saves rfl
    simp [slotOf, hsave, Except.toOption, revive, kept, Except.bind]

theorem signalsIn_slotOf {state' : S}
    (h : p.kept persist prototype (p.apply c v.site total state v.value).1 = .ok state')
    (c' : Context) (w : Vertex D) :
    p.signalsIn prototype c' (w, p.slotOf c persist (v, .live state total)) =
      p.signals c' w state' := by
  rw [signalsIn, revive_slotOf_eq_kept saves, h]
  rfl

/-- If it can be said what a slot sends, something was kept of the state. -/
theorem exists_kept_of_outgoing {c' : Context} {w : Vertex D} {sends : Aside M}
    (h : p.outgoing prototype c' (w, p.slotOf c persist (v, .live state total)) = .ok sends) :
    ∃ state', p.kept persist prototype (p.apply c v.site total state v.value).1 = .ok state' := by
  obtain ⟨found, hrevive⟩ := exists_revive_of_outgoing h
  rw [revive_slotOf_eq_kept saves] at hrevive
  cases hkept : p.kept persist prototype (p.apply c v.site total state v.value).1 with
  | error cause =>
    rw [hkept] at hrevive
    cases hrevive
  | ok state' => exact ⟨state', rfl⟩

end VertexProgram

namespace Engine

variable [Payload M] {e : Engine S D M G} {g : Graph D}

theorem numActive_deliverLanes (e : Engine S D M G) (picks : List Nat)
    (lanes : List (List (Signal M) × Bool)) :
    (e.deliverLanes picks lanes).numActive = e.numActive := by
  have hactive : (e.deliverLanes picks lanes).workers.map Worker.active =
      e.workers.map Worker.active := by
    refine List.ext_getElem? fun i => ?_
    simp only [deliverLanes, List.getElem?_map, List.getElem?_mapIdx, Option.map_map]
    refine congrArg (Option.map · _) (funext fun worker => ?_)
    simp only [Function.comp_apply]
    split <;> rfl
  rw [numActive, numActive, hactive]

/-- What the workers of a scatter phase send that did not fail. -/
theorem Regular.numSent_scatterPhase (w : Regular e) {n : Network D}
    (hn : n.topology.size = e.slots.size) {picks : List Nat}
    (h : (e.scatterPhase n picks).2 = none) :
    (e.scatterPhase n picks).1.numSent =
      ((e.occupants n).flatMap (e.program.signalsIn e.prototype (e.context n))).length := by
  have hlen := length_occupants hn
  have hsent : (e.lanes n).flatMap Prod.fst =
      (e.occupants n).flatMap (e.program.signalsIn e.prototype (e.context n)) := by
    rw [lanes, List.flatMap_map, w.flatMap_share hlen]
  rw [w.scatterPhase_of_none hn h, ← hsent]
  refine numSent_deliverLanes e picks ?_ ?_
  · rw [lanes, List.length_map, w.length_share hlen]
  · intro lane hlane
    obtain ⟨share, -, rfl⟩ := List.mem_map.1 hlane
    rfl

/-- The slots that came into use in a scatter phase that did not fail. -/
theorem Regular.numActivated_scatterPhase (w : Regular e) {n : Network D}
    (hn : n.topology.size = e.slots.size) {picks : List Nat}
    (h : (e.scatterPhase n picks).2 = none) :
    (e.scatterPhase n picks).1.numActivated + e.accumulator.numPending =
      (e.scatterPhase n picks).1.accumulator.numPending := by
  rw [w.scatterPhase_of_none hn h]
  refine numActivated_deliverLanes e picks ?_ ?_ ?_
  · rw [lanes, List.length_map, w.length_share (length_occupants hn)]
  · intro lane hlane
    obtain ⟨share, -, rfl⟩ := List.mem_map.1 hlane
    rfl
  · intro lane hlane signal hsignal
    obtain ⟨share, hshare, rfl⟩ := List.mem_map.1 hlane
    have hmem : signal ∈
        (e.program.scatterAll e.prototype (e.context n) share.2).signals := by
      rwa [scatterAll_of_scatterPhase w.only h hshare]
    exact VertexProgram.target_lt_of_mem_scatterAll hmem

variable [Payload G] [Inhabited G] {schedule : Schedule}

section Round

variable (w : Regular e) (hf : g.finalized = true) (fits : g.numVertices = e.accumulator.size)
include w hf fits

theorem Regular.numActive_behindScatter :
    (e.behindScatter g hf schedule).1.numActive = e.accumulator.numPending := by
  have hn := w.topology_size hf fits
  calc (e.behindScatter g hf schedule).1.numActive
      = ((e.gathered (g.network hf) schedule.gather).applyPhase (g.network hf)
          schedule.apply).1.numActive := numActive_deliverLanes ..
    _ = (e.gatherPhase (g.network hf) schedule.gather).1.numActive := numActive_deliverLanes ..
    _ = (g.network hf).vertices.countP fun v => (e.accumulator.peek v.id).isSome :=
        w.numActive_gatherPhase hn (g.topology_size_le hf) _
    _ = ((g.network hf).vertices.map Vertex.id).countP fun v => (e.accumulator.peek v).isSome := by
        rw [List.countP_map]
        rfl
    _ = e.accumulator.numPending := by
        rw [Accumulator.numPending_eq_countP (fits ▸ g.size_le), Network.map_id_vertices, hn,
          w.size_slots]

omit [Payload M] w in
/-- What a vertex sends behind apply, if it can be said, is what it sends in the tableau. -/
theorem signalsIn_applied (below : e.round < e.options.maxRounds)
    (saves : e.options.persist = true → ∀ state, e.LeftByApply g state →
      ∃ bytes, e.program.save state = .ok bytes)
    {v : Vertex D} (hv : v ∈ (g.network hf).vertices) {sends : Aside M}
    (h : e.program.outgoing e.prototype (e.context (g.network hf))
      (v.withValues ((e.tableau g hf).values e.ideal e.round),
        e.program.slotOf (e.context (g.network hf)) e.options.persist
          (v, e.started (g.network hf) v)) = .ok sends) :
    e.program.signalsIn e.prototype (e.context (g.network hf))
      (v.withValues ((e.tableau g hf).values e.ideal e.round),
        e.program.slotOf (e.context (g.network hf)) e.options.persist
          (v, e.started (g.network hf) v)) =
      (e.tableau g hf).signalsOf e.machine e.round v := by
  rw [Tableau.signalsOf]
  cases hp : e.accumulator.peek v.id with
  | none =>
    rw [started_of_none hp, show (e.tableau g hf).pending v.id = none from hp]
    rfl
  | some payload =>
    have hleft := leftByApply_of_started hf fits below hv (started_of_some hp)
    rw [started_of_some hp] at h ⊢
    obtain ⟨state', hkept⟩ := VertexProgram.exists_kept_of_outgoing
      (fun persist => saves persist _ hleft) h
    rw [VertexProgram.signalsIn_slotOf (fun persist => saves persist _ hleft) hkept,
      show (e.tableau g hf).pending v.id = some payload from hp, ← carry_of_kept hkept,
      ← context_eq hf fits]
    rfl

variable (scattered : (e.behindScatter g hf schedule).2 = none)
include scattered

theorem Regular.numSent_behindScatter (below : e.round < e.options.maxRounds)
    (saves : e.options.persist = true → ∀ state, e.LeftByApply g state →
      ∃ bytes, e.program.save state = .ok bytes) :
    (e.behindScatter g hf schedule).1.numSent =
      ((e.tableau g hf).sent e.machine e.round).length := by
  have hn := w.topology_size hf fits
  have hshape := w.sameShape_applied hn schedule
  have w' := w.of_sameShape hshape
  have hn' := w.topology_size_applied hf fits schedule ((e.tableau g hf).values e.ideal e.round)
  have hocc := w.occupants_applied_of_saves hf fits below saves schedule
  have hout := w'.exists_outgoing_of_scatterPhase hn' scattered
  refine (w'.numSent_scatterPhase hn' scattered).trans (congrArg List.length ?_)
  rw [hocc, List.flatMap_map, context_applied]
  refine List.flatMap_congr fun v hv => ?_
  obtain ⟨sends, hsends⟩ := hout _ (hocc ▸ List.mem_map_of_mem hv)
  rw [context_applied] at hsends
  exact signalsIn_applied hf fits below saves hv hsends

theorem Regular.numActivated_behindScatter (below : e.round < e.options.maxRounds)
    (saves : e.options.persist = true → ∀ state, e.LeftByApply g state →
      ∃ bytes, e.program.save state = .ok bytes) :
    (e.behindScatter g hf schedule).1.numActivated =
      (e.behindScatter g hf schedule).1.accumulator.numPending := by
  have hn := w.topology_size hf fits
  have hshape := w.sameShape_applied hn schedule
  have hn' := w.topology_size_applied hf fits schedule ((e.tableau g hf).values e.ideal e.round)
  have hsize : (e.applied (g.network hf) schedule).accumulator.size ≤ UInt32.size := by
    rw [hshape.size_accumulator, ← fits]
    exact g.size_le
  have hzero : (e.applied (g.network hf) schedule).accumulator.numPending = 0 := by
    refine (Accumulator.numPending_eq_zero_iff hsize).2 fun v => ?_
    rw [applied, w.applyPhase_of_saves hf fits below saves]
    exact w.peek_gatherPhase hn (g.topology_size_le hf) schedule.gather v
  have hsum := (w.of_sameShape hshape).numActivated_scatterPhase hn' scattered
  rwa [hzero, Nat.add_zero] at hsum

end Round

/-! ### Steps and runs

Of programs that only scatter it is known how a step ends. What a step tells that completes a round
is then known of all programs that are silent till they scatter. -/

theorem Regular.events_step (w : Regular e)
    (completed : (e.step g schedule).engine.round ≠ e.round) :
    ∃ hf : g.finalized = true,
      (e.step g schedule).events =
        [.roundComplete e.round e.accumulator.numPending
          ((e.tableau g hf).sent e.machine e.round).length
          (e.step g schedule).engine.accumulator.numPending] ∧
      (e.step g schedule).engine.numActivated =
        (e.step g schedule).engine.accumulator.numPending := by
  cases w.stepEnds g schedule with
  | refused outcome => exact absurd (by rw [outcome]) completed
  | capped cap outcome => exact absurd (by rw [outcome]) completed
  | quiet _ _ _ _ _ round => exact absurd round completed
  | failed _ _ round => exact absurd round completed
  | completed hf fits below loud saves scattered allIdle outcome =>
    have hactivated := w.numActivated_behindScatter hf fits scattered below saves
    refine ⟨hf, ?_⟩
    rw [outcome]
    refine ⟨?_, hactivated⟩
    rw [roundEvent, round_behindScatter, w.numActive_behindScatter hf fits,
      w.numSent_behindScatter hf fits scattered below saves, hactivated,
      accumulator_completeRound]

/-- **What a completed round tells**: the vertices for which something was pending, the signals of
the round, and the vertices for which something is pending now. -/
theorem WellShaped.events_step (w : WellShaped e) (silent : e.program.SilentTillScatter)
    (completed : (e.step g schedule).engine.round ≠ e.round) :
    ∃ hf : g.finalized = true,
      (e.step g schedule).events =
        [.roundComplete e.round e.accumulator.numPending
          ((e.tableau g hf).sent e.machine e.round).length
          (e.step g schedule).engine.accumulator.numPending] ∧
      (e.step g schedule).engine.numActivated =
        (e.step g schedule).engine.accumulator.numPending := by
  cases hr : (e.step g schedule).result with
  | error failure => exact absurd (uncounted_of_step_error hr).round completed
  | ok more =>
    have hstep := w.step_unbroken silent hr
    have completed' : (e.unbroken.step g schedule).engine.round ≠ e.unbroken.round := by
      rw [hstep]
      exact completed
    have h := (w.regular_unbroken silent).events_step completed'
    rw [hstep] at h
    exact h

/-- The accounts of an outcome agree with the engine that it came from. -/
structure Accounts {α : Type} (e : Engine S D M G) (o : Outcome S D M G α) : Prop where
  rounds : o.engine.round = e.round + o.events.length
  signals : o.engine.signals = e.signals + (o.events.map Event.sent).sum
  ledger : ∃ last, Event.Ledger e.round e.accumulator.numPending o.events last ∧
    ∀ a, o.result = .ok a → last = o.engine.accumulator.numPending

omit [Payload M] [Payload G] [Inhabited G] in
/-- Nothing was told, and nothing was counted. -/
theorem Uncounted.accounts {α : Type} {o : Outcome S D M G α} (h : Uncounted e o)
    (pending : ∀ a, o.result = .ok a →
      e.accumulator.numPending = o.engine.accumulator.numPending) : Accounts e o := by
  refine ⟨?_, ?_, e.accumulator.numPending, ?_, pending⟩
  · rw [h.round, h.events]
    rfl
  · rw [h.signals, h.events]
    rfl
  · rw [h.events]
    exact .nil

theorem Regular.accounts_step (w : Regular e) (g : Graph D) (schedule : Schedule) :
    Accounts e (e.step g schedule) := by
  cases w.stepEnds g schedule with
  | refused outcome =>
    rw [outcome]
    exact Uncounted.accounts ⟨rfl, rfl, rfl⟩ nofun
  | capped cap outcome =>
    rw [outcome]
    exact Uncounted.accounts ⟨rfl, rfl, rfl⟩ fun _ _ => rfl
  | quiet _ _ accumulator _ _ round signals _ events =>
    exact Uncounted.accounts ⟨round, signals, events⟩ fun _ _ => by rw [accumulator]
  | failed _ _ round signals events result =>
    refine Uncounted.accounts ⟨round, signals, events⟩ fun more ok => ?_
    rw [result] at ok
    cases ok
  | completed hf fits below loud saves scattered allIdle outcome =>
    have hactivated := w.numActivated_behindScatter hf fits scattered below saves
    rw [outcome]
    refine ⟨?_, ?_, (e.behindScatter g hf schedule).1.accumulator.numPending, ?_, ?_⟩
    · rw [round_completeRound, round_behindScatter, List.length_singleton]
    · rw [signals_completeRound, signals_behindScatter, roundEvent]
      rfl
    · rw [roundEvent, round_behindScatter, w.numActive_behindScatter hf fits, hactivated]
      exact .cons .nil
    · intro _ _
      rw [accumulator_completeRound]

/-- **What a step tells**, however it ends. -/
theorem WellShaped.accounts_step (w : WellShaped e) (silent : e.program.SilentTillScatter)
    (g : Graph D) (schedule : Schedule) : Accounts e (e.step g schedule) := by
  cases hr : (e.step g schedule).result with
  | error failure =>
    refine (uncounted_of_step_error hr).accounts fun more ok => ?_
    rw [hr] at ok
    cases ok
  | ok more =>
    have h := (w.regular_unbroken silent).accounts_step g schedule
    rw [w.step_unbroken silent hr] at h
    exact ⟨h.rounds, h.signals, h.ledger⟩

omit [Payload M] [Payload G] [Inhabited G] in
/-- What follows an outcome that did not fail adds to its accounts. -/
theorem Accounts.append {α β : Type} {o : Outcome S D M G α} {o' : Outcome S D M G β} {a : α}
    (h : Accounts e o) (ok : o.result = .ok a) (h' : Accounts o.engine o') :
    Accounts e { o' with events := o.events ++ o'.events } := by
  obtain ⟨last, hledger, hlast⟩ := h.ledger
  obtain ⟨last', hledger', hlast'⟩ := h'.ledger
  refine ⟨?_, ?_, last', hledger.append ?_, hlast'⟩
  · rw [h'.rounds, h.rounds, List.length_append, Nat.add_assoc]
  · rw [h'.signals, h.signals, List.map_append, List.sum_append, Nat.add_assoc]
  · rwa [hlast a ok, ← h.rounds]

/-- **What a run tells**, however it ends. -/
theorem WellShaped.accounts_runRounds (w : WellShaped e) (silent : e.program.SilentTillScatter)
    (g : Graph D) (schedules : Nat → Schedule) : Accounts e (e.runRounds g schedules) := by
  induction e, g using rounds_induction (M := M) (G := G) schedules with
  | step e g ih =>
    have h := w.accounts_step silent g (schedules e.round)
    have hshape := w.sameShape_step g (schedules e.round)
    cases hr : (e.step g (schedules e.round)).result with
    | error failure =>
      obtain ⟨last, hledger, -⟩ := h.ledger
      rw [runRounds_of_error hr]
      exact ⟨h.rounds, h.signals, last, hledger, nofun⟩
    | ok more =>
      cases more with
      | false =>
        obtain ⟨last, hledger, hlast⟩ := h.ledger
        rw [runRounds_of_last hr]
        exact ⟨h.rounds, h.signals, last, hledger, fun _ _ => hlast _ hr⟩
      | true =>
        rw [runRounds_of_more hr]
        exact h.append hr (ih hr (w.of_sameShape hshape) (hshape.program ▸ silent))

variable [Inhabited M]

/-- **The accounts balance.** A completed round tells how many vertices had something pending, by
their degrees how many signals they sent, and how many have something pending behind it; the
workers' counts add up to that, however they share it. The next round finds what this one
activated. A run tells of consecutive rounds, as many as the engine has moved on and with as many
signals as it has counted. If the run goes through, it reports these two numbers, without what was
sent before, and what the last round activated is what is pending. -/
theorem Reachable.accounts_balance (reachable : Reachable e)
    (silent : e.program.SilentTillScatter) (one : e.program.SendsOne) (g : Graph D) :
    (∀ (hf : g.finalized = true) (schedule : Schedule),
      (e.step g schedule).engine.round ≠ e.round →
      (e.step g schedule).events =
        [.roundComplete e.round e.accumulator.numPending
          ((e.tableau g hf).traffic e.machine e.round)
          (e.step g schedule).engine.accumulator.numPending] ∧
      (e.step g schedule).engine.numActivated =
        (e.step g schedule).engine.accumulator.numPending ∧
      ∀ (g' : Graph D) (schedule' : Schedule),
        ((e.step g schedule).engine.step g' schedule').engine.round ≠
          (e.step g schedule).engine.round →
        ∃ signals activated, ((e.step g schedule).engine.step g' schedule').events =
          [.roundComplete (e.step g schedule).engine.round
            (e.step g schedule).engine.numActivated signals activated]) ∧
    ∀ schedules : Nat → Schedule,
      (e.run g schedules).engine.round = e.round + (e.run g schedules).events.length ∧
      (e.run g schedules).engine.signals =
        e.signals + ((e.run g schedules).events.map Event.sent).sum ∧
      ∃ last, Event.Ledger e.round e.accumulator.numPending (e.run g schedules).events last ∧
        ∀ summary, (e.run g schedules).result = .ok summary →
          summary.rounds = (e.run g schedules).events.length ∧
          summary.signals = ((e.run g schedules).events.map Event.sent).sum ∧
          last = (e.run g schedules).engine.accumulator.numPending := by
  have w := reachable.wellShaped
  constructor
  · intro hf schedule completed
    obtain ⟨_, hevents, hactivated⟩ := w.events_step silent completed
    rw [Tableau.length_sent (show e.machine.program.SendsOne from one)] at hevents
    refine ⟨hevents, hactivated, fun g' schedule' completed' => ?_⟩
    have silent' := (w.sameShape_step g schedule).program ▸ silent
    obtain ⟨_, hnext, -⟩ :=
      (reachable.step g schedule).wellShaped.events_step silent' completed'
    rw [hactivated]
    exact ⟨_, _, hnext⟩
  · intro schedules
    have h := w.accounts_runRounds silent g schedules
    obtain ⟨last, hledger, hlast⟩ := h.ledger
    refine ⟨h.rounds, h.signals, last, hledger, fun summary hresult => ?_⟩
    rw [run, h.rounds, h.signals] at hresult
    cases hr : (e.runRounds g schedules).result with
    | error failure =>
      rw [hr] at hresult
      cases hresult
    | ok _ =>
      rw [hr] at hresult
      obtain rfl := Except.ok.inj hresult
      exact ⟨Nat.add_sub_cancel_left .., Nat.add_sub_cancel_left .., hlast _ hr⟩

/-- Both vertices take part and tell each other. -/
theorem accounts_balance_twoWorkers :
    let g := Graph.twoCycle 5 7
    let schedule : Schedule := ⟨[1, 0], [], [1]⟩
    (twoWorkers.step g schedule).engine.round ≠ twoWorkers.round ∧
      (twoWorkers.step g schedule).events = [.roundComplete 0 2 2 2] ∧
      ∃ summary, (twoWorkers.run g fun _ => schedule).result = .ok summary ∧
        summary.signals =
          ((twoWorkers.run g fun _ => schedule).events.map Event.sent).sum ∧
        (twoWorkers.run g fun _ => schedule).engine.round = summary.rounds := by
  intro g schedule
  have new : create tally 0 2 ⟨3, 2, true⟩ = .ok (ofProgram tally 0 2 ⟨3, 2, true⟩) := rfl
  have reachable : Reachable twoWorkers := .signalAll (.create new)
  have only : twoWorkers.program.OnlyScatters := .of_asides rfl
  have ready : Runnable twoWorkers g :=
    ⟨⟨reachable.wellShaped, only⟩, rfl, rfl, .inr ⟨UInt64.add_comm, UInt64.add_assoc⟩,
      tally_staysInside, carries_of_load_save fun state => ⟨_, _, rfl, rfl⟩⟩
  have one : twoWorkers.program.SendsOne := fun _ _ _ _ => rfl
  have completed : (twoWorkers.step g schedule).engine.round ≠ twoWorkers.round := by
    decide +kernel
  obtain ⟨rounds, runs⟩ := Reachable.accounts_balance reachable only.silentTillScatter one g
  obtain ⟨hevents, -, -⟩ := rounds rfl schedule completed
  obtain ⟨hround, -, _, -, hsummary⟩ := runs fun _ => schedule
  have hresult : (twoWorkers.run g fun _ => schedule).result = .ok _ :=
    congrArg (Except.map _) (ready.run_eq_rounds _).result
  obtain ⟨hrounds, hsignals, -⟩ := hsummary _ hresult
  refine ⟨completed, hevents.trans (by decide +kernel), _, hresult, hsignals, ?_⟩
  rw [hround, hrounds]
  exact Nat.zero_add _

end Engine

end Superstep
