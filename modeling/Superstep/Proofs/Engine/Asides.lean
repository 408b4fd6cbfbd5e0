import Superstep.Engine.Worker

/-!
# What programs do on the way

A program may send signals in any step and break off in any step. What is said of rounds as a whole
is said of programs that leave sending to `scatter`, because a signal that is sent while payloads
are taken is found in this round or in the next one, depending on who comes first. `OnlyScatters`
is that condition. Breaking off while scattering is not ruled out by it: what a round that failed
leaves behind is part of what is said.

Two conditions ask for less, because they leave it to a program where it breaks off.
`SilentTillScatter` is that nothing is sent before `scatter`: of rounds that are completed this says
as much. `GathersSilently` is that nothing is sent while payloads are taken, whatever happens later
in the round. That is all it takes for the order in which payloads are taken not to matter.

## Main definitions

* `VertexProgram.signals`: what a state sends over its links, if nothing breaks off
* `VertexProgram.OnlyScatters`, `VertexProgram.SilentTillScatter`, `VertexProgram.GathersSilently`
* `VertexProgram.StaysInside`: scattering goes through
-/

namespace Superstep

variable {S D M G : Type}

/-! ### Steps one after another -/

namespace Aside

theorem silent_andThen (second : Aside M) : ({} : Aside M).andThen second = second := rfl

theorem andThen_of_signals {first second : Aside M} (h : first.signals = [])
    (hnone : (first.andThen second).fault = none) : first.andThen second = second := by
  obtain ⟨signals, _ | fault⟩ := first
  · obtain rfl : signals = [] := h
    rfl
  · cases hnone

theorem signals_andThen_eq_nil {first second : Aside M} (h : first.signals = [])
    (h' : second.signals = []) : (first.andThen second).signals = [] := by
  obtain ⟨signals, _ | fault⟩ := first
  · obtain rfl : signals = [] := h
    exact h'
  · exact h

theorem inTurn_cons (step : Aside M) (steps : List (Aside M)) :
    inTurn (step :: steps) = step.andThen (inTurn steps) := rfl

theorem inTurn_eq_silent {steps : List (Aside M)} (h : ∀ step ∈ steps, step = {}) :
    inTurn steps = {} := by
  induction steps with
  | nil => rfl
  | cons step steps ih =>
    rw [inTurn_cons, h step List.mem_cons_self, silent_andThen,
      ih fun step hstep => h step (List.mem_cons_of_mem _ hstep)]

theorem signals_inTurn_eq_nil {steps : List (Aside M)} (h : ∀ step ∈ steps, step.signals = []) :
    (inTurn steps).signals = [] := by
  induction steps with
  | nil => rfl
  | cons step steps ih =>
    exact signals_andThen_eq_nil (h step List.mem_cons_self)
      (ih fun step hstep => h step (List.mem_cons_of_mem _ hstep))

/-- Steps of which none breaks off send everything. -/
theorem signals_inTurn {steps : List (Aside M)} (h : (inTurn steps).fault = none) :
    (inTurn steps).signals = steps.flatMap Aside.signals := by
  induction steps with
  | nil => rfl
  | cons step steps ih =>
    obtain ⟨signals, _ | fault⟩ := step
    · exact congrArg (signals ++ ·) (ih h)
    · cases h

theorem fault_inTurn {steps : List (Aside M)} (h : ∀ step ∈ steps, step.fault = none) :
    (inTurn steps).fault = none := by
  induction steps with
  | nil => rfl
  | cons step steps ih =>
    obtain ⟨signals, fault⟩ := step
    obtain rfl : fault = none := h _ List.mem_cons_self
    exact ih fun step hstep => h step (List.mem_cons_of_mem _ hstep)

end Aside

namespace VertexProgram

/-! ### Programs that leave sending to scatter -/

/-- Signals are sent from `scatter` only, and nothing breaks off before that. -/
structure OnlyScatters (p : VertexProgram S D M G) : Prop where
  init : ∀ c v payload state, p.asides.init c v payload state = {}
  gatherLinks : ∀ c v state, p.asides.gatherLinks c v state = {}
  gather : ∀ c v link state, p.asides.gather c v link state = {}
  apply : ∀ c site total state value, p.asides.apply c site total state value = ([], none)
  scatterLinks : ∀ c v state, (p.asides.scatterLinks c v state).signals = []

/-- Nothing is sent while payloads are taken. -/
structure GathersSilently (p : VertexProgram S D M G) : Prop where
  init : ∀ c v payload state, (p.asides.init c v payload state).signals = []
  gatherLinks : ∀ c v state, (p.asides.gatherLinks c v state).signals = []
  gather : ∀ c v link state, (p.asides.gather c v link state).signals = []

/-- Nothing is sent before `scatter`. -/
structure SilentTillScatter (p : VertexProgram S D M G) : Prop extends GathersSilently p where
  apply : ∀ c site total state value, (p.asides.apply c site total state value).1 = []
  scatterLinks : ∀ c v state, (p.asides.scatterLinks c v state).signals = []

variable {p : VertexProgram S D M G}

/-- A program without asides leaves sending to scatter. -/
theorem OnlyScatters.of_asides (h : p.asides = {}) : p.OnlyScatters := by
  constructor <;> (intros; rw [h])

theorem OnlyScatters.silentTillScatter (only : p.OnlyScatters) : p.SilentTillScatter where
  init c v payload state := by rw [only.init]
  gatherLinks c v state := by rw [only.gatherLinks]
  gather c v link state := by rw [only.gather]
  apply c site total state value := by rw [only.apply]
  scatterLinks := only.scatterLinks

theorem OnlyScatters.gathersSilently (only : p.OnlyScatters) : p.GathersSilently :=
  only.silentTillScatter.toGathersSilently

theorem GathersSilently.signals_opening (silent : p.GathersSilently) (prototype : S) (c : Context)
    (v : Vertex D) (payload : M) : (p.opening prototype c v payload).signals = [] := by
  refine Aside.signals_andThen_eq_nil (silent.init ..) ?_
  refine Aside.signals_andThen_eq_nil (silent.gatherLinks ..) (Aside.signals_inTurn_eq_nil ?_)
  intro step hstep
  obtain ⟨link, -, rfl⟩ := List.mem_map.1 hstep
  exact silent.gather ..

theorem GathersSilently.overture_fst (silent : p.GathersSilently) (prototype : S) (c : Context)
    (v : Vertex D) (payload : Option M) : (p.overture prototype c v payload).1 = [] := by
  cases payload with
  | none => rfl
  | some payload =>
    simp only [overture, Option.elim_some, silent.signals_opening, deliverable, List.takeWhile_nil]

theorem OnlyScatters.opening_eq (only : p.OnlyScatters) (prototype : S) (c : Context)
    (v : Vertex D) (payload : M) : p.opening prototype c v payload = {} := by
  rw [opening, only.init, Aside.silent_andThen, only.gatherLinks, Aside.silent_andThen]
  refine Aside.inTurn_eq_silent fun step hstep => ?_
  obtain ⟨link, -, rfl⟩ := List.mem_map.1 hstep
  exact only.gather ..

theorem OnlyScatters.overture_eq (only : p.OnlyScatters) (prototype : S) (c : Context)
    (v : Vertex D) (payload : Option M) : p.overture prototype c v payload = ([], none) := by
  cases payload with
  | none => rfl
  | some payload =>
    rw [overture, Option.elim_some, only.opening_eq]
    rfl

theorem OnlyScatters.attempt_eq (only : p.OnlyScatters) (c : Context) (v : Vertex D) (state : S)
    (total : G) :
    p.attempt c v state total =
      ⟨[], (p.apply c v.site total state v.value).1, (p.apply c v.site total state v.value).2,
        none⟩ := by
  rw [attempt, only.apply]
  rfl

/-! ### Scattering -/

/-- What a state sends over all its links, one link after the other. -/
def signals (p : VertexProgram S D M G) (c : Context) (v : Vertex D) (state : S) :
    List (Signal M) :=
  (v.links (p.scatterLinks c v state)).flatMap (p.scatter c v · state)

/-- A state whose scattering does not break off sends its signals. -/
theorem OnlyScatters.sends_eq (only : p.OnlyScatters) {c : Context} {v : Vertex D} {state : S}
    (h : (p.sends c v state).fault = none) : p.sends c v state = ⟨p.signals c v state, none⟩ := by
  have hlinks := Aside.andThen_of_signals (only.scatterLinks c v state) h
  rw [sends] at h ⊢
  rw [hlinks] at h ⊢
  have hsignals := Aside.signals_inTurn h
  rw [List.flatMap_map] at hsignals
  exact (Aside.mk.injEq ..).mpr ⟨hsignals, h⟩

/-- Scattering goes through: nothing breaks off, and every signal goes to a vertex of the
network. -/
structure StaysInside (p : VertexProgram S D M G) : Prop where
  scatterLinks : ∀ c v state, (p.asides.scatterLinks c v state).fault = none
  scatter : ∀ c v link state, p.asides.scatter c v link state = none
  targets : ∀ (c : Context) (v : Vertex D) (state : S), ∀ signal ∈ p.signals c v state,
    signal.target.toNat < v.network.topology.size

theorem StaysInside.of_asides (h : p.asides = {})
    (targets : ∀ (c : Context) (v : Vertex D) (state : S), ∀ signal ∈ p.signals c v state,
      signal.target.toNat < v.network.topology.size) : p.StaysInside where
  scatterLinks c v state := by rw [h]
  scatter c v link state := by rw [h]
  targets := targets

theorem StaysInside.sends_eq (inside : p.StaysInside) (only : p.OnlyScatters) (c : Context)
    (v : Vertex D) (state : S) : p.sends c v state = ⟨p.signals c v state, none⟩ := by
  refine only.sends_eq ?_
  have hlinks : p.asides.scatterLinks c v state = {} :=
    (Aside.mk.injEq ..).mpr ⟨only.scatterLinks c v state, inside.scatterLinks c v state⟩
  rw [sends, hlinks, Aside.silent_andThen]
  refine Aside.fault_inTurn fun step hstep => ?_
  obtain ⟨link, -, rfl⟩ := List.mem_map.1 hstep
  exact inside.scatter ..

end VertexProgram

end Superstep
