import Superstep.Error
import Superstep.Graph.Vertex

/-!
# Vertex programs

A vertex program says what a vertex does in one round. For every vertex with a pending payload the
engine starts from a prototype state and takes it through

```
init, gather over links, apply | scatter over links | next round
```

where a bar is a barrier: every vertex has finished what stands before it when the first one
starts what stands behind it. The state lives for one round. What has to last longer goes into the
value of the vertex, which only `apply` can change.

What a step computes is a total function of what it is given. `scatter` is the step that is there
to send signals, and it sends them by returning them. But any other step that is told about the run
may send signals too while it computes, and any step may break off. These are the `Asides` of a
program. Most programs have none, so asides that are not given are silent.
-/

namespace Superstep

/-- Which links of a vertex take part in a step. -/
inductive Direction where
  | none
  | inward
  | outward
  | both
deriving DecidableEq

namespace Direction

def includesIn : Direction → Bool
  | inward | both => true
  | none | outward => false

def includesOut : Direction → Bool
  | outward | both => true
  | none | inward => false

end Direction

/-- The links of a vertex in a direction, those that reach it before those that leave it. -/
def Vertex.links {D : Type} (v : Vertex D) (direction : Direction) : List (Link D) :=
  (if direction.includesIn then v.inLinks else []) ++
    (if direction.includesOut then v.outLinks else [])

/-- What a program knows about the run. Rounds count from zero. How many signals its worker has
sent so far, and how many of them have reached an empty slot, is not part of it: that depends on
how the vertices are shared and on the schedule, and programs do not ask. -/
structure Context where
  round : Nat
  maxRounds : Nat
  numVertices : Nat
  numEdges : Nat

/-- Whether no round follows this one. -/
def Context.isLastRound (c : Context) : Bool := c.maxRounds ≤ c.round + 1

/-- A payload on its way. -/
structure Signal (M : Type) where
  target : VertexId
  payload : M

/-- A signal and the value that its sender has at that moment. -/
structure Emission (D M : Type) where
  signal : Signal M
  value : D

/-! ### Asides -/

/-- What a step does besides computing its result: it sends signals, in order, and behind them it
may break off. -/
structure Aside (M : Type) where
  signals : List (Signal M) := []
  fault : Option Fault := none

namespace Aside

variable {M : Type}

/-- One step and then another one, unless the first breaks off. -/
def andThen (first second : Aside M) : Aside M :=
  match first.fault with
  | some _ => first
  | none => ⟨first.signals ++ second.signals, second.fault⟩

/-- Steps one after another, up to the first that breaks off. -/
def inTurn (steps : List (Aside M)) : Aside M := steps.foldr andThen {}

end Aside

/-- What the steps of a program do besides computing. A step that breaks off has no result; what
breaks off in `save` does so at the end of `apply`, and in `load` at the start of `scatterLinks`. -/
structure Asides (S D M G : Type) where
  init : Context → Vertex D → M → S → Aside M := fun _ _ _ _ => {}
  gatherLinks : Context → Vertex D → S → Aside M := fun _ _ _ => {}
  gather : Context → Vertex D → Link D → S → Aside M := fun _ _ _ _ => {}
  /-- Every signal comes with the state and the value at that moment. Where `apply` breaks off
  behind its signals, state and value are what its result says. -/
  apply : Context → Site → G → S → D → List (Emission (S × D) M) × Option Fault :=
    fun _ _ _ _ _ => ([], none)
  scatterLinks : Context → Vertex D → S → Aside M := fun _ _ _ => {}
  /-- Whether scattering over a link breaks off behind what it sends. -/
  scatter : Context → Vertex D → Link D → S → Option Fault := fun _ _ _ _ => none

/-! ### Programs -/

/-- A vertex-centric algorithm. `S` is its state within a round, `D` the value of a vertex, `M`
what signals carry and `G` what is gathered over links. -/
structure VertexProgram (S D M G : Type) where
  /-- Takes in the payload that was delivered to the vertex. -/
  init : Context → Vertex D → M → S → S
  /-- The links to gather over. -/
  gatherLinks : Context → Vertex D → S → Direction
  /-- What one link contributes. -/
  gather : Context → Vertex D → Link D → S → G
  /-- The state and the value of the vertex, given the total of what was gathered. -/
  apply : Context → Site → G → S → D → S × D
  /-- The links to scatter over. -/
  scatterLinks : Context → Vertex D → S → Direction
  /-- What is sent over one link. -/
  scatter : Context → Vertex D → Link D → S → List (Signal M)
  /-- The bytes of a state, from which `load` restores what `scatter` needs. -/
  save : S → Except Error (List UInt8)
  /-- The prototype with what the bytes hold. -/
  load : List UInt8 → S → Except Error S
  /-- What the steps do on the way. -/
  asides : Asides S D M G := {}

namespace VertexProgram

variable {S D M G : Type}

/-- What a state gathers over all its links: the first contribution, with the others merged into
it in order, or the default if there is none. -/
def total [Payload G] [Inhabited G] (p : VertexProgram S D M G) (c : Context) (v : Vertex D)
    (state : S) : G :=
  match (v.links (p.gatherLinks c v state)).map (p.gather c v · state) with
  | [] => default
  | first :: others => others.foldl Payload.merge first

/-- What a vertex does on the way while it takes a payload in and gathers. -/
def opening (p : VertexProgram S D M G) (prototype : S) (c : Context) (v : Vertex D)
    (payload : M) : Aside M :=
  let state := p.init c v payload prototype
  let links := v.links (p.gatherLinks c v state)
  (p.asides.init c v payload prototype).andThen <|
    (p.asides.gatherLinks c v state).andThen <|
      .inTurn (links.map (p.asides.gather c v · state))

/-- What a state sends while it scatters over all its links, and where that breaks off. -/
def sends (p : VertexProgram S D M G) (c : Context) (v : Vertex D) (state : S) : Aside M :=
  (p.asides.scatterLinks c v state).andThen <|
    .inTurn <| (v.links (p.scatterLinks c v state)).map fun link =>
      ⟨p.scatter c v link state, p.asides.scatter c v link state⟩

end VertexProgram

end Superstep
