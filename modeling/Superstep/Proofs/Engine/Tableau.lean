import Superstep.Proofs.Adjacency
import Superstep.Proofs.Engine.Asides
import Superstep.Proofs.Pending

/-!
# Rounds without workers

Between two rounds nothing is left of the workers, their shares and their slots: what a run has
reached is a value for every vertex and what is pending for it. That is a `Tableau`, and a round
takes one to the next. It is defined here vertex by vertex, with nothing shared and no order of
events but that of the vertices.

* A vertex takes part if something is pending for it. It then has a `turn`: it takes the payload
  in, gathers over its links, and applies the total. All of that sees the tableau before the round.
* The vertices that took part then send their signals. They see the values behind the round.
* What is pending afterwards is what was sent, merged per target. Nothing else is: a payload that
  was pending before is gone, and a signal is never taken in the round that sends it.

A vertex that gathers or scatters over a direction goes over its links one by one: all that reach
it, by ascending source, if the direction has them, and then all that leave it, by ascending target,
if the direction has them. Asides play no part here, so a tableau stands for what a program does
that only scatters.

## Main definitions

* `Machine`: what a round needs besides values and payloads
* `Tableau.round`: one round
* `Tableau.rounds`: rounds one after another, a quiet one included, which changes nothing
-/

namespace Superstep

/-- What a round needs besides values and payloads. -/
structure Machine (S D M G : Type) where
  program : VertexProgram S D M G
  /-- The state from which every vertex starts. -/
  prototype : S
  /-- What scatter finds of a state that apply left behind. -/
  carry : S → S
  maxRounds : Nat

/-- The values of a finalized graph, and what is pending for its vertices. -/
structure Tableau (D M : Type) where
  graph : Graph D
  finalized : graph.finalized = true
  pending : VertexId → Option M

variable {S D M G : Type}

/-- What a state gathers: the contributions of its links, those of in-links before those of
out-links, merged from the first one on; the default if there is none. -/
def VertexProgram.gathered [Payload G] [Inhabited G] (p : VertexProgram S D M G) (c : Context)
    (v : Vertex D) (state : S) : G :=
  (mergeAllInto Payload.merge none
    ((v.links (p.gatherLinks c v state)).map (p.gather c v · state))).getD default

theorem VertexProgram.total_eq_gathered [Payload G] [Inhabited G] (p : VertexProgram S D M G)
    (c : Context) (v : Vertex D) (state : S) : p.total c v state = p.gathered c v state := by
  rw [total, gathered]
  cases (v.links (p.gatherLinks c v state)).map (p.gather c v · state) with
  | nil => rfl
  | cons first others => rw [mergeAllInto_none_cons, Option.getD_some]

/-- What becomes of a vertex that takes part: its state and its value behind apply. -/
def Machine.turn [Payload G] [Inhabited G] (m : Machine S D M G) (c : Context) (v : Vertex D)
    (payload : M) : S × D :=
  let state := m.program.init c v payload m.prototype
  m.program.apply c v.site (m.program.gathered c v state) state v.value

namespace Tableau

/-- The network of values that the vertices see when a round starts. -/
def network (t : Tableau D M) : Network D := t.graph.network t.finalized

/-- Nothing is pending for any vertex. -/
def IsQuiet (t : Tableau D M) : Prop := ∀ v, t.pending v = none

/-- What programs are told in round `r`. -/
def context (t : Tableau D M) (m : Machine S D M G) (r : Nat) : Context where
  round := r
  maxRounds := m.maxRounds
  numVertices := t.graph.numVertices
  numEdges := t.network.topology.numEdges

section Round

variable [Payload G] [Inhabited G] (t : Tableau D M) (m : Machine S D M G) (r : Nat)

/-- The value of a vertex behind the round: what its turn makes of it, if it has one. -/
def valueBehind (v : Vertex D) : D :=
  match t.pending v.id with
  | none => v.value
  | some payload => (m.turn (t.context m r) v payload).2

/-- The values of all vertices behind the round. -/
def values : List D := t.network.vertices.map (t.valueBehind m r)

/-- What a vertex sends. It sees the values behind the round. -/
def signalsOf (v : Vertex D) : List (Signal M) :=
  match t.pending v.id with
  | none => []
  | some payload =>
    m.program.signals (t.context m r) (v.withValues (t.values m r))
      (m.carry (m.turn (t.context m r) v payload).1)

/-- What is sent in the round, vertex by vertex. -/
def sent : List (Signal M) := t.network.vertices.flatMap (t.signalsOf m r)

variable [Payload M]

/-- One round. -/
def round : Tableau D M where
  graph := t.graph.overwrite (t.values m r)
  finalized := t.finalized
  pending v := mergeAllInto Payload.merge none (Accumulator.arrivals v (t.sent m r))

theorem graph_round : (t.round m r).graph = t.graph.overwrite (t.values m r) := rfl

theorem pending_round (v : VertexId) : (t.round m r).pending v =
    mergeAllInto Payload.merge none (Accumulator.arrivals v (t.sent m r)) := rfl

/-- What stands at a vertex behind the round. -/
theorem value?_round {v : Vertex D} (hv : v.network = t.network) :
    (t.round m r).graph.value? v.id = some (t.valueBehind m r v) :=
  Graph.value?_overwrite t.finalized _ hv

end Round

/-- The tableau after `k` rounds, the first of which has the number `first`. -/
def rounds [Payload M] [Payload G] [Inhabited G] (t : Tableau D M) (m : Machine S D M G)
    (first : Nat) : Nat → Tableau D M
  | 0 => t
  | k + 1 => (t.rounds m first k).round m (first + k)

/-! ### Quiet tableaux -/

variable [Payload G] [Inhabited G] {t : Tableau D M} {m : Machine S D M G}

theorem valueBehind_of_isQuiet (h : t.IsQuiet) (r : Nat) (v : Vertex D) :
    t.valueBehind m r v = v.value := by
  rw [valueBehind, h v.id]

theorem values_of_isQuiet (h : t.IsQuiet) (r : Nat) :
    t.values m r = t.graph.data.toList := by
  rw [values, List.map_congr_left fun v _ => valueBehind_of_isQuiet h r v]
  exact Network.map_value_vertices (t.graph.topology_size_le t.finalized)

theorem sent_of_isQuiet (h : t.IsQuiet) (r : Nat) : t.sent m r = [] := by
  rw [sent, List.flatMap_eq_nil_iff]
  intro v _
  rw [signalsOf, h v.id]

variable [Payload M]

/-- A round in which nobody takes part changes nothing. -/
theorem round_of_isQuiet (h : t.IsQuiet) (r : Nat) : t.round m r = t := by
  obtain ⟨graph, finalized, pending⟩ := t
  have hp : (fun _ => none) = pending := funext fun v => (h v).symm
  simp only [Tableau.round, values_of_isQuiet h, sent_of_isQuiet h, Graph.overwrite_toList,
    Accumulator.arrivals, List.filter_nil, List.map_nil, mergeAllInto_nil, hp]

theorem rounds_of_isQuiet (h : t.IsQuiet) (first k : Nat) : t.rounds m first k = t := by
  induction k with
  | zero => rfl
  | succ k ih => rw [rounds, ih, round_of_isQuiet h]

/-- The first round may be taken off the front. -/
theorem rounds_succ (t : Tableau D M) (m : Machine S D M G) (first k : Nat) :
    t.rounds m first (k + 1) = (t.round m first).rounds m (first + 1) k := by
  induction k with
  | zero => rfl
  | succ k ih =>
    rw [rounds, ih, rounds, Nat.add_assoc, Nat.add_comm 1 k]

end Tableau

end Superstep
