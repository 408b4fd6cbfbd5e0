import Mathlib.Data.List.TakeWhile
import Superstep.Proofs.Engine.Asides
import Superstep.Proofs.Errands

/-!
# What one worker does, item by item

A worker goes through its share from front to back and stops at its first failure. As long as
nothing fails, the order and the boundary of the share do not matter: for a program that only
scatters, `applyAll`, `scatterAll` and `transformAll` are maps over their items, and so is what
`gatherAll` comes to. These are the only places where the four recursions are opened.

Failures are ruled out by what is asked of the items: states that can be saved and loaded again,
and signals whose target has a slot.

## Main results

* `VertexProgram.resultOn_gatherAll`, `VertexProgram.applyAll_eq_of_save`,
  `VertexProgram.scatterAll_eq`, `transformAll_eq`
* `VertexProgram.onlyTakes_gatherAll`, `VertexProgram.takenOn_gatherAll`: what a worker takes
* `VertexProgram.scatterAll_congr`: how much of its slots a worker's deliveries depend on, also if
  it fails
* `VertexProgram.revive_slotOf`: what scatter finds in the slot that apply left
-/

namespace Superstep

variable {S D M G : Type}

/-- Signals that all stay inside are all delivered. -/
theorem deliverable_eq {numSlots : Nat} {signals : List (Signal M)}
    (h : ∀ signal ∈ signals, signal.target.toNat < numSlots) (fault : Option Fault) :
    deliverable numSlots signals fault = (signals, fault) := by
  have ht : signals.takeWhile (fun signal => decide (signal.target.toNat < numSlots)) = signals :=
    List.takeWhile_eq_self_iff.2 fun s hs => decide_eq_true (h s hs)
  have hd : signals.dropWhile (fun signal => decide (signal.target.toNat < numSlots)) = [] :=
    List.dropWhile_eq_nil_iff.2 fun s hs => decide_eq_true (h s hs)
  simp only [deliverable, ht, hd, List.head?_nil, Option.map_none, Option.none_or]

/-- Whether signals stay inside or not, those that are delivered do. -/
theorem target_lt_of_deliverable {numSlots : Nat} {signals sent : List (Signal M)}
    {broken fault : Option Fault} (hd : deliverable numSlots signals broken = (sent, fault))
    {signal : Signal M} (h : signal ∈ sent) : signal.target.toNat < numSlots := by
  obtain ⟨rfl, -⟩ := Prod.mk.inj hd
  simpa using List.mem_takeWhile_imp h

namespace VertexProgram

/-- What scatter finds of a state: with `persist`, what was saved of it and loaded again. -/
def kept (p : VertexProgram S D M G) (persist : Bool) (prototype state : S) : Except Error S :=
  if persist then (p.save state).bind fun bytes => p.load bytes prototype else .ok state

/-! ### Gathering -/

section Gather

variable [Payload G] [Inhabited G]

theorem gatherFrom_cons (p : VertexProgram S D M G) (prototype : S) (c : Context)
    (settled : List (Slot S G)) (v : Vertex D) (vertices : List (Vertex D)) :
    p.gatherFrom prototype c settled (v :: vertices) =
      .take v.id fun payload =>
        match p.overture prototype c v payload with
        | (signals, none) =>
          .sendAll signals
            (p.gatherFrom prototype c (p.begin prototype c v payload :: settled) vertices)
        | (signals, some fault) => .sendAll signals (.done ⟨settled.reverse, some fault⟩) := rfl

/-- A worker takes its own vertices and no others, each of them once at most. -/
theorem takenOn_gatherFrom (p : VertexProgram S D M G) (prototype : S) (c : Context)
    (pending : VertexId → Option M) (settled : List (Slot S G)) (vertices : List (Vertex D)) :
    ((p.gatherFrom prototype c settled vertices).takenOn pending).Sublist
      (vertices.map Vertex.id) := by
  induction vertices generalizing settled with
  | nil => exact List.Sublist.refl []
  | cons v vertices ih =>
    rw [gatherFrom_cons, List.map_cons, Errand.takenOn]
    refine List.Sublist.cons_cons _ ?_
    split
    · rw [Errand.takenOn_sendAll]
      exact ih _
    · rw [Errand.takenOn_sendAll]
      exact List.nil_sublist _

theorem takenOn_gatherAll (p : VertexProgram S D M G) (prototype : S) (c : Context)
    (pending : VertexId → Option M) (vertices : List (Vertex D)) :
    ((p.gatherAll prototype c vertices).takenOn pending).Sublist (vertices.map Vertex.id) :=
  takenOn_gatherFrom ..

/-- A worker that does not fail settles every slot of its share. -/
theorem length_of_gatherFrom {p : VertexProgram S D M G} {prototype : S} {c : Context}
    {settled : List (Slot S G)} {vertices : List (Vertex D)} {g : Gathered S G}
    (h : (p.gatherFrom prototype c settled vertices).EndsIn g) (ok : g.failure = none) :
    g.slots.length = settled.length + vertices.length := by
  induction vertices generalizing settled with
  | nil =>
    cases h
    simp
  | cons v vertices ih =>
    rw [gatherFrom_cons] at h
    cases h with
    | take found rest =>
      beta_reduce at rest
      split at rest
      · rw [ih rest.of_sendAll, List.length_cons, List.length_cons]
        omega
      · cases rest.of_sendAll
        cases ok

theorem length_of_gatherAll {p : VertexProgram S D M G} {prototype : S} {c : Context}
    {vertices : List (Vertex D)} {g : Gathered S G}
    (h : (p.gatherAll prototype c vertices).EndsIn g) (ok : g.failure = none) :
    g.slots.length = vertices.length := by
  rw [length_of_gatherFrom h ok, List.length_nil, Nat.zero_add]

variable {p : VertexProgram S D M G}

theorem onlyTakes_gatherFrom (silent : p.GathersSilently) (prototype : S) (c : Context)
    (settled : List (Slot S G)) (vertices : List (Vertex D)) :
    (p.gatherFrom prototype c settled vertices).OnlyTakes := by
  induction vertices generalizing settled with
  | nil => trivial
  | cons v vertices ih =>
    rw [gatherFrom_cons]
    intro payload
    have hsilent := silent.overture_fst prototype c v payload
    beta_reduce
    split
    · rename_i signals hoverture
      rw [hoverture] at hsilent
      obtain rfl : signals = [] := hsilent
      exact ih _
    · rename_i signals fault hoverture
      rw [hoverture] at hsilent
      obtain rfl : signals = [] := hsilent
      trivial

/-- A worker whose program gathers silently only takes. -/
theorem onlyTakes_gatherAll (silent : p.GathersSilently) (prototype : S) (c : Context)
    (vertices : List (Vertex D)) : (p.gatherAll prototype c vertices).OnlyTakes :=
  onlyTakes_gatherFrom silent prototype c [] vertices

variable {prototype : S} {c : Context} {pending : VertexId → Option M} {vertices : List (Vertex D)}

theorem gatherFrom_of_overture
    (h : ∀ v ∈ vertices, p.overture prototype c v (pending v.id) = ([], none))
    (settled : List (Slot S G)) :
    (p.gatherFrom prototype c settled vertices).takenOn pending = vertices.map Vertex.id ∧
      (p.gatherFrom prototype c settled vertices).resultOn pending =
        ⟨settled.reverse ++ vertices.map fun v => p.begin prototype c v (pending v.id), none⟩ := by
  induction vertices generalizing settled with
  | nil => simp [gatherFrom, Errand.takenOn, Errand.resultOn]
  | cons v vertices ih =>
    obtain ⟨hv, h⟩ := List.forall_mem_cons.1 h
    obtain ⟨htaken, hresult⟩ := ih h (p.begin prototype c v (pending v.id) :: settled)
    simp only [gatherFrom_cons, Errand.takenOn, Errand.resultOn, hv]
    rw [Errand.takenOn_sendAll, Errand.resultOn_sendAll, htaken, hresult]
    exact ⟨rfl, by simp⟩

/-- A worker takes all of its vertices, if none of them sends or breaks off. -/
theorem takenOn_gatherAll_eq
    (h : ∀ v ∈ vertices, p.overture prototype c v (pending v.id) = ([], none)) :
    (p.gatherAll prototype c vertices).takenOn pending = vertices.map Vertex.id :=
  (gatherFrom_of_overture h []).1

/-- **A worker starts vertex by vertex**, each on what is pending for it. -/
theorem resultOn_gatherAll
    (h : ∀ v ∈ vertices, p.overture prototype c v (pending v.id) = ([], none)) :
    (p.gatherAll prototype c vertices).resultOn pending =
      ⟨vertices.map fun v => p.begin prototype c v (pending v.id), none⟩ :=
  (gatherFrom_of_overture h []).2

/-- None of the vertices of a worker breaks off that gathers silently and does not fail. -/
theorem overture_of_gatherFrom (silent : p.GathersSilently) {settled : List (Slot S G)}
    (ok : ((p.gatherFrom prototype c settled vertices).resultOn pending).failure = none) :
    ∀ v ∈ vertices, p.overture prototype c v (pending v.id) = ([], none) := by
  induction vertices generalizing settled with
  | nil => nofun
  | cons v vertices ih =>
    have hsilent := silent.overture_fst prototype c v (pending v.id)
    rw [gatherFrom_cons, Errand.resultOn] at ok
    split at ok
    · rename_i signals hoverture
      rw [Errand.resultOn_sendAll] at ok
      refine List.forall_mem_cons.2 ⟨?_, ih ok⟩
      rw [hoverture] at hsilent ⊢
      exact congrArg (·, none) hsilent
    · rw [Errand.resultOn_sendAll] at ok
      cases ok

theorem overture_of_gatherAll (silent : p.GathersSilently)
    (ok : ((p.gatherAll prototype c vertices).resultOn pending).failure = none) :
    ∀ v ∈ vertices, p.overture prototype c v (pending v.id) = ([], none) :=
  overture_of_gatherFrom silent ok

end Gather

/-! ### Applying -/

/-- The value of a vertex behind apply. -/
def valueOf (p : VertexProgram S D M G) (c : Context) : Vertex D × Slot S G → D
  | (v, .live state total) => (p.apply c v.site total state v.value).2
  | (v, _) => v.value

/-- The slot of a vertex behind apply, if its state can be saved. -/
def slotOf (p : VertexProgram S D M G) (c : Context) (persist : Bool) :
    Vertex D × Slot S G → Slot S G
  | (v, .live state total) =>
    let state := (p.apply c v.site total state v.value).1
    if persist then (p.save state).toOption.elim (.live state total) .parked
    else .live state total
  | (_, slot) => slot

theorem save_of_kept {p : VertexProgram S D M G} {prototype state state' : S}
    (h : p.kept true prototype state = .ok state') :
    ∃ bytes, p.save state = .ok bytes ∧ p.load bytes prototype = .ok state' := by
  rw [kept, if_pos rfl] at h
  cases hs : p.save state with
  | error cause => rw [hs] at h; cases h
  | ok bytes => exact ⟨bytes, rfl, by rwa [hs] at h⟩

/-- **A worker applies item by item as long as it can save what it has to.** -/
theorem applyAll_eq_of_save {p : VertexProgram S D M G} (only : p.OnlyScatters) {persist : Bool}
    {c : Context} {items : List (Vertex D × Slot S G)}
    (h : persist = true → ∀ v state total, (v, Slot.live state total) ∈ items →
      ∃ bytes, p.save (p.apply c v.site total state v.value).1 = .ok bytes) :
    p.applyAll c persist items =
      ⟨[], items.map (p.valueOf c), items.map (p.slotOf c persist), none⟩ := by
  induction items with
  | nil => rfl
  | cons item items ih =>
    have ih := ih fun hp v state total hm => h hp v state total (List.mem_cons_of_mem _ hm)
    obtain ⟨v, slot⟩ := item
    cases slot with
    | idle => simp [applyAll, ih, Applied.cons, valueOf, slotOf]
    | parked bytes => simp [applyAll, ih, Applied.cons, valueOf, slotOf]
    | live state total =>
      cases persist with
      | false => simp [applyAll, only.attempt_eq, ih, Applied.cons, valueOf, slotOf]
      | true =>
        obtain ⟨bytes, hs⟩ := h rfl v state total List.mem_cons_self
        simp [applyAll, only.attempt_eq, ih, Applied.cons, valueOf, slotOf, hs, Except.toOption]

theorem target_lt_of_mem_attempt {p : VertexProgram S D M G} {c : Context} {v : Vertex D}
    {state : S} {total : G} {signal : Signal M} (h : signal ∈ (p.attempt c v state total).signals) :
    signal.target.toNat < c.numVertices :=
  let aside := p.asides.apply c v.site total state v.value
  target_lt_of_deliverable
    (Prod.eta (deliverable c.numVertices (aside.1.map Emission.signal) aside.2)).symm h

theorem target_lt_of_mem_applyAll {p : VertexProgram S D M G} {c : Context}
    {persist : Bool} {items : List (Vertex D × Slot S G)} {signal : Signal M}
    (h : signal ∈ (p.applyAll c persist items).signals) :
    signal.target.toNat < c.numVertices := by
  induction items with
  | nil => cases h
  | cons item items ih =>
    obtain ⟨v, slot⟩ := item
    cases slot with
    | idle => exact ih h
    | parked bytes => exact ih h
    | live state total =>
      have hd : signal ∈ (p.attempt c v state total).signals →
          signal.target.toNat < c.numVertices := target_lt_of_mem_attempt
      rw [applyAll] at h
      generalize p.attempt c v state total = attempt at h hd
      obtain ⟨signals, state, value, _ | fault⟩ := attempt
      · simp only at h
        split at h
        · split at h
          · exact (List.mem_append.1 h).elim hd ih
          · exact (List.mem_append.1 h).elim hd fun h => by cases h
        · exact (List.mem_append.1 h).elim hd ih
      · exact (List.mem_append.1 h).elim hd fun h => by cases h

/-- What scatter finds in the slot that apply left. -/
theorem revive_slotOf {p : VertexProgram S D M G} {persist : Bool} {prototype : S} {carry : S → S}
    (hk : ∀ state, p.kept persist prototype state = .ok (carry state)) (c : Context)
    (v : Vertex D) (state : S) (total : G) :
    p.revive prototype (p.slotOf c persist (v, .live state total)) =
      .ok (some (carry (p.apply c v.site total state v.value).1)) := by
  have h := hk (p.apply c v.site total state v.value).1
  cases persist with
  | false =>
    rw [kept, if_neg Bool.false_ne_true] at h
    rw [← Except.ok.inj h]
    rfl
  | true =>
    obtain ⟨bytes, hs, hl⟩ := save_of_kept h
    simp [slotOf, hs, Except.toOption, revive, hl, Except.map]

/-! ### Scattering -/

/-- What is sent for a vertex, given what its slot holds, if nothing breaks off. -/
def signalsIn (p : VertexProgram S D M G) (prototype : S) (c : Context)
    (item : Vertex D × Slot S G) : List (Signal M) :=
  match p.revive prototype item.2 with
  | .ok (some state) => p.signals c item.1 state
  | _ => []

theorem StaysInside.target_lt {p : VertexProgram S D M G} (inside : p.StaysInside)
    {prototype : S} {c : Context} {item : Vertex D × Slot S G} {signal : Signal M}
    (h : signal ∈ p.signalsIn prototype c item) :
    signal.target.toNat < item.1.network.topology.size := by
  rw [signalsIn] at h
  split at h
  · exact inside.targets _ _ _ signal h
  · cases h

/-- **A worker that can load its states and whose signals stay inside scatters item by item.** -/
theorem scatterAll_eq {p : VertexProgram S D M G} {prototype : S} {c : Context}
    (only : p.OnlyScatters) (inside : p.StaysInside) {items : List (Vertex D × Slot S G)}
    (h : ∀ item ∈ items, item.1.network.topology.size = c.numVertices ∧
      ∃ state, p.revive prototype item.2 = .ok state) :
    p.scatterAll prototype c items =
      ⟨items.flatMap (p.signalsIn prototype c), items.map fun _ => .idle, none⟩ := by
  induction items with
  | nil => rfl
  | cons item items ih =>
    have ih := ih fun item hm => h item (List.mem_cons_of_mem _ hm)
    obtain ⟨hsize, state, hstate⟩ := h item List.mem_cons_self
    cases state with
    | none => simp [scatterAll, hstate, ih, Scattered.cons, signalsIn]
    | some state =>
      have hd : deliverable c.numVertices (p.signals c item.1 state) =
          (p.signals c item.1 state, none) :=
        deliverable_eq (fun signal hm => hsize ▸ inside.targets c item.1 state signal hm) none
      simp [scatterAll, hstate, inside.sends_eq only, hd, ih, Scattered.cons, signalsIn]

/-- What a vertex is to send, given what its slot holds, or why that cannot be said. -/
def outgoing (p : VertexProgram S D M G) (prototype : S) (c : Context)
    (item : Vertex D × Slot S G) : Except Error (Aside M) :=
  (p.revive prototype item.2).map fun state => state.elim {} (p.sends c item.1)

theorem scatterAll_cons (p : VertexProgram S D M G) (prototype : S) (c : Context)
    (item : Vertex D × Slot S G) (items : List (Vertex D × Slot S G)) :
    p.scatterAll prototype c (item :: items) =
      match p.outgoing prototype c item with
      | .error cause => (Scattered.stop (some (.error cause)) items).cons []
      | .ok sends =>
        match deliverable c.numVertices sends.signals sends.fault with
        | (signals, none) => (p.scatterAll prototype c items).cons signals
        | (signals, some fault) => (Scattered.stop (some (.fault fault)) items).cons signals := by
  obtain ⟨v, slot⟩ := item
  rw [scatterAll, outgoing]
  cases p.revive prototype slot with
  | error cause => rfl
  | ok state =>
    cases state with
    | none => rfl
    | some state => rfl

/-- What a worker delivers and why it stops depend on its slots only through what is to be sent. -/
theorem scatterAll_congr {p : VertexProgram S D M G} {prototype : S} {c : Context}
    {items items' : List (Vertex D × Slot S G)}
    (h : items.map (p.outgoing prototype c) = items'.map (p.outgoing prototype c)) :
    (p.scatterAll prototype c items).signals = (p.scatterAll prototype c items').signals ∧
      (p.scatterAll prototype c items).failure = (p.scatterAll prototype c items').failure := by
  induction items generalizing items' with
  | nil =>
    obtain rfl : items' = [] := by simpa using h.symm
    exact ⟨rfl, rfl⟩
  | cons item items ih =>
    cases items' with
    | nil => simp at h
    | cons item' items' =>
      obtain ⟨hitem, hrest⟩ := List.cons.inj h
      obtain ⟨hsignals, hfailure⟩ := ih hrest
      rw [scatterAll_cons, scatterAll_cons, hitem]
      cases p.outgoing prototype c item' with
      | error cause => exact ⟨rfl, rfl⟩
      | ok signals =>
        simp only
        split
        · rename_i sent _
          exact ⟨congrArg (sent ++ ·) hsignals, hfailure⟩
        · exact ⟨rfl, rfl⟩

theorem target_lt_of_mem_scatterAll {p : VertexProgram S D M G} {prototype : S} {c : Context}
    {items : List (Vertex D × Slot S G)} {signal : Signal M}
    (h : signal ∈ (p.scatterAll prototype c items).signals) :
    signal.target.toNat < c.numVertices := by
  induction items with
  | nil => cases h
  | cons item items ih =>
    rw [scatterAll_cons] at h
    split at h
    · cases h
    · split at h
      · rename_i hd
        rcases List.mem_append.1 h with h | h
        · exact target_lt_of_deliverable hd h
        · exact ih h
      · rename_i hd
        rcases List.mem_append.1 h with h | h
        · exact target_lt_of_deliverable hd h
        · cases h

end VertexProgram

/-! ### Transforming -/

theorem target_lt_of_mem_transformAll {transformation : Transformation D M} {c : Context}
    {vertices : List (Vertex D)} {signal : Signal M}
    (h : signal ∈ (transformAll transformation c vertices).signals) :
    signal.target.toNat < c.numVertices := by
  induction vertices with
  | nil => cases h
  | cons v vertices ih =>
    simp only [transformAll] at h
    split at h
    · rename_i hd
      rcases List.mem_append.1 h with h | h
      · exact target_lt_of_deliverable hd h
      · exact ih h
    · rename_i hd
      rcases List.mem_append.1 h with h | h
      · exact target_lt_of_deliverable hd h
      · cases h

/-- **A worker whose signals stay inside transforms vertex by vertex.** -/
theorem transformAll_eq {transformation : Transformation D M} {c : Context}
    {vertices : List (Vertex D)}
    (h : ∀ v ∈ vertices, ∀ emission ∈ (transformation c v.site v.value).1,
      emission.signal.target.toNat < c.numVertices) :
    transformAll transformation c vertices =
      ⟨vertices.flatMap fun v => (transformation c v.site v.value).1.map Emission.signal,
        vertices.map fun v => (transformation c v.site v.value).2, none⟩ := by
  induction vertices with
  | nil => rfl
  | cons v vertices ih =>
    have ih := ih fun v hm => h v (List.mem_cons_of_mem _ hm)
    have hd : deliverable c.numVertices
        ((transformation c v.site v.value).1.map Emission.signal) =
          ((transformation c v.site v.value).1.map Emission.signal, none) := by
      refine deliverable_eq (fun signal hm => ?_) none
      obtain ⟨emission, he, rfl⟩ := List.mem_map.1 hm
      exact h v List.mem_cons_self emission he
    simp [transformAll, hd, ih, Transformed.cons]

end Superstep
