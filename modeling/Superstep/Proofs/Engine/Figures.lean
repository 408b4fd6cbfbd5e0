import Mathlib.Algebra.BigOperators.Group.Finset.Basic
import Superstep.Proofs.Engine.Phases

/-!
# The figures of a round

A worker counts the signals that it sends, and those among them that reach an empty slot. Which
worker it is that fills a slot depends on the order of deliveries. How many slots are filled does
not: it is the number of slots in use behind the deliveries less the number before them.

## Main results

* `Accumulator.length_activations`: every slot that came into use was counted once
* `Engine.numActivated_deliverLanes`: the same, summed over the workers
* `Engine.numSent_deliverLanes`: what the workers report to have sent
-/

namespace Superstep

namespace Accumulator

variable {M : Type} [Payload M]

/-- A payload puts one more slot into use if it reaches an empty one. -/
theorem numPending_deposit {a : Accumulator M} {v : VertexId} (h : v.toNat < a.size)
    (payload : M) :
    (a.deposit v payload).numPending = a.numPending + if (a.peek v).isNone then 1 else 0 := by
  have hlt : v.toNat < a.slots.toList.length := h
  have hpeek : a.peek v = a.slots.toList[v.toNat] := by
    rw [peek, Array.getElem?_eq_getElem h, Option.join_some, Array.getElem_toList]
    rfl
  have hcount : a.slots.toList.countP Option.isSome =
      (a.slots.toList.take v.toNat).countP Option.isSome +
        (a.slots.toList[v.toNat] :: a.slots.toList.drop (v.toNat + 1)).countP Option.isSome := by
    rw [← List.countP_append, List.getElem_cons_drop, List.take_append_drop]
  rw [numPending, numPending, ← Array.countP_toList, ← Array.countP_toList, deposit,
    Array.toList_modify, List.modify_eq_take_cons_drop hlt, hpeek, hcount, List.countP_append]
  simp only [List.countP_cons]
  cases a.slots.toList[v.toNat] with
  | none => simp [Nat.add_assoc]
  | some pending => simp

theorem length_foldl_deliverOne (posts : List (Post M)) (t : Accumulator M × List Nat)
    (h : ∀ post ∈ posts, post.signal.target.toNat < t.1.size) :
    (posts.foldl deliverOne t).2.length + t.1.numPending =
      (posts.foldl deliverOne t).1.numPending + t.2.length := by
  induction posts generalizing t with
  | nil => exact Nat.add_comm ..
  | cons post posts ih =>
    have hrest : ∀ p ∈ posts, p.signal.target.toNat < (deliverOne t post).1.size := by
      rw [deliverOne, size_deposit]
      exact fun p hp => h p (List.mem_cons_of_mem _ hp)
    have hone : (deliverOne t post).2.length + t.1.numPending =
        (deliverOne t post).1.numPending + t.2.length := by
      rw [deliverOne, numPending_deposit (h post List.mem_cons_self)]
      split <;> simp <;> omega
    have hmore := ih (deliverOne t post) hrest
    rw [List.foldl_cons]
    omega

/-- Every slot that came into use was counted once. -/
theorem length_activations {a : Accumulator M} {posts : List (Post M)}
    (h : ∀ post ∈ posts, post.signal.target.toNat < a.size) :
    (a.deliver posts).2.length + a.numPending = (a.deliver posts).1.numPending :=
  length_foldl_deliverOne posts (a, []) h

theorem mem_foldl_deliverOne {posts : List (Post M)} {t : Accumulator M × List Nat} {i : Nat}
    (h : i ∈ (posts.foldl deliverOne t).2) : i ∈ t.2 ∨ ∃ post ∈ posts, post.worker = i := by
  induction posts generalizing t with
  | nil => exact .inl h
  | cons post posts ih =>
    rcases ih h with h | ⟨p, hp, hi⟩
    · rw [deliverOne] at h
      split at h
      · rcases List.mem_cons.1 h with h | h
        · exact .inr ⟨post, List.mem_cons_self, h.symm⟩
        · exact .inl h
      · exact .inl h
    · exact .inr ⟨p, List.mem_cons_of_mem _ hp, hi⟩

/-- Only workers that sent something are counted for. -/
theorem mem_activations {a : Accumulator M} {posts : List (Post M)} {i : Nat}
    (h : i ∈ (a.deliver posts).2) : ∃ post ∈ posts, post.worker = i := by
  rcases mem_foldl_deliverOne (t := (a, [])) h with h | h
  · cases h
  · exact h

end Accumulator

/-- The elements of a list, counted key by key. -/
theorem sum_map_count {α : Type} [DecidableEq α] {keys l : List α} (nodup : keys.Nodup)
    (h : ∀ a ∈ l, a ∈ keys) : (keys.map fun a => l.count a).sum = l.length := by
  have hcard := Multiset.sum_count_eq_card (s := keys.toFinset) (m := (l : Multiset α))
    (by simpa using h)
  rw [List.sum_toFinset _ nodup] at hcard
  simpa using hcard

/-- Every signal arrives at one of the vertices. -/
theorem Accumulator.sum_length_arrivals {M : Type} {ids : List VertexId} (nodup : ids.Nodup)
    {signals : List (Signal M)} (h : ∀ signal ∈ signals, signal.target ∈ ids) :
    (ids.map fun v => (arrivals v signals).length).sum = signals.length := by
  have hcount : ∀ v, (arrivals v signals).length = (signals.map Signal.target).count v := by
    intro v
    rw [arrivals, List.length_map, ← List.countP_eq_length_filter, List.count, List.countP_map]
    rfl
  simp only [hcount]
  rw [sum_map_count nodup, List.length_map]
  intro v hv
  obtain ⟨signal, hsignal, rfl⟩ := List.mem_map.1 hv
  exact h signal hsignal

namespace Engine

variable {S D M G : Type} [Payload M]

omit [Payload M] in
/-- The lane of a worker that did not fail. -/
theorem getElem?_of_complete {lanes : List (List (Signal M) × Bool)}
    (complete : ∀ lane ∈ lanes, lane.2 = true) {i : Nat} (h : i < lanes.length) :
    lanes[i]? = some (lanes[i].1, true) := by
  rw [List.getElem?_eq_getElem h, ← complete _ (List.getElem_mem h)]

/-- If no worker fails, what they report to have sent is what there is to deliver. -/
theorem numSent_deliverLanes (e : Engine S D M G) (picks : List Nat)
    {lanes : List (List (Signal M) × Bool)} (hlen : lanes.length = e.workers.length)
    (complete : ∀ lane ∈ lanes, lane.2 = true) :
    (e.deliverLanes picks lanes).numSent = (lanes.flatMap Prod.fst).length := by
  have hworkers : (e.deliverLanes picks lanes).workers.map Worker.sent =
      lanes.map fun lane => lane.1.length := by
    refine List.ext_getElem? fun i => ?_
    by_cases hi : i < e.workers.length
    · have hlane := getElem?_of_complete complete (hlen ▸ hi)
      simp [deliverLanes, hi, hlane]
    · simp [deliverLanes, hi, hlen]
  rw [numSent, hworkers, List.length_flatMap]
  rfl

/-- If no worker fails, their activations make up for the slots that came into use. -/
theorem numActivated_deliverLanes (e : Engine S D M G) (picks : List Nat)
    {lanes : List (List (Signal M) × Bool)} (hlen : lanes.length = e.workers.length)
    (complete : ∀ lane ∈ lanes, lane.2 = true)
    (inside : ∀ lane ∈ lanes, ∀ signal ∈ lane.1, signal.target.toNat < e.accumulator.size) :
    (e.deliverLanes picks lanes).numActivated + e.accumulator.numPending =
      (e.deliverLanes picks lanes).accumulator.numPending := by
  have hin : ∀ post ∈ weave picks (posts lanes),
      post.signal.target.toNat < e.accumulator.size := by
    intro post hpost
    obtain ⟨-, lane, hlane, hsignal⟩ := mem_posts hpost
    exact inside lane hlane _ hsignal
  have hbelow : ∀ i ∈ (e.accumulator.deliver (weave picks (posts lanes))).2,
      i < e.workers.length := by
    intro i hi
    obtain ⟨post, hpost, rfl⟩ := Accumulator.mem_activations hi
    exact hlen ▸ (mem_posts hpost).1
  have hworkers : (e.deliverLanes picks lanes).workers.map Worker.activated =
      (List.range e.workers.length).map fun i =>
        (e.accumulator.deliver (weave picks (posts lanes))).2.count i := by
    refine List.ext_getElem? fun i => ?_
    by_cases hi : i < e.workers.length
    · have hlane := getElem?_of_complete complete (hlen ▸ hi)
      simp [deliverLanes, hi, hlane, posts]
    · simp [deliverLanes, hi]
  have hsum : (e.deliverLanes picks lanes).numActivated =
      (e.accumulator.deliver (weave picks (posts lanes))).2.length := by
    rw [numActivated, hworkers, ← sum_map_count List.nodup_range fun i hi =>
      List.mem_range.2 (hbelow i hi)]
    rfl
  rw [hsum]
  exact Accumulator.length_activations hin

end Engine

end Superstep
