import Superstep.Engine.Errand
import Superstep.Proofs.Interleaving
import Superstep.Proofs.Pending

/-!
# Errands side by side

What errands come to depends on the order of their operations, and `run` has a list of picks for
it. As with `weave`, the picks only write an interleaving down: `Interleaved` says what one is, and
the picks give all of them.

Three things are used of interleaved errands. Each of them ends as it may end, whatever the others
do. An errand that is alone has one end. And errands that only take, each vertex once between them,
do not notice each other: each finds what was pending at first, and nothing of it stays.

## Main definitions

* `Errand.Interleaved`: errands whose operations interleave somehow
* `Errand.OnlyTakes`: an errand that sends nothing
* `Errand.takenOn`, `Errand.resultOn`: what it takes and comes to, given what is pending

## Main results

* `Errand.run_iff_interleaved`: the picks give every interleaving
* `Errand.Interleaved.endsIn`: every errand ends as it may
* `Errand.Interleaved.of_onlyTakes`: errands that do not notice each other
-/

namespace Superstep

namespace Errand

variable {M R : Type}

/-- An end that the errand may come to, for some payloads that it finds. -/
inductive EndsIn : Errand M R → R → Prop
  | done (result : R) : EndsIn (.done result) result
  | take {vertex : VertexId} {next : Option M → Errand M R} {result : R} (found : Option M)
      (rest : EndsIn (next found) result) : EndsIn (.take vertex next) result
  | send {signal : Signal M} {next : Errand M R} {result : R} (rest : EndsIn next result) :
      EndsIn (.send signal next) result

theorem EndsIn.of_sendAll {signals : List (Signal M)} {next : Errand M R} {result : R}
    (h : EndsIn (sendAll signals next) result) : EndsIn next result := by
  induction signals with
  | nil => exact h
  | cons signal signals ih =>
    cases h with
    | send rest => exact ih rest

/-! ### Errands that only take -/

/-- Nothing is sent, whatever is found. -/
def OnlyTakes : Errand M R → Prop
  | .done _ => True
  | .take _ next => ∀ found, (next found).OnlyTakes
  | .send _ _ => False

/-- The vertices from which payloads are taken, in order, if `pending` is what there is. -/
def takenOn (pending : VertexId → Option M) : Errand M R → List VertexId
  | .done _ => []
  | .take vertex next => vertex :: (next (pending vertex)).takenOn pending
  | .send _ next => next.takenOn pending

/-- What the errand comes to, if `pending` is what there is. -/
def resultOn (pending : VertexId → Option M) : Errand M R → R
  | .done result => result
  | .take vertex next => (next (pending vertex)).resultOn pending
  | .send _ next => next.resultOn pending

theorem takenOn_sendAll (pending : VertexId → Option M) (signals : List (Signal M))
    (next : Errand M R) : (sendAll signals next).takenOn pending = next.takenOn pending := by
  induction signals with
  | nil => rfl
  | cons signal signals ih => exact ih

theorem resultOn_sendAll (pending : VertexId → Option M) (signals : List (Signal M))
    (next : Errand M R) : (sendAll signals next).resultOn pending = next.resultOn pending := by
  induction signals with
  | nil => rfl
  | cons signal signals ih => exact ih

/-! ### Interleavings -/

variable [Payload M]

/-- Errands that are carried out operation by operation, in some order: what the accumulator is
before and behind, and what they come to. -/
inductive Interleaved : Accumulator M → List (Errand M R) → Accumulator M → List R → Prop
  /-- All of them have come to their ends. -/
  | ended {a : Accumulator M} (results : List R) : Interleaved a (results.map .done) a results
  /-- One of them moves on. -/
  | step {a a' b : Accumulator M} {errands : List (Errand M R)} {i : Nat} {errand next : Errand M R}
      {results : List R} (h : errands[i]? = some errand)
      (moves : errand.advance a = some (a', next))
      (tail : Interleaved a' (errands.set i next) b results) : Interleaved a errands b results

/-- Errands of which one is put in its own place. -/
theorem set_of_getElem? {α : Type} {l : List α} {i : Nat} {x : α} (h : l[i]? = some x) :
    l.set i x = l := by
  obtain ⟨hi, rfl⟩ := List.getElem?_eq_some_iff.1 h
  exact List.set_getElem_self hi

/-- One errand may be carried out up to its end before any other goes on. -/
theorem Interleaved.of_finish {a b : Accumulator M} {errands : List (Errand M R)} {i : Nat}
    {errand : Errand M R} {results : List R} (h : errands[i]? = some errand)
    (tail : Interleaved (errand.finish a).1 (errands.set i (.done (errand.finish a).2)) b results) :
    Interleaved a errands b results := by
  have moved : ∀ next : Errand M R, (errands.set i next)[i]? = some next := fun _ =>
    List.getElem?_set_self (List.getElem?_eq_some_iff.1 h).1
  induction errand generalizing a errands with
  | done result => rwa [finish, set_of_getElem? h] at tail
  | take vertex next ih =>
    refine .step h rfl (ih (a.peek vertex) (moved _) ?_ ?_)
    · rwa [List.set_set]
    · exact fun _ => by rw [List.set_set, moved]
  | send signal next ih =>
    refine .step h rfl (ih (moved _) ?_ ?_)
    · rwa [List.set_set]
    · exact fun _ => by rw [List.set_set, moved]

/-- One errand after the other is an interleaving. -/
theorem interleaved_finishAll (a : Accumulator M) (errands : List (Errand M R)) :
    Interleaved a errands (finishAll a errands).1 (finishAll a errands).2 := by
  -- with some errands in front that have come to their ends
  suffices h : ∀ ended : List R, Interleaved a (ended.map .done ++ errands) (finishAll a errands).1
      (ended ++ (finishAll a errands).2) from h []
  induction errands generalizing a with
  | nil =>
    intro ended
    rw [finishAll, List.append_nil, List.append_nil]
    exact .ended ended
  | cons errand errands ih =>
    intro ended
    have hi : (ended.map Errand.done ++ errand :: errands)[ended.length]? = some errand := by simp
    refine .of_finish hi ?_
    have h := ih (errand.finish a).1 (ended ++ [(errand.finish a).2])
    rw [List.set_append_right _ _ (by simp), List.length_map, Nat.sub_self, List.set_cons_zero,
      finishAll]
    simpa using h

theorem interleaved_run (a : Accumulator M) (picks : List Nat) (errands : List (Errand M R)) :
    Interleaved a errands (run a picks errands).1 (run a picks errands).2 := by
  induction picks generalizing a errands with
  | nil => exact interleaved_finishAll a errands
  | cons pick picks ih =>
    rw [run]
    cases h : errands[pick]? with
    | none => exact ih a errands
    | some errand =>
      cases moves : errand.advance a with
      | none =>
        simp only [Option.bind_some, moves]
        exact ih a errands
      | some t =>
        simp only [Option.bind_some, moves]
        exact .step h moves (ih t.1 (errands.set pick t.2))

/-- **Picks give every interleaving**, and no other. -/
theorem run_iff_interleaved {a b : Accumulator M} {errands : List (Errand M R)}
    {results : List R} :
    (∃ picks, run a picks errands = (b, results)) ↔ Interleaved a errands b results := by
  constructor
  · rintro ⟨picks, h⟩
    have hrun := interleaved_run a picks errands
    rwa [h] at hrun
  · intro h
    induction h with
    | @ended a results =>
      refine ⟨[], ?_⟩
      rw [run]
      induction results with
      | nil => rfl
      | cons result results ih => simp only [List.map_cons, finishAll, finish, ih]
    | @step a a' b errands i errand next results h moves _ ih =>
      obtain ⟨picks, hrun⟩ := ih
      refine ⟨i :: picks, ?_⟩
      rw [run, h, Option.bind_some, moves]
      exact hrun

/-! ### What interleaved errands come to -/

theorem size_advance {a a' : Accumulator M} {errand next : Errand M R}
    (moves : errand.advance a = some (a', next)) : a'.size = a.size := by
  cases errand with
  | done result => cases moves
  | take vertex rest =>
    cases moves
    exact Accumulator.size_clear a vertex
  | send signal rest =>
    cases moves
    exact Accumulator.size_deposit a signal.target signal.payload

theorem Interleaved.size_eq {a b : Accumulator M} {errands : List (Errand M R)} {results : List R}
    (h : Interleaved a errands b results) : b.size = a.size := by
  induction h with
  | ended => rfl
  | step _ moves _ ih => rw [ih, size_advance moves]

theorem EndsIn.of_advance {a a' : Accumulator M} {errand next : Errand M R} {result : R}
    (moves : errand.advance a = some (a', next)) (h : EndsIn next result) :
    EndsIn errand result := by
  cases errand with
  | done => cases moves
  | take vertex rest =>
    cases moves
    exact .take _ h
  | send signal rest =>
    cases moves
    exact .send h

/-- **Every errand ends as it may**, whatever the others do. -/
theorem Interleaved.endsIn {a b : Accumulator M} {errands : List (Errand M R)} {results : List R}
    (h : Interleaved a errands b results) : List.Forall₂ EndsIn errands results := by
  induction h with
  | ended results =>
    rw [List.forall₂_map_left_iff]
    exact List.forall₂_same.2 fun result _ => .done result
  | @step a a' b errands i errand next results h moves _ ih =>
    rw [List.forall₂_iff_get] at ih ⊢
    obtain ⟨hlength, ih⟩ := ih
    refine ⟨by simpa using hlength, fun j hj hj' => ?_⟩
    have hend := ih j (by simpa using hj) hj'
    simp only [List.get_eq_getElem, List.getElem_set] at hend ⊢
    split at hend
    · rename_i hij
      subst hij
      obtain ⟨_, rfl⟩ := List.getElem?_eq_some_iff.1 h
      exact .of_advance moves hend
    · exact hend

theorem advance_eq_none_of_ended {results : List R} {i : Nat} {errand : Errand M R}
    (h : (results.map (Errand.done (M := M)))[i]? = some errand) (a : Accumulator M) :
    errand.advance a = none := by
  rw [List.getElem?_map, Option.map_eq_some_iff] at h
  obtain ⟨result, -, rfl⟩ := h
  rfl

/-- **An errand that is alone has one end.** -/
theorem Interleaved.eq_of_length_le_one {a b b' : Accumulator M} {errands : List (Errand M R)}
    {results results' : List R} (alone : errands.length ≤ 1)
    (h : Interleaved a errands b results) (h' : Interleaved a errands b' results') :
    b' = b ∧ results' = results := by
  induction h with
  | ended results =>
    generalize hended : results.map (Errand.done (M := M)) = errands at h'
    cases h' with
    | ended results' =>
      exact ⟨rfl, (List.map_injective_iff.2 (fun _ _ => Errand.done.inj) hended).symm⟩
    | step hi moves =>
      rw [advance_eq_none_of_ended (hended ▸ hi)] at moves
      cases moves
  | @step a a₁ b errands i errand next results hi moves _ ih =>
    have first : ∀ {j : Nat} {other : Errand M R}, errands[j]? = some other → j = 0 := by
      intro j other hj
      have := (List.getElem?_eq_some_iff.1 hj).1
      omega
    obtain rfl := first hi
    generalize herrands : errands = errands' at h'
    cases h' with
    | ended results' =>
      rw [advance_eq_none_of_ended (herrands ▸ hi)] at moves
      cases moves
    | @step _ a₂ _ _ j other next' _ hj moves' tail =>
      subst herrands
      obtain rfl := first hj
      obtain rfl := Option.some.inj (hi.symm.trans hj)
      obtain ⟨rfl, rfl⟩ := Prod.mk.inj (Option.some.inj (moves.symm.trans moves'))
      exact ih (by rwa [List.length_set]) tail

/-! ### Errands that do not notice each other -/

theorem OnlyTakes.of_advance {a a' : Accumulator M} {errand next : Errand M R}
    (moves : errand.advance a = some (a', next)) (only : errand.OnlyTakes) :
    ∃ vertex rest, errand = .take vertex rest ∧ a' = a.clear vertex ∧
      next = rest (a.peek vertex) ∧ next.OnlyTakes := by
  cases errand with
  | done => cases moves
  | take vertex rest =>
    cases moves
    exact ⟨vertex, rest, rfl, rfl, rfl, only _⟩
  | send => cases only

omit [Payload M] in
/-- What is taken when one errand has moved on is what was to be taken, but for its vertex. -/
theorem perm_takenOn_set (pending : VertexId → Option M) {errands : List (Errand M R)} {i : Nat}
    {vertex : VertexId} {rest : Option M → Errand M R}
    (h : errands[i]? = some (.take vertex rest)) :
    (vertex :: (errands.set i (rest (pending vertex))).flatMap (takenOn pending)).Perm
      (errands.flatMap (takenOn pending)) := by
  rw [List.flatMap_def, List.flatMap_def, List.map_set]
  refine perm_flatten_set ?_
  rw [List.getElem?_map, h]
  rfl

/-- **Errands that only take, each vertex once, do not notice each other.** Each of them finds what
was pending at first, and what they take is not pending any more. -/
theorem Interleaved.of_onlyTakes {a b : Accumulator M} {errands : List (Errand M R)}
    {results : List R} (h : Interleaved a errands b results)
    (only : ∀ errand ∈ errands, errand.OnlyTakes) {pending : VertexId → Option M}
    (nodup : (errands.flatMap (takenOn pending)).Nodup)
    (agree : ∀ v ∈ errands.flatMap (takenOn pending), a.peek v = pending v) :
    results = errands.map (resultOn pending) ∧
      ∀ v, b.peek v = if v ∈ errands.flatMap (takenOn pending) then none else a.peek v := by
  induction h with
  | ended results => simp [List.flatMap_map, takenOn, Function.comp_def, resultOn]
  | @step a a' b errands i errand next results hi moves _ ih =>
    obtain ⟨vertex, rest, rfl, rfl, rfl, only'⟩ :=
      (only _ (List.mem_of_getElem? hi)).of_advance moves
    have hmem : vertex ∈ errands.flatMap (takenOn pending) :=
      List.mem_flatMap.2 ⟨_, List.mem_of_getElem? hi, List.mem_cons_self⟩
    rw [agree vertex hmem] at ih only'
    have hperm := perm_takenOn_set pending hi
    obtain ⟨fresh, nodup'⟩ := List.nodup_cons.1 (hperm.nodup_iff.2 nodup)
    have others : ∀ v ∈ (errands.set i (rest (pending vertex))).flatMap (takenOn pending),
        v ≠ vertex ∧ v ∈ errands.flatMap (takenOn pending) := fun v hv =>
      ⟨fun he => fresh (he ▸ hv), hperm.mem_iff.1 (List.mem_cons_of_mem _ hv)⟩
    obtain ⟨hresults, hpeek⟩ := ih
      (fun errand herrand => (List.mem_or_eq_of_mem_set herrand).elim (only errand)
        fun he => he ▸ only')
      nodup' fun v hv => by
        rw [Accumulator.peek_clear, if_neg (others v hv).1, agree v (others v hv).2]
    refine ⟨?_, fun v => ?_⟩
    · rw [hresults, List.map_set]
      refine set_of_getElem? ?_
      rw [List.getElem?_map, hi]
      rfl
    · rw [hpeek, Accumulator.peek_clear]
      have hiff := hperm.mem_iff (a := v)
      rw [List.mem_cons] at hiff
      by_cases hv : v = vertex
      · subst hv
        simp [hmem]
      · simp only [hv, false_or] at hiff
        simp only [hiff, if_neg hv]

end Errand

end Superstep
