import Superstep.Proofs.Lookup
import Superstep.Proofs.Pending

/-!
# Sparse vectors, entry by entry

Every operation on sparse vectors does at one vertex what its arguments have there, so the entries
of one vertex can be followed through sums and merges without the others. Only one thing depends on
them: an entry that arrives alone is stored as it is, and one that arrives in a vector that meets
another one is added to zero first. Where nothing is lost by that, merged vectors have merged
entries.

## Main results

* `Sparse.anyOrder_merge`: the order of vectors does not count if that of their entries does not
* `Sparse.get?_merge`, `Sparse.get?_add`, `Sparse.get?_scaled`
* `Sparse.get?_mergeAllInto`: the entries of merged vectors are merged entries
-/

namespace Superstep.Sparse

variable {W : Type} [Weight W]

theorem get?_merge (v other : Sparse W) (id : VertexId) :
    (v.merge other).get? id =
      ((other.get? id).map (accumulate (v.get? id))).or (v.get? id) :=
  VertexMap.get?_mergeWith ..

/-- An entry and what is added to it, if anything is. -/
def added (old arrival : Option W) : Option W := (arrival.map (accumulate old)).or old

theorem get?_merge_eq_added (v other : Sparse W) (id : VertexId) :
    (v.merge other).get? id = added (v.get? id) (other.get? id) := get?_merge ..

theorem added_ne_none {old arrival : Option W} :
    added old arrival ≠ none ↔ old ≠ none ∨ arrival ≠ none := by
  cases old <;> cases arrival <;> simp [added]

/-- Merged vectors have an entry wherever one of them has. -/
theorem get?_mergeAllInto_ne_none {pending : Option (Sparse W)} {arrivals : List (Sparse W)}
    {id : VertexId} :
    (mergeAllInto Payload.merge pending arrivals).bind (·.get? id) ≠ none ↔
      pending.bind (·.get? id) ≠ none ∨ ∃ arrival ∈ arrivals, arrival.get? id ≠ none := by
  induction arrivals generalizing pending with
  | nil => simp
  | cons arrival rest ih =>
    have hinto : (some (mergeInto Payload.merge pending arrival)).bind (·.get? id) ≠ none ↔
        pending.bind (·.get? id) ≠ none ∨ arrival.get? id ≠ none := by
      cases pending with
      | none => simp [mergeInto]
      | some old =>
        have hmerge : mergeInto Payload.merge (some old) arrival = old.merge arrival := rfl
        rw [hmerge, Option.bind_some, Option.bind_some, get?_merge_eq_added, added_ne_none]
    rw [mergeAllInto_cons, ih, hinto, or_assoc]
    simp only [List.mem_cons, exists_eq_or_imp]

/-- Vectors may be merged in any order if that is so of their entries. -/
theorem anyOrder_merge {arrivals : List (Sparse W)}
    (h : ∀ id, AnyOrder added none (arrivals.map (·.get? id))) :
    AnyOrder Payload.merge none arrivals := by
  intro order hperm
  have hentries : ∀ id, (mergeAllInto Payload.merge none order).map (·.get? id) =
      (mergeAllInto Payload.merge none arrivals).map (·.get? id) := by
    intro id
    have hmap : ∀ l : List (Sparse W), (mergeAllInto Payload.merge none l).map (·.get? id) =
        mergeAllInto added none (l.map (·.get? id)) :=
      map_mergeAllInto (fun v w => get?_merge_eq_added v w id) none
    rw [hmap, hmap]
    exact h id _ (hperm.map _)
  cases harrived : mergeAllInto Payload.merge none arrivals with
  | none => simpa [harrived] using hentries 0
  | some v =>
    cases hordered : mergeAllInto Payload.merge none order with
    | none => simpa [harrived, hordered] using hentries 0
    | some w =>
      refine congrArg some (VertexMap.ext_get? fun id => ?_)
      simpa [harrived, hordered] using hentries id

theorem get?_add (v : Sparse W) (key : VertexId) (w : W) (id : VertexId) :
    (v.add key w).get? id = if id = key then some (accumulate (v.get? key) w) else v.get? id :=
  VertexMap.get?_upsert ..

theorem get?_scaled (v : Sparse W) (factor : W) (id : VertexId) :
    (v.scaled factor).get? id = (v.get? id).map fun w => accumulate none (w * factor) := by
  rw [scaled, VertexMap.get?_filterMap, Option.map_eq_bind]
  rfl

/-- Weights that an addition to zero leaves as they are. -/
def FromZero (w : W) : Prop := 0 + w = w

/-- An entry that arrives does at its vertex what `mergeInto` does. -/
theorem get?_mergeInto {pending : Option (Sparse W)} {arrival : Sparse W} {id : VertexId}
    (h : ∀ w, arrival.get? id = some w → FromZero w) :
    (mergeInto Payload.merge pending arrival).get? id =
      ((arrival.get? id).map (mergeInto (· + ·) (pending.bind (·.get? id)))).or
        (pending.bind (·.get? id)) := by
  cases pending with
  | none => cases hw : arrival.get? id <;> simp [mergeInto, hw]
  | some old =>
    have hmerge : mergeInto Payload.merge (some old) arrival = old.merge arrival := rfl
    rw [hmerge, get?_merge, Option.bind_some]
    cases hw : arrival.get? id with
    | none => rfl
    | some w =>
      cases hold : old.get? id with
      | none => exact congrArg some (h w hw)
      | some x => rfl

/-- **The entries of merged vectors are merged entries**, as long as none of them is changed when it
is added to zero. -/
theorem get?_mergeAllInto {id : VertexId} {arrivals : List (Sparse W)}
    (h : ∀ arrival ∈ arrivals, ∀ w, arrival.get? id = some w → FromZero w)
    (pending : Option (Sparse W)) :
    (mergeAllInto Payload.merge pending arrivals).bind (·.get? id) =
      mergeAllInto (· + ·) (pending.bind (·.get? id)) (arrivals.filterMap (·.get? id)) := by
  induction arrivals generalizing pending with
  | nil => rfl
  | cons arrival rest ih =>
    rw [mergeAllInto_cons, ih fun a ha => h a (List.mem_cons_of_mem _ ha), Option.bind_some,
      get?_mergeInto (h arrival List.mem_cons_self), List.filterMap_cons]
    cases hw : arrival.get? id with
    | none => rw [Option.map_none, Option.none_or]
    | some w => rw [Option.map_some, Option.some_or, mergeAllInto_cons]

end Superstep.Sparse
