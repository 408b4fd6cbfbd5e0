import Superstep.Proofs.Engine.Refinement

/-!
# Engines at the start of a run

An engine for a graph whose vertices can be shared is well-shaped, and nothing is pending in it. If
all of its vertices are signalled, each of them has an empty payload pending, so all of them take
part in the first round.

## Main results

* `create_eq_ofProgram`: when there is a new engine, and which one
* `Runnable.of_create`: when it can run
* `peek_signalAll`: what is pending once every vertex is signalled
-/

namespace Superstep

namespace Engine

variable {S D M G : Type}

/-! ### New engines -/

theorem create_eq_ofProgram {program : VertexProgram S D M G} {prototype : S} {n : Nat}
    {options : EngineOptions} (h : Tiling.fits n options.workers = true) :
    create program prototype n options = .ok (ofProgram program prototype n options) := by
  have htiled : (ofProgram program prototype n options).isTiled = true := by
    rw [isTiled, ofProgram, restarted, emptied]
    simpa using h
  simp only [create, if_pos htiled]

theorem eq_ofProgram_of_create {program : VertexProgram S D M G} {prototype : S} {n : Nat}
    {options : EngineOptions} {e : Engine S D M G}
    (h : create program prototype n options = .ok e) :
    e = ofProgram program prototype n options := by
  simp only [create] at h
  split at h
  · exact (Except.ok.inj h).symm
  · cases h

theorem WellShaped.length_workers_le_one {e : Engine S D M G} (w : WellShaped e)
    (h : e.options.workers ≤ 1) : e.workers.length ≤ 1 := by
  rw [w.length_workers]
  exact Tiling.length_ranges_le_one h

/-- One worker sends everything, or the order of deliveries does not count. -/
theorem WellShaped.confluent [Payload M] {e : Engine S D M G} (w : WellShaped e)
    (h : e.options.workers ≤ 1 ∨ OrderFree (Payload.merge : M → M → M)) :
    Confluent M e.workers.length := h.imp_left w.length_workers_le_one

theorem peek_ofProgram (program : VertexProgram S D M G) (prototype : S) (n : Nat)
    (options : EngineOptions) (v : VertexId) :
    (ofProgram program prototype n options).accumulator.peek v = none :=
  Accumulator.peek_ofSize n v

@[simp] theorem size_ofProgram (program : VertexProgram S D M G) (prototype : S) (n : Nat)
    (options : EngineOptions) :
    (ofProgram program prototype n options).accumulator.size = n := Accumulator.size_ofSize n

/-- A new engine can run on a graph of its size if states are kept and signals stay inside. -/
theorem Runnable.of_create [Payload M] {program : VertexProgram S D M G} {prototype : S}
    {options : EngineOptions} {e : Engine S D M G} {g : Graph D} (hf : g.finalized = true)
    (h : create program prototype g.numVertices options = .ok e)
    (only : program.OnlyScatters) (inside : program.StaysInside)
    (kept : ∀ state, ∃ state', program.kept options.persist prototype state = .ok state')
    (hm : options.workers ≤ 1 ∨ OrderFree (Payload.merge : M → M → M)) : Runnable e g := by
  have w := WellShaped.create h
  obtain rfl := eq_ofProgram_of_create h
  exact
    { regular := ⟨w, only⟩
      finalized := hf
      size := (size_ofProgram ..).symm
      confluent := w.confluent hm
      inside := inside
      carries := carries_of_kept kept }

/-! ### Signalling every vertex -/

/-- What is pending after a payload has been put into each of several slots. -/
theorem peek_foldl_deposit [Payload M] (payload : M) {ids : List VertexId} (nodup : ids.Nodup)
    (a : Accumulator M) (h : ∀ id ∈ ids, id.toNat < a.size) (v : VertexId) :
    (ids.foldl (fun a id => a.deposit id payload) a).peek v =
      if v ∈ ids then some (mergeInto Payload.merge (a.peek v) payload) else a.peek v := by
  induction ids generalizing a with
  | nil => simp
  | cons id ids ih =>
    obtain ⟨hid, nodup⟩ := List.nodup_cons.1 nodup
    rw [List.foldl_cons, ih nodup _ fun i hi => by
      rw [Accumulator.size_deposit]
      exact h i (List.mem_cons_of_mem _ hi)]
    rw [Accumulator.peek_deposit (h id List.mem_cons_self)]
    by_cases hv : v = id
    · subst hv
      simp [hid]
    · simp [hv]

/-- Once every vertex is signalled, every vertex has something pending. -/
theorem peek_signalAll [Payload M] [Inhabited M] {e : Engine S D M G}
    (hle : e.accumulator.size ≤ UInt32.size) (v : VertexId) :
    e.signalAll.accumulator.peek v =
      if v.toNat < e.accumulator.size then
        some (mergeInto Payload.merge (e.accumulator.peek v) default)
      else e.accumulator.peek v := by
  have hfold : e.signalAll.accumulator =
      ((List.range e.accumulator.size).map UInt32.ofNat).foldl
        (fun a id => a.deposit id default) e.accumulator := by
    rw [List.foldl_map]
    rfl
  rw [hfold, peek_foldl_deposit default (nodup_map_ofNat_range hle) _ fun id h =>
    mem_map_ofNat_range.1 h]
  simp only [mem_map_ofNat_range]

end Engine

end Superstep
