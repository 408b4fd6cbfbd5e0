import Mathlib.Data.List.Induction
import Superstep.Proofs.Interleaving
import Superstep.Proofs.Pending

/-!
# Payloads are delivered exactly once

Clients add payloads to an accumulator and take them out again, in any order that their operations
come to their turns in. What one vertex sees of that is a ledger: the batches that were taken out,
and the payloads that have been added since. A payload enters the current batch when it is added,
the batch is closed when the vertex is consumed, and nothing else happens to it.

A payload that does not fit what is pending is refused and enters no batch, so the ledger is kept
from the answers and not from the operations alone.

## The invariant that carries the argument

`Balanced` ties a table to the ledger of one vertex. Its first clause is the one that matters: the
slot holds the merge of the current batch, and so the answer to an operation is known before it is
made. Operations on other vertices leave both sides alone.

## Main results

* `Balanced.perform`, `Balanced.performAll`: one operation, and a run
* `entriesOf_log`: what a vertex sees of a run is the run of its own operations
* `Interleaves.exactlyOnce`: what a run of clients means for a vertex
-/

namespace Superstep

/-! ### Merging batches -/

section Batches

variable {α : Type} {f : α → α → α}

/-- The merge of a batch, from its first payload on; an empty batch has none. -/
def merged (f : α → α → α) (batch : List α) : Option α := mergeAllInto f none batch

theorem mergeAllInto_append (f : α → α → α) (pending : Option α) (l l' : List α) :
    mergeAllInto f pending (l ++ l') = mergeAllInto f (mergeAllInto f pending l) l' :=
  List.foldl_append

theorem merged_append_singleton (f : α → α → α) (batch : List α) (a : α) :
    merged f (batch ++ [a]) = some (mergeInto f (merged f batch) a) := by
  rw [merged, mergeAllInto_append]
  rfl

theorem isSome_merged (f : α → α → α) (batch : List α) :
    (merged f batch).isSome = !batch.isEmpty := by
  cases batch with
  | nil => rfl
  | cons a rest =>
    rw [merged, mergeAllInto_none_cons]
    rfl

theorem merged_eq_none_iff {batch : List α} : merged f batch = none ↔ batch = [] := by
  rw [← Option.isNone_iff_eq_none, ← Option.not_isSome, isSome_merged]
  simp

/-- A whole batch arrives as its merge does. -/
theorem OrderFree.mergeAllInto_merged (h : OrderFree f) (pending : Option α) (batch : List α) :
    mergeAllInto f pending (merged f batch).toList = mergeAllInto f pending batch := by
  induction batch using List.reverseRecOn generalizing pending with
  | nil => rfl
  | append_singleton batch a ih =>
    rw [merged_append_singleton, mergeAllInto_append, ← ih pending]
    cases hb : merged f batch with
    | none => rfl
    | some b =>
      cases pending with
      | none => rfl
      | some old => exact congrArg some (h.assoc old b a).symm

/-- Merging the merges of batches is merging what is in them. -/
theorem OrderFree.merged_batches (h : OrderFree f) (batches : List (List α)) (pending : Option α) :
    mergeAllInto f pending (batches.flatMap fun batch => (merged f batch).toList) =
      mergeAllInto f pending batches.flatten := by
  induction batches generalizing pending with
  | nil => rfl
  | cons batch batches ih =>
    rw [List.flatMap_cons, List.flatten_cons, mergeAllInto_append, mergeAllInto_append,
      h.mergeAllInto_merged, ih]

end Batches

namespace Accumulator

variable {M W : Type}

/-! ### What a run did -/

/-- The vertex that an operation is about. -/
def Operation.vertex : Operation M → VertexId
  | .add v _ | .take v | .get v | .priority v | .isSet v => v

/-- Whether an operation only looks. -/
def Operation.looks : Operation M → Bool
  | .priority _ | .isSet _ => true
  | .add _ _ | .take _ | .get _ => false

/-- The payload that an operation adds to a vertex. -/
def Operation.additionTo? (v : VertexId) : Operation M → Option M
  | .add w payload => if w = v then some payload else none
  | _ => none

/-- An operation with the answer to it. -/
abbrev Entry (M W : Type) := Operation M × Except Fault (Answer M W)

/-- The operations of a run with the answers to them. -/
def log [Payload M] [Zero W] [Ranked M W] (a : Accumulator M) (ops : List (Operation M)) :
    List (Entry M W) := ops.zip (a.performAll ops).1

/-- The entries about a vertex. -/
def entriesOf (v : VertexId) (entries : List (Entry M W)) : List (Entry M W) :=
  entries.filter fun entry => entry.1.vertex == v

namespace Entry

/-- The payload that was added. A refused one was not. -/
def added? : Entry M W → Option M
  | (.add _ payload, .ok _) => some payload
  | _ => none

/-- The payload that was handed out. -/
def handedOut? : Entry M W → Option M
  | (_, .ok (.taken payload)) => payload
  | (_, .ok (.got payload)) => some payload
  | _ => none

/-- Whether a payload was added and reached an empty slot. -/
def fills : Entry M W → Bool
  | (_, .ok (.added wasEmpty)) => wasEmpty
  | _ => false

end Entry

/-- The payloads that were added to a vertex, in order. -/
def addedTo (v : VertexId) (entries : List (Entry M W)) : List M :=
  (entriesOf v entries).filterMap Entry.added?

/-- The payloads that were handed out for a vertex, in order. -/
def handedOutFor (v : VertexId) (entries : List (Entry M W)) : List M :=
  (entriesOf v entries).filterMap Entry.handedOut?

/-! ### Ledgers -/

/-- The payloads that were added to a vertex: those that were consumed, batch by batch, and those
that were added since. -/
structure Ledger (M : Type) where
  batches : List (List M) := []
  current : List M := []

namespace Ledger

/-- Closes the current batch, if there is anything in it. -/
def close (l : Ledger M) : Ledger M :=
  match l.current with
  | [] => l
  | current => ⟨l.batches ++ [current], []⟩

/-- Keeps the ledger of the vertex that an entry is about. -/
def book (l : Ledger M) : Entry M W → Ledger M
  | (.add _ payload, .ok _) => { l with current := l.current ++ [payload] }
  | (.take _, _) | (.get _, _) => l.close
  | _ => l

theorem close_of_nil {l : Ledger M} (h : l.current = []) : l.close = l := by
  rw [close, h]

theorem close_of_ne_nil {l : Ledger M} (h : l.current ≠ []) :
    l.close = ⟨l.batches ++ [l.current], []⟩ := by
  rw [close]
  split
  · rename_i he
    exact absurd he h
  · rfl

end Ledger

/-- The ledger of a vertex. -/
def ledger (v : VertexId) (entries : List (Entry M W)) : Ledger M :=
  (entriesOf v entries).foldl Ledger.book {}

/-- The payloads that were added to a vertex since it was last consumed. -/
def since (v : VertexId) (entries : List (Entry M W)) : List M := (ledger v entries).current

/-! ### One more entry -/

section Entries

variable {v : VertexId} {entry : Entry M W} (entries : List (Entry M W))

theorem entriesOf_append_of_eq (h : entry.1.vertex = v) :
    entriesOf v (entries ++ [entry]) = entriesOf v entries ++ [entry] := by
  rw [entriesOf, List.filter_append]
  simp [entriesOf, h]

theorem entriesOf_append_of_ne (h : entry.1.vertex ≠ v) :
    entriesOf v (entries ++ [entry]) = entriesOf v entries := by
  rw [entriesOf, List.filter_append]
  simp [entriesOf, h]

theorem entriesOf_entriesOf (v : VertexId) (entries : List (Entry M W)) :
    entriesOf v (entriesOf v entries) = entriesOf v entries := by
  rw [entriesOf, entriesOf, List.filter_filter]
  simp only [Bool.and_self]

theorem ledger_append_of_eq (h : entry.1.vertex = v) :
    ledger v (entries ++ [entry]) = (ledger v entries).book entry := by
  rw [ledger, entriesOf_append_of_eq entries h, List.foldl_append]
  rfl

theorem ledger_append_of_ne (h : entry.1.vertex ≠ v) :
    ledger v (entries ++ [entry]) = ledger v entries := by
  rw [ledger, entriesOf_append_of_ne entries h, ledger]

end Entries

/-! ### One operation -/

theorem onSlot_eq {α : Type} {a : Accumulator M} {v : VertexId} (h : v.toNat < a.size)
    (result : Except Fault α) : a.onSlot v result = result := by
  rw [onSlot, covers, decide_eq_true h, if_pos rfl]

section Operations

variable [Payload M] [Zero W] [Ranked M W]

@[simp] theorem size_perform (a : Accumulator M) (op : Operation M) :
    (a.perform op).2.size = a.size := by
  cases op with
  | add v payload =>
    by_cases hv : a.covers v <;> by_cases hf : a.accepts v payload <;>
      simp [perform, Accumulator.add, onSlot, hv, hf]
  | take v => by_cases hv : a.covers v <;> simp [perform, take?, onSlot, hv]
  | get v =>
    by_cases hv : a.covers v <;> cases hp : a.peek v <;>
      simp [perform, Accumulator.get, onSlot, hv, hp]
  | priority v => rfl
  | isSet v => rfl

/-- An operation that only looks changes nothing. -/
theorem perform_of_looks {op : Operation M} (h : op.looks = true) (a : Accumulator M) :
    (a.perform op).2 = a := by
  cases op with
  | add v payload => cases h
  | take v => cases h
  | get v => cases h
  | priority v => rfl
  | isSet v => rfl

/-- An operation that ends in a fault changes nothing. -/
theorem perform_of_fault {a : Accumulator M} {op : Operation M} {fault : Fault}
    (h : (a.perform op).1 = .error fault) : (a.perform op).2 = a := by
  cases op with
  | add v payload =>
    simp only [perform] at h ⊢
    split at h
    · cases h
    · rfl
  | take v =>
    simp only [perform] at h ⊢
    split at h
    · cases h
    · rfl
  | get v =>
    simp only [perform] at h ⊢
    split at h
    · cases h
    · rfl
  | priority v => rfl
  | isSet v => rfl

variable {a : Accumulator M} {v : VertexId}

theorem perform_add_of_fits {payload : M} (hv : v.toNat < a.size)
    (hf : (a.peek v).all (Payload.fits · payload) = true) :
    a.perform (.add v payload) = (.ok (.added (a.peek v).isNone), a.deposit v payload) := by
  have hadd : a.add v payload = .ok ((a.peek v).isNone, a.deposit v payload) := by
    rw [Accumulator.add, onSlot_eq hv, accepts, if_pos hf]
  rw [perform, hadd]

theorem perform_add_of_not_fits {payload : M} (hv : v.toNat < a.size)
    (hf : ¬ (a.peek v).all (Payload.fits · payload) = true) :
    a.perform (.add v payload) = (.error .overflow, a) := by
  have hadd : a.add v payload = .error .overflow := by
    rw [Accumulator.add, onSlot_eq hv, accepts, if_neg hf]
  rw [perform, hadd]

theorem perform_take (hv : v.toNat < a.size) :
    a.perform (.take v) = (.ok (.taken (a.peek v)), a.clear v) := by
  rw [perform, take?, onSlot_eq hv]

theorem perform_get_of_some {payload : M} (hv : v.toNat < a.size)
    (hp : a.peek v = some payload) : a.perform (.get v) = (.ok (.got payload), a.clear v) := by
  rw [perform, Accumulator.get, onSlot_eq hv, hp]

theorem perform_get_of_none (hv : v.toNat < a.size) (hp : a.peek v = none) :
    a.perform (.get v) = (.error (.nothingPending v), a) := by
  rw [perform, Accumulator.get, onSlot_eq hv, hp]

theorem perform_priority (hv : v.toNat < a.size) :
    a.perform (.priority v) = (.ok ((a.peek v).elim (.ranked false 0) fun payload =>
      .ranked true (Ranked.priority payload)), a) := by
  rw [perform, Accumulator.priority, onSlot_eq hv]
  cases a.peek v <;> rfl

theorem perform_isSet (hv : v.toNat < a.size) :
    a.perform (.isSet v) = (.ok (.set (a.peek v).isSome), a) := by
  rw [perform, Accumulator.isSet, onSlot_eq hv]
  rfl

/-- An operation leaves every slot alone but that of its vertex. -/
theorem peek_perform_of_ne {op : Operation M} (hop : op.vertex.toNat < a.size)
    (h : op.vertex ≠ v) : (a.perform op).2.peek v = a.peek v := by
  cases op with
  | add w payload =>
    simp only [Operation.vertex] at hop h
    by_cases hf : (a.peek w).all (Payload.fits · payload) = true
    · rw [perform_add_of_fits hop hf, peek_deposit hop, if_neg (Ne.symm h)]
    · rw [perform_add_of_not_fits hop hf]
  | take w =>
    simp only [Operation.vertex] at hop h
    rw [perform_take hop, peek_clear, if_neg (Ne.symm h)]
  | get w =>
    simp only [Operation.vertex] at hop h
    cases hp : a.peek w with
    | none => rw [perform_get_of_none hop hp]
    | some payload => rw [perform_get_of_some hop hp, peek_clear, if_neg (Ne.symm h)]
  | priority w => rfl
  | isSet w => rfl

/-- What is answered to an operation on a vertex to which `batch` was added since it was last
consumed. -/
def reply (batch : List M) : Operation M → Except Fault (Answer M W)
  | .add _ payload =>
    if (merged Payload.merge batch).all (Payload.fits · payload) then .ok (.added batch.isEmpty)
    else .error .overflow
  | .take _ => .ok (.taken (merged Payload.merge batch))
  | .get v => (merged Payload.merge batch).elim (.error (.nothingPending v)) (.ok ∘ .got)
  | .priority _ => .ok <| (merged Payload.merge batch).elim (.ranked false 0) fun payload =>
      .ranked true (Ranked.priority payload)
  | .isSet _ => .ok (.set !batch.isEmpty)

/-- The answer to an operation, if the slot holds the merge of a batch. -/
theorem perform_fst {batch : List M} {op : Operation M} (hop : op.vertex.toNat < a.size)
    (hp : a.peek op.vertex = merged Payload.merge batch) : (a.perform op).1 = reply batch op := by
  have hnone : (a.peek op.vertex).isNone = batch.isEmpty := by
    rw [hp, ← Option.not_isSome, isSome_merged, Bool.not_not]
  cases op with
  | add w payload =>
    simp only [Operation.vertex] at hop hp hnone
    by_cases hf : (a.peek w).all (Payload.fits · payload) = true
    · rw [perform_add_of_fits hop hf, hnone, reply, ← hp, if_pos hf]
    · rw [perform_add_of_not_fits hop hf, reply, ← hp, if_neg hf]
  | take w =>
    simp only [Operation.vertex] at hop hp
    rw [perform_take hop, reply, ← hp]
  | get w =>
    simp only [Operation.vertex] at hop hp
    rw [reply, ← hp]
    cases hg : a.peek w with
    | none => rw [perform_get_of_none hop hg]; rfl
    | some payload => rw [perform_get_of_some hop hg]; rfl
  | priority w =>
    simp only [Operation.vertex] at hop hp
    rw [perform_priority hop, reply, ← hp]
  | isSet w =>
    simp only [Operation.vertex] at hop hnone
    rw [perform_isSet hop, reply, ← hnone, Option.not_isNone]

end Operations

/-! ### The ledger of one slot -/

/-- The slot of a vertex, the entries about it and its ledger tell the same. -/
structure Balanced [Payload M] (pending : Option M) (own : List (Entry M W)) (l : Ledger M) :
    Prop where
  /-- The slot holds the merge of the current batch. -/
  slot : pending = merged Payload.merge l.current
  /-- No consumption is counted that found nothing. -/
  nonempty : [] ∉ l.batches
  /-- What was handed out are the merges of the closed batches. -/
  handedOut : own.filterMap Entry.handedOut? =
    l.batches.flatMap fun batch => (merged Payload.merge batch).toList
  /-- Every added payload is in one place of the ledger. -/
  added : own.filterMap Entry.added? = l.batches.flatten ++ l.current
  /-- Every batch was begun by one addition. -/
  fills : own.countP Entry.fills =
    (own.filterMap Entry.handedOut?).length + if pending.isSome then 1 else 0

namespace Balanced

variable [Payload M] {pending : Option M} {own : List (Entry M W)} {l : Ledger M}

theorem empty : Balanced (none : Option M) ([] : List (Entry M W)) {} where
  slot := rfl
  nonempty := by simp
  handedOut := rfl
  added := rfl
  fills := rfl

/-- An entry that moves no payload. -/
theorem skip (h : Balanced pending own l) {entry : Entry M W} (hh : entry.handedOut? = none)
    (ha : entry.added? = none) (hf : entry.fills = false) :
    Balanced pending (own ++ [entry]) l where
  slot := h.slot
  nonempty := h.nonempty
  handedOut := by
    rw [List.filterMap_append, h.handedOut]
    simp [hh]
  added := by
    rw [List.filterMap_append, h.added]
    simp [ha]
  fills := by
    rw [List.countP_append, h.fills, List.filterMap_append]
    simp [hf, hh]

/-- A payload is added. -/
theorem push (h : Balanced pending own l) (v : VertexId) (payload : M) :
    Balanced (some (mergeInto Payload.merge pending payload))
      (own ++ [(.add v payload, .ok (.added pending.isNone))])
      { l with current := l.current ++ [payload] } where
  slot := by rw [merged_append_singleton, h.slot]
  nonempty := h.nonempty
  handedOut := by
    rw [List.filterMap_append, h.handedOut]
    simp [Entry.handedOut?]
  added := by
    rw [List.filterMap_append, h.added]
    simp [Entry.added?]
  fills := by
    rw [List.countP_append, h.fills, List.filterMap_append]
    cases pending <;> simp [Entry.fills, Entry.handedOut?]

/-- The vertex is consumed. -/
theorem close (h : Balanced pending own l) {entry : Entry M W} (hh : entry.handedOut? = pending)
    (ha : entry.added? = none) (hf : entry.fills = false) :
    Balanced none (own ++ [entry]) l.close := by
  by_cases hc : l.current = []
  · -- nothing was pending, so nothing was handed out either
    have hp : pending = none := h.slot.trans (merged_eq_none_iff.2 hc)
    rw [Ledger.close_of_nil hc]
    subst hp
    exact h.skip hh ha hf
  · obtain ⟨payload, hp⟩ : ∃ payload, merged Payload.merge l.current = some payload :=
      Option.ne_none_iff_exists'.1 fun he => hc (merged_eq_none_iff.1 he)
    have hp' : pending = some payload := h.slot.trans hp
    rw [Ledger.close_of_ne_nil hc]
    refine ⟨rfl, ?_, ?_, ?_, ?_⟩
    · simp only [List.mem_append, List.mem_singleton, not_or]
      exact ⟨h.nonempty, Ne.symm hc⟩
    · rw [List.filterMap_append, h.handedOut]
      simp [hh, hp, hp']
    · rw [List.filterMap_append, h.added]
      simp [ha]
    · rw [List.countP_append, h.fills, List.filterMap_append]
      simp [hf, hh, hp']

end Balanced

section Runs

variable [Payload M] [Zero W] [Ranked M W] {a b : Accumulator M} {v : VertexId}
  {own : List (Entry M W)} {l : Ledger M}

/-- **One operation on a vertex keeps its ledger balanced.** -/
theorem Balanced.perform (h : Balanced (a.peek v) own l) {op : Operation M}
    (hop : op.vertex.toNat < a.size) (hv : op.vertex = v) :
    Balanced ((a.perform op).2.peek v) (own ++ [(op, (a.perform op).1)])
      (l.book (op, (a.perform op).1)) := by
  subst hv
  cases op with
  | add w payload =>
    simp only [Operation.vertex] at hop h ⊢
    by_cases hf : (a.peek w).all (Payload.fits · payload) = true
    · rw [perform_add_of_fits hop hf, peek_deposit hop, if_pos rfl]
      exact h.push w payload
    · rw [perform_add_of_not_fits hop hf]
      exact h.skip rfl rfl rfl
  | take w =>
    simp only [Operation.vertex] at hop h ⊢
    rw [perform_take hop, peek_clear, if_pos rfl]
    exact h.close rfl rfl rfl
  | get w =>
    simp only [Operation.vertex] at hop h ⊢
    cases hp : a.peek w with
    | none =>
      rw [perform_get_of_none hop hp, hp]
      rw [hp] at h
      exact h.close rfl rfl rfl
    | some payload =>
      rw [perform_get_of_some hop hp, peek_clear, if_pos rfl]
      rw [hp] at h
      exact h.close rfl rfl rfl
  | priority w =>
    simp only [Operation.vertex] at hop h ⊢
    rw [perform_priority hop]
    refine h.skip ?_ rfl ?_ <;> cases a.peek w <;> rfl
  | isSet w =>
    simp only [Operation.vertex] at hop h ⊢
    rw [perform_isSet hop]
    exact h.skip rfl rfl rfl

/-! ### Runs -/

theorem log_cons (a : Accumulator M) (op : Operation M) (ops : List (Operation M)) :
    a.log (op :: ops) = (op, (a.perform op).1) :: (a.perform op).2.log ops := rfl

theorem performAll_cons_snd (a : Accumulator M) (op : Operation M) (ops : List (Operation M)) :
    (a.performAll (op :: ops)).2 = ((a.perform op).2.performAll ops).2 := rfl

/-- **A run keeps the ledger of every vertex balanced**, whatever it does to the others. -/
theorem Balanced.performAll {entries : List (Entry M W)} {ops : List (Operation M)}
    (h : Balanced (a.peek v) (entriesOf v entries) (ledger v entries))
    (hops : ∀ op ∈ ops, op.vertex.toNat < a.size) :
    Balanced ((a.performAll ops).2.peek v) (entriesOf v (entries ++ a.log ops))
      (ledger v (entries ++ a.log ops)) := by
  induction ops generalizing a entries with
  | nil =>
    rw [show a.log [] = [] from rfl, List.append_nil]
    exact h
  | cons op ops ih =>
    have hop := hops op List.mem_cons_self
    have hrest : ∀ op' ∈ ops, op'.vertex.toNat < (a.perform op).2.size := by
      intro op' hm
      rw [size_perform]
      exact hops op' (List.mem_cons_of_mem _ hm)
    rw [log_cons, performAll_cons_snd, List.append_cons]
    refine ih ?_ hrest
    by_cases hv : op.vertex = v
    · rw [entriesOf_append_of_eq entries hv, ledger_append_of_eq entries hv]
      exact h.perform hop hv
    · rw [entriesOf_append_of_ne entries hv, ledger_append_of_ne entries hv,
        peek_perform_of_ne hop hv]
      exact h

theorem length_log (a : Accumulator M) (ops : List (Operation M)) :
    (a.log ops).length = ops.length := by
  induction ops generalizing a with
  | nil => rfl
  | cons op ops ih => rw [log_cons, List.length_cons, ih, List.length_cons]

theorem log_append (a : Accumulator M) (before after : List (Operation M)) :
    a.log (before ++ after) = a.log before ++ (a.performAll before).2.log after := by
  induction before generalizing a with
  | nil => rfl
  | cons op before ih =>
    rw [List.cons_append, log_cons, log_cons, ih, performAll_cons_snd, List.cons_append]

@[simp] theorem size_performAll (a : Accumulator M) (ops : List (Operation M)) :
    (a.performAll ops).2.size = a.size := by
  induction ops generalizing a with
  | nil => rfl
  | cons op ops ih => rw [performAll_cons_snd, ih, size_perform]

theorem map_fst_log (a : Accumulator M) (ops : List (Operation M)) :
    (a.log ops).map Prod.fst = ops := by
  induction ops generalizing a with
  | nil => rfl
  | cons op ops ih => rw [log_cons, List.map_cons, ih]

/-- What a vertex sees of a run is the run of its own operations. -/
theorem entriesOf_log {ops : List (Operation M)} (ha : Balanced (a.peek v) own l)
    (hb : Balanced (b.peek v) own l) (hsize : b.size = a.size)
    (hops : ∀ op ∈ ops, op.vertex.toNat < a.size) :
    entriesOf v (a.log ops) = b.log (ops.filter fun op => op.vertex == v) := by
  induction ops generalizing a b own l with
  | nil => rfl
  | cons op ops ih =>
    have hop := hops op List.mem_cons_self
    have hrest : ∀ op' ∈ ops, op'.vertex.toNat < (a.perform op).2.size := by
      intro op' hm
      rw [size_perform]
      exact hops op' (List.mem_cons_of_mem _ hm)
    by_cases hv : op.vertex = v
    · -- both runs give the answer that the ledger demands, and so they keep the same ledger
      subst hv
      have hanswer : (b.perform op).1 = (a.perform op).1 := by
        rw [perform_fst hop ha.slot, perform_fst (hsize ▸ hop) hb.slot]
      have hb' := hb.perform (hsize ▸ hop) rfl
      rw [hanswer] at hb'
      have htail := ih (ha.perform hop rfl) hb' (by simp [hsize]) hrest
      rw [log_cons, entriesOf, List.filter_cons_of_pos (by simp),
        List.filter_cons_of_pos (by simp), log_cons, hanswer, ← htail, entriesOf]
    · have ha' : Balanced ((a.perform op).2.peek v) own l := by
        rw [peek_perform_of_ne hop hv]
        exact ha
      have htail := ih ha' hb (by rw [hsize, size_perform]) hrest
      rw [log_cons, entriesOf, List.filter_cons_of_neg (by simpa using hv),
        List.filter_cons_of_neg (by simpa using hv), ← htail, entriesOf]

end Runs

/-! ### Clients -/

/-- What a run of clients on a new table means for one vertex, whichever way their operations
interleave. -/
structure ExactlyOnce [Payload M] [Zero W] [Ranked M W] (size : Nat)
    (clients : List (List (Operation M))) (ops : List (Operation M)) (v : VertexId) : Prop where
  /-- Every operation is answered from the payloads that were added to its vertex since that was
  last consumed, and from nothing else. -/
  answers : ∀ before op after, ops = before ++ op :: after → op.vertex = v →
    ((ofSize size).log ops)[before.length]? =
      some (op, reply (since v ((ofSize size).log before)) op)
  /-- At the end the slot holds the merge of the additions since the last consumption. What was
  handed out are the merges of the batches before it, and every addition is in one of them. -/
  balanced : Balanced (((ofSize size).performAll ops).2.peek v)
    (entriesOf v ((ofSize size).log ops)) (ledger v ((ofSize size).log ops))
  /-- An operation that only looks and one that ends in a fault change nothing. -/
  unchanged : ∀ (a : Accumulator M) (op : Operation M),
    (op.looks = true ∨ ∃ fault, (a.perform op).1 = .error fault) → (a.perform op).2 = a
  /-- Without the operations on other vertices, nothing would be different for this one. -/
  isolated : entriesOf v ((ofSize size).log ops) =
      (ofSize size).log (ops.filter fun op => op.vertex == v) ∧
    ((ofSize size).performAll ops).2.peek v =
      ((ofSize size).performAll (ops.filter fun op => op.vertex == v)).2.peek v
  /-- If the merge is order-free and nothing was refused, what was handed out and what is pending
  merge to what the clients added between them, in whatever order it came. -/
  total : OrderFree (Payload.merge : M → M → M) →
    (∀ payload fault, (Operation.add v payload, .error fault) ∉ (ofSize size).log ops) →
    merged Payload.merge (handedOutFor v ((ofSize size).log ops) ++
        (((ofSize size).performAll ops).2.peek v).toList) =
      merged Payload.merge (clients.flatten.filterMap (Operation.additionTo? v))

/-- If nothing is refused, what was added is what the operations add. -/
theorem addedTo_eq {entries : List (Entry M W)} {v : VertexId}
    (accepted : ∀ payload fault, (Operation.add v payload, .error fault) ∉ entries) :
    addedTo v entries = (entries.map Prod.fst).filterMap (Operation.additionTo? v) := by
  rw [addedTo, entriesOf, List.filterMap_filter, List.filterMap_map]
  refine List.filterMap_congr fun entry hm => ?_
  obtain ⟨op, answer⟩ := entry
  cases op with
  | add w payload =>
    by_cases hw : w = v
    · subst hw
      cases answer with
      | ok answer => simp [Operation.vertex, Operation.additionTo?, Entry.added?]
      | error fault => exact absurd hm (accepted payload fault)
    · simp [Operation.vertex, Operation.additionTo?, hw]
  | take w => simp [Operation.additionTo?, Entry.added?]
  | get w => simp [Operation.additionTo?, Entry.added?]
  | priority w => simp [Operation.additionTo?, Entry.added?]
  | isSet w => simp [Operation.additionTo?, Entry.added?]

section Clients

variable [Payload M] [Zero W] [Ranked M W] {size : Nat} {ops : List (Operation M)}

theorem balanced_ofSize (hops : ∀ op ∈ ops, op.vertex.toNat < size) (v : VertexId) :
    Balanced (((ofSize size).performAll ops).2.peek v) (entriesOf v ((ofSize size).log ops))
      (ledger v ((ofSize size).log ops)) := by
  have h : Balanced ((ofSize size : Accumulator M).peek v) (entriesOf v ([] : List (Entry M W)))
      (ledger v ([] : List (Entry M W))) := by
    rw [peek_ofSize]
    exact .empty
  exact h.performAll (by simpa using hops)

/-- **Payloads are delivered exactly once**, for any number of clients and any interleaving of their
operations. -/
theorem exactlyOnce_of_interleaves {clients : List (List (Operation M))}
    (interleaving : Interleaves clients ops)
    (inRange : ∀ client ∈ clients, ∀ op ∈ client, op.vertex.toNat < size) (v : VertexId) :
    ExactlyOnce size clients ops v := by
  have hops : ∀ op ∈ ops, op.vertex.toNat < size := by
    intro op hm
    obtain ⟨client, hclient, hop⟩ := List.mem_flatten.1 (interleaving.perm.mem_iff.1 hm)
    exact inRange client hclient op hop
  have hbalanced := balanced_ofSize hops v
  refine ⟨?_, hbalanced, ?_, ?_, ?_⟩
  · intro before op after he hv
    subst he hv
    have hbefore : ∀ op' ∈ before, op'.vertex.toNat < size :=
      fun op' hm => hops op' (List.mem_append_left _ hm)
    have hop : op.vertex.toNat < ((ofSize size : Accumulator M).performAll before).2.size := by
      rw [size_performAll, size_ofSize]
      exact hops op (by simp)
    rw [log_append, log_cons, List.getElem?_append_right (Nat.le_of_eq (length_log _ _)),
      length_log, Nat.sub_self, List.getElem?_cons_zero, since,
      perform_fst hop (balanced_ofSize hbefore op.vertex).slot]
  · intro a op h
    rcases h with h | ⟨fault, h⟩
    · exact perform_of_looks h a
    · exact perform_of_fault h
  · have hown : ∀ op ∈ ops.filter (fun op => op.vertex == v), op.vertex.toNat < size :=
      fun op hm => hops op (List.mem_of_mem_filter hm)
    have hempty : Balanced ((ofSize size : Accumulator M).peek v) ([] : List (Entry M W)) {} := by
      rw [peek_ofSize]
      exact .empty
    have hlog := entriesOf_log hempty hempty rfl (by simpa using hops)
    refine ⟨hlog, ?_⟩
    -- the ledgers agree because they are kept from the same entries
    have hledger : ledger v ((ofSize size : Accumulator M).log ops) =
        ledger v ((ofSize size).log (ops.filter fun op => op.vertex == v)) := by
      rw [ledger, ledger, ← hlog, entriesOf_entriesOf]
    rw [hbalanced.slot, (balanced_ofSize hown v).slot, hledger]
  · intro merging accepted
    have hadded : addedTo v ((ofSize size).log ops) =
        ops.filterMap (Operation.additionTo? v) := by
      rw [addedTo_eq accepted, map_fst_log]
    have hperm := interleaving.perm.filterMap (Operation.additionTo? v)
    calc merged Payload.merge (handedOutFor v ((ofSize size).log ops) ++
          (((ofSize size).performAll ops).2.peek v).toList)
        = merged Payload.merge (addedTo v ((ofSize size).log ops)) := by
          rw [handedOutFor, hbalanced.handedOut, hbalanced.slot, addedTo, hbalanced.added, merged,
            mergeAllInto_append, merging.mergeAllInto_merged, merging.merged_batches, merged,
            mergeAllInto_append]
      _ = merged Payload.merge (clients.flatten.filterMap (Operation.additionTo? v)) := by
          rw [hadded]
          exact merging.mergeAllInto_perm hperm none

end Clients

/-- Two clients, both of which add to the first vertex and take from it. -/
def addersAndTakers : List (List (Operation UInt64)) :=
  [[.add 0 5, .take 0, .get 0], [.add 0 7, .isSet 0, .add 1 1, .add 0 2]]

/-- The first batch is taken as one payload, the demand behind it fails, and what is added after
that is pending. -/
theorem exactlyOnce_addersAndTakers :
    Interleaves addersAndTakers (weave [0, 1, 0, 0] addersAndTakers) ∧
      (∀ client ∈ addersAndTakers, ∀ op ∈ client, op.vertex.toNat < 2) ∧
      handedOutFor 0 ((ofSize 2).log (weave [0, 1, 0, 0] addersAndTakers)) = [12] ∧
      ((ofSize 2).log (weave [0, 1, 0, 0] addersAndTakers))[3]? =
        some (.get 0, .error (.nothingPending 0)) ∧
      ((ofSize 2).performAll (weave [0, 1, 0, 0] addersAndTakers)).2.peek 0 = some 2 := by
  have inRange : ∀ client ∈ addersAndTakers, ∀ op ∈ client, op.vertex.toNat < 2 := by
    decide
  have once := exactlyOnce_of_interleaves (interleaves_weave [0, 1, 0, 0] addersAndTakers) inRange 0
  refine ⟨interleaves_weave _ _, inRange, ?_, ?_, ?_⟩
  · rw [handedOutFor, once.balanced.handedOut]
    rfl
  · exact once.answers [.add 0 5, .add 0 7, .take 0] (.get 0) _ rfl rfl
  · rw [once.balanced.slot]
    rfl

end Accumulator

end Superstep
