import Mathlib.Data.List.Perm.Basic
import Superstep.Engine.Round

/-!
# What is pending, slot by slot

`peek` is the view of an accumulator through which everything else is said. A delivery is a fold
over the whole table, but each of its steps touches one slot, so what happens to one vertex depends
only on the operations that name it.

Arrivals at one slot merge from the left into what is there. For a single sequence of deliveries
that is all; for interleaved ones the merge has to be commutative and associative, which is
`OrderFree`, and then only the multiset of arrivals counts.

## Main results

* `Accumulator.peek_deliver`: what is pending after a delivery
* `Accumulator.deliver_eq_of_addAll`, `Accumulator.addAll_eq_deliver`: as long as everything fits,
  to deliver is to add
* `OrderFree.mergeAllInto_perm`: the order of arrivals does not count
-/

namespace Superstep

/-! ### Merging arrivals -/

section Merging

variable {α : Type} {f : α → α → α}

/-- What a slot holds when something arrives that meets `pending`. -/
def mergeInto (f : α → α → α) (pending : Option α) (arrival : α) : α :=
  pending.elim arrival fun old => f old arrival

/-- What a slot holds after arrivals in order. -/
def mergeAllInto (f : α → α → α) (pending : Option α) (arrivals : List α) : Option α :=
  arrivals.foldl (fun pending arrival => some (mergeInto f pending arrival)) pending

@[simp] theorem mergeAllInto_nil (f : α → α → α) (pending : Option α) :
    mergeAllInto f pending [] = pending := rfl

theorem mergeAllInto_cons (f : α → α → α) (pending : Option α) (a : α) (arrivals : List α) :
    mergeAllInto f pending (a :: arrivals) =
      mergeAllInto f (some (mergeInto f pending a)) arrivals := rfl

/-- Once something is there, a fold of the merge is all that happens. -/
theorem mergeAllInto_some (f : α → α → α) (old : α) (arrivals : List α) :
    mergeAllInto f (some old) arrivals = some (arrivals.foldl f old) := by
  induction arrivals generalizing old with
  | nil => rfl
  | cons a rest ih => exact ih (f old a)

theorem mergeAllInto_none_cons (f : α → α → α) (a : α) (arrivals : List α) :
    mergeAllInto f none (a :: arrivals) = some (arrivals.foldl f a) :=
  mergeAllInto_some f a arrivals

/-- What is said of merged arrivals may be said of the arrivals, if it goes along with the merge. -/
theorem map_mergeAllInto {β : Type} {g : α → β} {f' : β → β → β}
    (h : ∀ a b, g (f a b) = f' (g a) (g b)) (pending : Option α) (arrivals : List α) :
    (mergeAllInto f pending arrivals).map g =
      mergeAllInto f' (pending.map g) (arrivals.map g) := by
  induction arrivals generalizing pending with
  | nil => rfl
  | cons a rest ih =>
    have hinto : g (mergeInto f pending a) = mergeInto f' (pending.map g) (g a) := by
      cases pending with
      | none => rfl
      | some old => exact h old a
    rw [mergeAllInto_cons, ih, List.map_cons, mergeAllInto_cons, Option.map_some, hinto]

/-- A merge for which the order of arrivals does not count. -/
structure OrderFree (f : α → α → α) : Prop where
  comm : ∀ a b, f a b = f b a
  assoc : ∀ a b c, f (f a b) c = f a (f b c)

theorem OrderFree.mergeInto_swap (h : OrderFree f) (pending : Option α) (a b : α) :
    mergeInto f (some (mergeInto f pending a)) b =
      mergeInto f (some (mergeInto f pending b)) a := by
  cases pending with
  | none => exact h.comm a b
  | some old =>
    calc f (f old a) b = f old (f a b) := h.assoc old a b
      _ = f old (f b a) := by rw [h.comm a b]
      _ = f (f old b) a := (h.assoc old b a).symm

/-- The order of arrivals does not count. -/
theorem OrderFree.mergeAllInto_perm (h : OrderFree f) {l l' : List α} (hl : l.Perm l')
    (pending : Option α) : mergeAllInto f pending l = mergeAllInto f pending l' := by
  refine hl.foldl_eq' (fun a _ b _ pending => ?_) pending
  rw [h.mergeInto_swap]

/-- Arrivals that lead to the same in whatever order they meet `pending`. -/
def AnyOrder (f : α → α → α) (pending : Option α) (arrivals : List α) : Prop :=
  ∀ order : List α, order.Perm arrivals →
    mergeAllInto f pending order = mergeAllInto f pending arrivals

theorem OrderFree.anyOrder (h : OrderFree f) (pending : Option α) (arrivals : List α) :
    AnyOrder f pending arrivals :=
  fun _ hperm => h.mergeAllInto_perm hperm pending

/-- One arrival has one order. -/
theorem anyOrder_of_length_le_one (f : α → α → α) (pending : Option α) {arrivals : List α}
    (h : arrivals.length ≤ 1) : AnyOrder f pending arrivals := by
  intro order hperm
  match arrivals, h with
  | [], _ => rw [List.perm_nil.1 hperm]
  | [a], _ => rw [List.perm_singleton.1 hperm]

theorem anyOrder_pair {a b : α} (h : f a b = f b a) : AnyOrder f none [a, b] := by
  intro order hperm
  obtain ⟨x, y, rfl⟩ := List.length_eq_two.1 hperm.length_eq
  have hx : x = a ∨ x = b := by simpa using hperm.mem_iff.1 List.mem_cons_self
  rcases hx with rfl | rfl
  · rw [List.perm_singleton.1 hperm.cons_inv]
  · have hy := List.perm_singleton.1 (hperm.trans (.swap ..)).cons_inv
    rw [List.singleton_inj.1 hy]
    exact congrArg some h.symm

end Merging

namespace Accumulator

variable {M : Type}

/-! ### One slot -/

theorem peek_eq_none_of_size_le {a : Accumulator M} {v : VertexId} (h : a.size ≤ v.toNat) :
    a.peek v = none := by
  rw [peek, Array.getElem?_eq_none h]
  rfl

@[simp] theorem peek_ofSize (n : Nat) (v : VertexId) :
    (ofSize n : Accumulator M).peek v = none := by
  rw [peek, ofSize, Array.getElem?_replicate]
  split <;> rfl

@[simp] theorem size_ofSize (n : Nat) : (ofSize n : Accumulator M).size = n :=
  Array.size_replicate

@[simp] theorem size_clear (a : Accumulator M) (v : VertexId) : (a.clear v).size = a.size :=
  Array.size_modify

@[simp] theorem size_deposit [Payload M] (a : Accumulator M) (v : VertexId) (payload : M) :
    (a.deposit v payload).size = a.size := Array.size_modify

/-- Two tables of one size with the same payloads are the same, as far as vertices reach. -/
theorem eq_of_peek_eq {a b : Accumulator M} (hs : a.size = b.size) (hle : a.size ≤ UInt32.size)
    (h : ∀ v, a.peek v = b.peek v) : a = b := by
  obtain ⟨slots⟩ := a
  obtain ⟨slots'⟩ := b
  congr 1
  refine Array.ext hs fun i hi hi' => ?_
  have hlt : i < UInt32.size := Nat.lt_of_lt_of_le hi hle
  have := h (UInt32.ofNat i)
  simpa [peek, UInt32.toNat_ofNat_of_lt' hlt, hi, hi'] using this

theorem peek_clear (a : Accumulator M) (v w : VertexId) :
    (a.clear v).peek w = if w = v then none else a.peek w := by
  rw [peek, clear, Array.getElem?_modify]
  by_cases h : w = v
  · subst h
    cases hw : a.slots[w.toNat]? <;> simp
  · rw [if_neg fun he => h (UInt32.toNat_inj.1 he.symm), if_neg h, peek]

theorem peek_deposit [Payload M] {a : Accumulator M} {v : VertexId} (h : v.toNat < a.size)
    (payload : M) (w : VertexId) :
    (a.deposit v payload).peek w =
      if w = v then some (mergeInto Payload.merge (a.peek w) payload) else a.peek w := by
  rw [peek, deposit, Array.getElem?_modify]
  by_cases hw : w = v
  · subst hw
    rw [if_pos rfl, if_pos rfl, peek, Array.getElem?_eq_getElem h]
    cases a.slots[w.toNat] <;> rfl
  · rw [if_neg fun he => hw (UInt32.toNat_inj.1 he.symm), if_neg hw, peek]

/-! ### Delivering -/

/-- What the signals of a list bring to a vertex, in order. -/
def arrivals (v : VertexId) (signals : List (Signal M)) : List M :=
  (signals.filter fun signal => signal.target == v).map Signal.payload

theorem arrivals_cons (v : VertexId) (signal : Signal M) (signals : List (Signal M)) :
    arrivals v (signal :: signals) =
      if signal.target = v then signal.payload :: arrivals v signals else arrivals v signals := by
  rw [arrivals, List.filter_cons]
  by_cases h : signal.target = v <;> simp [h, arrivals]

theorem arrivals_append (v : VertexId) (l l' : List (Signal M)) :
    arrivals v (l ++ l') = arrivals v l ++ arrivals v l' := by
  rw [arrivals, List.filter_append, List.map_append]
  rfl

theorem arrivals_flatMap {α : Type} (v : VertexId) (l : List α) (f : α → List (Signal M)) :
    arrivals v (l.flatMap f) = l.flatMap fun a => arrivals v (f a) := by
  induction l with
  | nil => rfl
  | cons a l ih => rw [List.flatMap_cons, List.flatMap_cons, arrivals_append, ih]

theorem mem_arrivals {signal : Signal M} {signals : List (Signal M)} (h : signal ∈ signals) :
    signal.payload ∈ arrivals signal.target signals :=
  List.mem_map_of_mem (List.mem_filter.2 ⟨h, beq_self_eq_true signal.target⟩)

theorem arrivals_perm (v : VertexId) {l l' : List (Signal M)} (h : l.Perm l') :
    (arrivals v l).Perm (arrivals v l') := (h.filter _).map _

/-- One step of `deliver`. -/
def deliverOne [Payload M] (t : Accumulator M × List Nat) (post : Post M) :
    Accumulator M × List Nat :=
  (t.1.deposit post.signal.target post.signal.payload,
    if (t.1.peek post.signal.target).isNone then post.worker :: t.2 else t.2)

theorem size_foldl_deliverOne [Payload M] (posts : List (Post M))
    (t : Accumulator M × List Nat) : (posts.foldl deliverOne t).1.size = t.1.size := by
  induction posts generalizing t with
  | nil => rfl
  | cons post posts ih => rw [List.foldl_cons, ih, deliverOne, size_deposit]

theorem peek_foldl_deliverOne [Payload M] (posts : List (Post M)) (t : Accumulator M × List Nat)
    (h : ∀ post ∈ posts, post.signal.target.toNat < t.1.size) (v : VertexId) :
    (posts.foldl deliverOne t).1.peek v =
      mergeAllInto Payload.merge (t.1.peek v) (arrivals v (posts.map Post.signal)) := by
  induction posts generalizing t with
  | nil => rfl
  | cons post posts ih =>
    have hrest : ∀ p ∈ posts, p.signal.target.toNat < (deliverOne t post).1.size := by
      rw [deliverOne, size_deposit]
      exact fun p hp => h p (List.mem_cons_of_mem _ hp)
    rw [List.foldl_cons, ih _ hrest, List.map_cons, arrivals_cons, deliverOne,
      peek_deposit (h post List.mem_cons_self)]
    by_cases hv : v = post.signal.target
    · rw [if_pos hv, if_pos hv.symm, mergeAllInto_cons]
    · rw [if_neg hv, if_neg fun he => hv he.symm]

@[simp] theorem size_deliver [Payload M] (a : Accumulator M) (posts : List (Post M)) :
    (a.deliver posts).1.size = a.size := size_foldl_deliverOne posts _

/-- What is pending after a delivery: what was there, with the arrivals merged into it. -/
theorem peek_deliver [Payload M] {a : Accumulator M} {posts : List (Post M)}
    (h : ∀ post ∈ posts, post.signal.target.toNat < a.size) (v : VertexId) :
    (a.deliver posts).1.peek v =
      mergeAllInto Payload.merge (a.peek v) (arrivals v (posts.map Post.signal)) :=
  peek_foldl_deliverOne posts _ h v

/-! ### Delivering and adding

A client whose payload does not fit is refused, and a delivery merges it all the same. Wherever
deliveries are spoken of, payloads are taken to fit; then the two are the same. -/

/-- Adds signals in order, up to the first that is refused. -/
def addAll [Payload M] (a : Accumulator M) (signals : List (Signal M)) :
    Except Fault (Accumulator M) :=
  signals.foldlM (fun a signal => (a.add signal.target signal.payload).map Prod.snd) a

theorem eq_deposit_of_add [Payload M] {a b : Accumulator M} {v : VertexId} {payload : M}
    (h : (a.add v payload).map Prod.snd = .ok b) : b = a.deposit v payload := by
  unfold add onSlot at h
  split at h
  · split at h
    · exact (Except.ok.inj h).symm
    · cases h
  · cases h

theorem fst_foldl_deliverOne_of_addAll [Payload M] {a b : Accumulator M} {posts : List (Post M)}
    (h : a.addAll (posts.map Post.signal) = .ok b) (activations : List Nat) :
    (posts.foldl deliverOne (a, activations)).1 = b := by
  induction posts generalizing a activations with
  | nil => exact Except.ok.inj h
  | cons post posts ih =>
    rw [addAll, List.map_cons, List.foldlM_cons] at h
    cases hadd : (a.add post.signal.target post.signal.payload).map Prod.snd with
    | error fault =>
      rw [hadd] at h
      cases h
    | ok after =>
      rw [hadd] at h
      obtain rfl := eq_deposit_of_add hadd
      exact ih h _

/-- **As long as everything fits, to deliver is to add.** -/
theorem deliver_eq_of_addAll [Payload M] {a b : Accumulator M} {posts : List (Post M)}
    (h : a.addAll (posts.map Post.signal) = .ok b) : (a.deliver posts).1 = b :=
  fst_foldl_deliverOne_of_addAll h []

/-- What has no limit always fits. -/
theorem addAll_eq_deliver [Payload M] (unlimited : ∀ pending payload : M,
      Payload.fits pending payload = true) {a : Accumulator M} {posts : List (Post M)}
    (inside : ∀ post ∈ posts, post.signal.target.toNat < a.size) :
    a.addAll (posts.map Post.signal) = .ok (a.deliver posts).1 := by
  suffices ∃ b, a.addAll (posts.map Post.signal) = .ok b by
    obtain ⟨b, h⟩ := this
    rw [h, deliver_eq_of_addAll h]
  induction posts generalizing a with
  | nil => exact ⟨a, rfl⟩
  | cons post posts ih =>
    have haccepts : a.accepts post.signal.target post.signal.payload = true := by
      simp [accepts, unlimited]
    have hcovers : a.covers post.signal.target = true :=
      decide_eq_true (inside post List.mem_cons_self)
    obtain ⟨b, h⟩ := ih (a := a.deposit post.signal.target post.signal.payload) fun p hp => by
      rw [size_deposit]
      exact inside p (List.mem_cons_of_mem _ hp)
    refine ⟨b, ?_⟩
    rw [addAll, List.map_cons, List.foldlM_cons, add, onSlot, if_pos hcovers, if_pos haccepts]
    exact h

end Accumulator

end Superstep
