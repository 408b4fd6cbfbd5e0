import Mathlib.Data.List.Perm.Basic
import Superstep.Engine.Schedule

/-!
# Interleavings

A schedule is a list of picks, and `weave` turns it into one sequence of operations. The picks are
a way of writing an interleaving down, so two things have to hold of them: whatever they are, the
result interleaves the lanes, and every interleaving is the result of some picks. Then a statement
about all schedules is a statement about all orders in which the workers may come to their turns.

## Main results

* `weave_iff_interleaves`: the results of `weave` are the interleavings
* `weave_perm`: an interleaving neither loses nor repeats an operation
* `weave_singleton`: a worker that is alone keeps its own order
-/

namespace Superstep

variable {α : Type}

/-- A sequence that takes the elements of the lanes one by one, each lane from its front. -/
inductive Interleaves : List (List α) → List α → Prop
  /-- Nothing is left in any lane. -/
  | nil {lanes : List (List α)} (h : lanes.flatten = []) : Interleaves lanes []
  /-- One lane moves on. -/
  | cons {lanes : List (List α)} {i : Nat} {next : α} {rest sequence : List α}
      (h : lanes[i]? = some (next :: rest)) (tail : Interleaves (lanes.set i rest) sequence) :
      Interleaves lanes (next :: sequence)

/-! ### One lane moves on -/

theorem perm_flatten_set {lanes : List (List α)} {i : Nat} {next : α} {rest : List α}
    (h : lanes[i]? = some (next :: rest)) :
    (next :: (lanes.set i rest).flatten).Perm lanes.flatten := by
  induction lanes generalizing i with
  | nil => simp at h
  | cons lane lanes ih =>
    cases i with
    | zero =>
      obtain rfl : lane = next :: rest := by simpa using h
      exact List.Perm.refl _
    | succ i =>
      rw [List.set_cons_succ, List.flatten_cons, List.flatten_cons]
      exact List.perm_middle.symm.trans ((ih h).append_left lane)

/-- Lane after lane is an interleaving. -/
theorem interleaves_flatten (lanes : List (List α)) : Interleaves lanes lanes.flatten := by
  induction hn : lanes.flatten.length generalizing lanes with
  | zero =>
    have h : lanes.flatten = [] := List.length_eq_zero_iff.1 hn
    exact h ▸ .nil h
  | succ n ih =>
    obtain ⟨i, next, rest, hi, he⟩ : ∃ i next rest, lanes[i]? = some (next :: rest) ∧
        lanes.flatten = next :: (lanes.set i rest).flatten := by
      clear ih
      induction lanes with
      | nil => simp at hn
      | cons lane lanes ih =>
        cases lane with
        | nil =>
          obtain ⟨i, next, rest, hi, he⟩ := ih (by simpa using hn)
          exact ⟨i + 1, next, rest, by simpa using hi, by simpa using he⟩
        | cons next rest => exact ⟨0, next, rest, rfl, rfl⟩
    rw [he]
    refine .cons hi (ih _ ?_)
    simpa [he] using hn

/-! ### Picks -/

theorem weave_cons_of_getElem? {picks : List Nat} {lanes : List (List α)} {i : Nat} {next : α}
    {rest : List α} (h : lanes[i]? = some (next :: rest)) :
    weave (i :: picks) lanes = next :: weave picks (lanes.set i rest) := by
  rw [weave, h]

/-- A pick of a lane that has nothing left changes nothing. -/
theorem weave_cons_of_idle {picks : List Nat} {lanes : List (List α)} {i : Nat}
    (h : ∀ next rest, lanes[i]? ≠ some (next :: rest)) :
    weave (i :: picks) lanes = weave picks lanes := by
  rw [weave]
  split
  · rename_i hi
    exact absurd hi (h _ _)
  · rfl

theorem interleaves_weave (picks : List Nat) (lanes : List (List α)) :
    Interleaves lanes (weave picks lanes) := by
  induction picks generalizing lanes with
  | nil => exact interleaves_flatten lanes
  | cons i picks ih =>
    by_cases h : ∃ next rest, lanes[i]? = some (next :: rest)
    · obtain ⟨next, rest, h⟩ := h
      rw [weave_cons_of_getElem? h]
      exact .cons h (ih _)
    · rw [weave_cons_of_idle fun next rest hi => h ⟨next, rest, hi⟩]
      exact ih lanes

/-- **Schedules are interleavings.** Picks give every order in which the lanes can be merged, and
no other. -/
theorem weave_iff_interleaves {lanes : List (List α)} {sequence : List α} :
    (∃ picks, weave picks lanes = sequence) ↔ Interleaves lanes sequence := by
  constructor
  · rintro ⟨picks, rfl⟩
    exact interleaves_weave picks lanes
  · intro h
    induction h with
    | nil h => exact ⟨[], h⟩
    | @cons lanes i next rest sequence h _ ih =>
      obtain ⟨picks, rfl⟩ := ih
      exact ⟨i :: picks, weave_cons_of_getElem? h⟩

theorem Interleaves.perm {lanes : List (List α)} {sequence : List α}
    (h : Interleaves lanes sequence) : sequence.Perm lanes.flatten := by
  induction h with
  | nil h => exact h ▸ List.Perm.refl _
  | cons h _ ih => exact (ih.cons _).trans (perm_flatten_set h)

/-- An interleaving neither loses nor repeats an operation. -/
theorem weave_perm (picks : List Nat) (lanes : List (List α)) :
    (weave picks lanes).Perm lanes.flatten :=
  (interleaves_weave picks lanes).perm

/-- There is only one way to interleave a single lane. -/
theorem Interleaves.eq_of_singleton {lane sequence : List α}
    (h : Interleaves [lane] sequence) : sequence = lane := by
  induction lane generalizing sequence with
  | nil => exact List.perm_nil.1 h.perm
  | cons a lane ih =>
    cases h with
    | nil h => simp at h
    | @cons _ i next rest sequence hi tail =>
      cases i with
      | zero =>
        obtain ⟨rfl, rfl⟩ : a = next ∧ lane = rest := by simpa using hi
        rw [ih tail]
      | succ i => simp at hi

theorem weave_singleton (picks : List Nat) (lane : List α) : weave picks [lane] = lane :=
  (interleaves_weave picks [lane]).eq_of_singleton

end Superstep
