import Mathlib.Data.List.Chain
import Mathlib.Tactic.Ring
import Superstep.Graph.Tiling

/-!
# Ranges and chunks

`ranges` and `chunks` are computed apart from each other, one from a number of vertices and one
from a list. Both cut at the multiples of `chunkSize`, and that is all there is to say about how
they fit: the positions of the ranges are the chunks of `0, …, n - 1`.

## Main results

* `getElem?_chunks`: a piece of a list by its number, which needs no induction from then on
* `flatten_chunks`, `length_chunks`: nothing is lost, and how many pieces there are
* `positions_ranges`: the ranges are the chunks of the vertices
* `tiles_ranges`: the ranges are in order, without gap or overlap, and all but the last are of
  one length
* `chunks_eq_extract`: the pieces of a list are what stands between the bounds of the ranges
-/

namespace Superstep.Tiling

variable {α : Type}

theorem chunkSize_pos (n workers : Nat) : 0 < chunkSize n workers :=
  Nat.lt_of_lt_of_le Nat.zero_lt_one (Nat.le_max_right ..)

/-! ### Chunks -/

theorem chunksUpTo_cons (length fuel : Nat) (a : α) (rest : List α) :
    chunksUpTo length (fuel + 1) (a :: rest) =
      (a :: rest).take length :: chunksUpTo length fuel ((a :: rest).drop length) := rfl

theorem getElem?_chunksUpTo {length : Nat} (hl : 0 < length) :
    ∀ {fuel : Nat} {items : List α}, items.length ≤ fuel → ∀ i,
      (chunksUpTo length fuel items)[i]? =
        if i * length < items.length then some ((items.drop (i * length)).take length)
        else none := by
  intro fuel
  induction fuel with
  | zero =>
    intro items h i
    have : items = [] := List.length_eq_zero_iff.1 (Nat.le_zero.1 h)
    simp [chunksUpTo, this]
  | succ fuel ih =>
    intro items h i
    cases items with
    | nil => simp [chunksUpTo]
    | cons a rest =>
      rw [chunksUpTo_cons]
      cases i with
      | zero => simp
      | succ i =>
        have hshort : ((a :: rest).drop length).length ≤ fuel := by
          rw [List.length_drop]
          omega
        have hcut : (i + 1) * length = length + i * length := by ring
        rw [List.getElem?_cons_succ, ih hshort, List.drop_drop, List.length_drop, hcut]
        have hbound : i * length < (a :: rest).length - length ↔
            length + i * length < (a :: rest).length := by omega
        simp only [hbound]

/-- A piece is found by its number: it starts at a multiple of `length`. -/
theorem getElem?_chunks {length : Nat} (hl : 0 < length) (items : List α) (i : Nat) :
    (chunks length items)[i]? =
      if i * length < items.length then some ((items.drop (i * length)).take length) else none :=
  getElem?_chunksUpTo hl (Nat.le_refl _) i

theorem flatten_chunksUpTo {length : Nat} (hl : 0 < length) :
    ∀ {fuel : Nat} {items : List α}, items.length ≤ fuel →
      (chunksUpTo length fuel items).flatten = items := by
  intro fuel
  induction fuel with
  | zero =>
    intro items h
    have : items = [] := List.length_eq_zero_iff.1 (Nat.le_zero.1 h)
    simp [chunksUpTo, this]
  | succ fuel ih =>
    intro items h
    cases items with
    | nil => simp [chunksUpTo]
    | cons a rest =>
      have hshort : ((a :: rest).drop length).length ≤ fuel := by
        rw [List.length_drop]
        omega
      rw [chunksUpTo_cons, List.flatten_cons, ih hshort, List.take_append_drop]

/-- Cutting loses nothing. -/
theorem flatten_chunks {length : Nat} (hl : 0 < length) (items : List α) :
    (chunks length items).flatten = items :=
  flatten_chunksUpTo hl (Nat.le_refl _)

theorem mul_lt_iff_lt_div {length : Nat} (hl : 0 < length) (n i : Nat) :
    i * length < n ↔ i < (n + length - 1) / length := by
  rw [Nat.lt_iff_add_one_le, Nat.lt_iff_add_one_le, Nat.le_div_iff_mul_le hl, Nat.add_mul,
    Nat.one_mul]
  omega

/-- There are as many pieces as ranges. -/
theorem length_chunks {length : Nat} (hl : 0 < length) (items : List α) :
    (chunks length items).length = (items.length + length - 1) / length := by
  have h : ∀ i, (chunks length items).length ≤ i ↔ (items.length + length - 1) / length ≤ i := by
    intro i
    rw [← List.getElem?_eq_none_iff, getElem?_chunks hl, ← Nat.not_lt, ← mul_lt_iff_lt_div hl]
    split <;> simp_all
  exact Nat.le_antisymm ((h _).2 (Nat.le_refl _)) ((h _).1 (Nat.le_refl _))

/-- Pieces of a list whose elements were changed one by one. -/
theorem chunks_map {β : Type} {length : Nat} (hl : 0 < length) (f : α → β) (items : List α) :
    chunks length (items.map f) = (chunks length items).map (List.map f) := by
  refine List.ext_getElem? fun i => ?_
  rw [List.getElem?_map, getElem?_chunks hl, getElem?_chunks hl, List.length_map]
  split
  · rw [Option.map_some, List.map_take, List.map_drop]
  · rfl

/-! ### Ranges -/

theorem length_ranges (n workers : Nat) :
    (ranges n workers).length = (n + chunkSize n workers - 1) / chunkSize n workers := by
  simp [ranges]

/-- Workers with ranges of full length are enough. -/
theorem le_mul_chunkSize (n workers : Nat) : n ≤ max workers 1 * chunkSize n workers := by
  refine Nat.le_trans ?_ (Nat.mul_le_mul_left _ (Nat.le_max_left ..))
  have hpos : 0 < max workers 1 := Nat.lt_of_lt_of_le Nat.zero_lt_one (Nat.le_max_right ..)
  refine Nat.le_of_not_lt fun hlt => Nat.lt_irrefl _ ((mul_lt_iff_lt_div hpos n _).1 ?_)
  rwa [Nat.mul_comm]

theorem length_ranges_le (n workers : Nat) : (ranges n workers).length ≤ max workers 1 := by
  rw [length_ranges]
  exact Nat.le_of_not_lt fun hlt => Nat.not_lt.2 (le_mul_chunkSize n workers)
    ((mul_lt_iff_lt_div (chunkSize_pos n workers) n _).2 hlt)

/-- There may be fewer: of four workers for five vertices, one has nothing to do. -/
example : ranges 5 4 = [(0, 2), (2, 4), (4, 5)] := by decide

/-- One worker has all vertices. -/
theorem length_ranges_le_one {n workers : Nat} (h : workers ≤ 1) :
    (ranges n workers).length ≤ 1 :=
  Nat.max_eq_right h ▸ length_ranges_le n workers

/-- A range is found by its number: it starts at a multiple of `chunkSize`. -/
theorem getElem?_ranges (n workers i : Nat) :
    (ranges n workers)[i]? =
      if i * chunkSize n workers < n then
        some (i * chunkSize n workers, min (i * chunkSize n workers + chunkSize n workers) n)
      else none := by
  simp only [mul_lt_iff_lt_div (chunkSize_pos n workers), ranges, List.getElem?_map]
  split
  · rename_i h
    rw [List.getElem?_range h, Option.map_some]
  · rename_i h
    rw [List.getElem?_eq_none (by rw [List.length_range]; exact Nat.le_of_not_lt h),
      Option.map_none]

theorem exists_of_mem_ranges {n workers : Nat} {range : Nat × Nat} (h : range ∈ ranges n workers) :
    ∃ i, i * chunkSize n workers < n ∧
      range = (i * chunkSize n workers, min (i * chunkSize n workers + chunkSize n workers) n) := by
  obtain ⟨i, hi⟩ := List.mem_iff_getElem?.1 h
  rw [getElem?_ranges] at hi
  split at hi
  · rename_i hlt
    exact ⟨i, hlt, (Option.some.inj hi).symm⟩
  · cases hi

/-- As many ranges share the vertices as there are pieces of a list with one element each. -/
theorem length_chunks_eq_length_ranges {n workers : Nat} {items : List α} (h : items.length = n) :
    (chunks (chunkSize n workers) items).length = (ranges n workers).length := by
  rw [length_chunks (chunkSize_pos ..), length_ranges, h]

/-- The vertices between the bounds of a range. -/
def positions (range : Nat × Nat) : List Nat := List.range' range.1 (range.2 - range.1)

theorem take_drop_range (n start length : Nat) :
    ((List.range n).drop start).take length = positions (start, min (start + length) n) := by
  rw [List.take_drop, List.take_range, List.range_eq_range', List.drop_range', Nat.mul_one,
    Nat.zero_add]
  rfl

/-- **The ranges are the chunks of the vertices.** -/
theorem positions_ranges (n workers : Nat) :
    (ranges n workers).map positions = chunks (chunkSize n workers) (List.range n) := by
  have hl := chunkSize_pos n workers
  refine List.ext_getElem? fun i => ?_
  rw [getElem?_chunks hl, List.length_range, List.getElem?_map, getElem?_ranges]
  split
  · rw [take_drop_range, Option.map_some]
  · rfl

theorem flatMap_positions_ranges (n workers : Nat) :
    (ranges n workers).flatMap positions = List.range n := by
  rw [List.flatMap_def, positions_ranges, flatten_chunks (chunkSize_pos ..)]

/-- The pieces of a list with one element per vertex: as many as there are ranges, each with what
stands in its range. -/
theorem chunks_eq_extract {n workers : Nat} {items : List α} (h : items.length = n) :
    chunks (chunkSize n workers) items =
      (ranges n workers).map fun range => items.extract range.1 range.2 := by
  refine List.ext_getElem? fun i => ?_
  rw [getElem?_chunks (chunkSize_pos ..), List.getElem?_map, getElem?_ranges, h]
  split
  · -- The last range is cut short where the list ends, and so is the piece.
    rw [Option.map_some, Option.some_inj, List.extract_eq_take_drop, List.take_eq_take_iff,
      List.length_drop, h]
    omega
  · rfl

/-! ### Ranges without gap or overlap -/

/-- Ranges that share the vertices `0, …, n - 1` among so many workers. No workers count as
one. -/
structure Tiles (n workers : Nat) (ranges : List (Nat × Nat)) : Prop where
  length_le : ranges.length ≤ max workers 1
  eq_nil_iff : ranges = [] ↔ n = 0
  nonempty : ∀ range ∈ ranges, range.1 < range.2
  first : ∀ range ∈ ranges.head?, range.1 = 0
  consecutive : ranges.IsChain fun range next => range.2 = next.1
  last : ∀ range ∈ ranges.getLast?, range.2 = n
  /-- All ranges have one length, except for the last, which may be shorter. -/
  even : ∃ length, (∀ range ∈ ranges.dropLast, range.2 - range.1 = length) ∧
    ∀ range ∈ ranges, range.2 - range.1 ≤ length

theorem ranges_eq_nil_iff {n workers : Nat} : ranges n workers = [] ↔ n = 0 := by
  have hzero := getElem?_ranges n workers 0
  rw [Nat.zero_mul] at hzero
  constructor
  · intro h
    rw [h, List.getElem?_nil] at hzero
    split at hzero
    · cases hzero
    · omega
  · rintro rfl
    rw [if_neg (Nat.lt_irrefl 0)] at hzero
    exact List.eq_nil_iff_length_eq_zero.2 (Nat.le_zero.1 (List.getElem?_eq_none_iff.1 hzero))

/-- A range that is followed by another ends where that one starts. -/
theorem getElem?_ranges_of_succ {n workers i : Nat} {next : Nat × Nat}
    (h : (ranges n workers)[i + 1]? = some next) :
    (ranges n workers)[i]? = some (i * chunkSize n workers, next.1) ∧
      next.1 = i * chunkSize n workers + chunkSize n workers := by
  rw [getElem?_ranges, Nat.succ_mul] at h
  split at h
  · rename_i hlt
    obtain rfl := Option.some.inj h
    rw [getElem?_ranges, if_pos (Nat.lt_of_le_of_lt (Nat.le_add_right ..) hlt),
      Nat.min_eq_left (Nat.le_of_lt hlt)]
    exact ⟨rfl, rfl⟩
  · cases h

/-- **The ranges share the vertices without gap or overlap.** -/
theorem tiles_ranges (n workers : Nat) : Tiles n workers (ranges n workers) where
  length_le := length_ranges_le n workers
  eq_nil_iff := ranges_eq_nil_iff
  nonempty := by
    rintro range h
    obtain ⟨i, hlt, rfl⟩ := exists_of_mem_ranges h
    have := chunkSize_pos n workers
    show _ < min _ _
    omega
  first := by
    intro range h
    rw [List.head?_eq_getElem?, Option.mem_def, getElem?_ranges, Nat.zero_mul] at h
    split at h
    · obtain rfl := Option.some.inj h
      rfl
    · cases h
  consecutive := by
    refine List.isChain_iff_getElem.2 fun i hi => ?_
    obtain ⟨hrange, -⟩ := getElem?_ranges_of_succ (List.getElem?_eq_getElem hi)
    rw [List.getElem?_eq_getElem (Nat.lt_of_succ_lt hi)] at hrange
    rw [Option.some.inj hrange]
  last := by
    intro range h
    rw [List.getLast?_eq_getElem?, Option.mem_def] at h
    -- Behind the last range there is none, so this one is cut where the vertices end.
    have hnext : (ranges n workers)[(ranges n workers).length - 1 + 1]? = none :=
      List.getElem?_eq_none (by omega)
    rw [getElem?_ranges] at h hnext
    rw [Nat.succ_mul] at hnext
    split at h
    · obtain rfl := Option.some.inj h
      split at hnext
      · cases hnext
      · show min _ n = n
        omega
    · cases h
  even := by
    refine ⟨chunkSize n workers, fun range h => ?_, fun range h => ?_⟩
    · obtain ⟨i, hi⟩ := List.mem_iff_getElem?.1 h
      obtain ⟨hlt, hrange⟩ := List.getElem?_eq_some_iff.1 hi
      rw [List.length_dropLast] at hlt
      obtain ⟨hi', hnext⟩ := getElem?_ranges_of_succ (i := i)
        (List.getElem?_eq_getElem (by omega : i + 1 < (ranges n workers).length))
      rw [List.getElem_dropLast, ← Option.some_inj, ← List.getElem?_eq_getElem, hi'] at hrange
      obtain rfl := Option.some.inj hrange
      show _ - _ = _
      rw [hnext, Nat.add_sub_cancel_left]
    · obtain ⟨i, -, rfl⟩ := exists_of_mem_ranges h
      show min _ n - _ ≤ _
      omega

/-- Every vertex is in one range. -/
theorem existsUnique_range {n workers position : Nat} (h : position < n) :
    ∃! i : Nat, ∃ range : Nat × Nat, (ranges n workers)[i]? = some range ∧
      range.1 ≤ position ∧ position < range.2 := by
  have hl := chunkSize_pos n workers
  refine ⟨position / chunkSize n workers, ?_, fun i hi => ?_⟩
  · have hle := Nat.div_mul_le_self position (chunkSize n workers)
    have hlt := Nat.lt_div_mul_add hl (a := position)
    refine ⟨_, (getElem?_ranges ..).trans (if_pos (Nat.lt_of_le_of_lt hle h)), hle, ?_⟩
    exact Nat.lt_min.2 ⟨hlt, h⟩
  · obtain ⟨range, hrange, hle, hlt⟩ := hi
    rw [getElem?_ranges] at hrange
    split at hrange
    · obtain rfl := Option.some.inj hrange
      have hlt : position < i * chunkSize n workers + chunkSize n workers :=
        Nat.lt_of_lt_of_le hlt (Nat.min_le_left ..)
      refine ((Nat.div_eq_iff hl).2 ⟨hle, ?_⟩).symm
      omega
    · cases hrange

/-- If vertices and workers can be counted together, so can everything on the way to the ranges. -/
theorem add_chunkSize_lt {n workers : Nat} {range : Nat × Nat} (h : range ∈ ranges n workers) :
    range.1 + chunkSize n workers < n + max workers 1 := by
  obtain ⟨i, hi, rfl⟩ := exists_of_mem_ranges h
  have hworkers : i + 1 ≤ max workers 1 :=
    Nat.le_trans (length_ranges n workers ▸ (mul_lt_iff_lt_div (chunkSize_pos n workers) n i).1 hi)
      (length_ranges_le n workers)
  rcases Nat.le_total ((n + max workers 1 - 1) / max workers 1) 1 with hle | hle
  · have hone : chunkSize n workers = 1 := Nat.max_eq_right hle
    rw [hone, Nat.mul_one] at hi ⊢
    show i + 1 < _
    omega
  · have hfull : chunkSize n workers = (n + max workers 1 - 1) / max workers 1 :=
      Nat.max_eq_left hle
    have hsum : i * chunkSize n workers + chunkSize n workers ≤ n + max workers 1 - 1 := by
      calc i * chunkSize n workers + chunkSize n workers
          = (i + 1) * chunkSize n workers := (Nat.succ_mul ..).symm
        _ ≤ max workers 1 * chunkSize n workers := Nat.mul_le_mul_right _ hworkers
        _ ≤ n + max workers 1 - 1 := hfull ▸ Nat.mul_div_le ..
    show i * chunkSize n workers + chunkSize n workers < _
    omega

theorem tile_of_lt {n workers : Nat} (h : n + max workers 1 < countLimit) :
    tile n workers = .ok (ranges n workers) :=
  if_pos (decide_eq_true h)

end Superstep.Tiling
