/-!
# Maps keyed by vertices

Vertices are numbered by 32-bit words. A `VertexMap` holds at most one value per vertex, as the
list of its entries with ascending keys, so two maps with the same entries are the same value and
every walk over a map meets the vertices in ascending order.

The view through which the operations are understood is `get?`. `upsert` is the one way to change
an entry, and `mergeWith` the one way to join two maps; both take a function of the value that is
already there, if there is one.
-/

namespace Superstep

/-- The number of a vertex. -/
abbrev VertexId := UInt32

/-- Keys ascend strictly along a list of entries. -/
def Ascending {α : Type} (entries : List (VertexId × α)) : Prop :=
  entries.Pairwise fun a b => a.1 < b.1

/-- A finite map from vertices. -/
structure VertexMap (α : Type) where
  /-- The entries, in ascending order of their keys. -/
  entries : List (VertexId × α)
  ascending : Ascending entries
deriving DecidableEq

namespace VertexMap

variable {α β : Type}

/-! ### Operations on lists of entries

The recursion lives on plain lists. Each operation keeps the keys ascending because every key of
its result is a key that went in. -/

/-- The value stored for a key. -/
def lookup (id : VertexId) : List (VertexId × α) → Option α
  | [] => none
  | (key, value) :: rest => if key = id then some value else lookup id rest

/-- Replaces the value of one key by what `f` makes of it, in the place of that key. -/
def upsertList (id : VertexId) (f : Option α → α) : List (VertexId × α) → List (VertexId × α)
  | [] => [(id, f none)]
  | (key, value) :: rest =>
    if id < key then (id, f none) :: (key, value) :: rest
    else if id = key then (key, f (some value)) :: rest
    else (key, value) :: upsertList id f rest

/-- Puts an entry of the left map between the entries of the right one. `others` merges what is
left of the left map into what is left of the right one. -/
def mergeEntry (f : Option α → α → α) (entry : VertexId × α)
    (others : List (VertexId × α) → List (VertexId × α)) :
    List (VertexId × α) → List (VertexId × α)
  | [] => entry :: others []
  | (key, value) :: rest =>
    if key < entry.1 then (key, f none value) :: mergeEntry f entry others rest
    else if key = entry.1 then (key, f (some entry.2) value) :: others rest
    else entry :: others ((key, value) :: rest)

/-- Merges two ascending lists in one walk over both. -/
def mergeList (f : Option α → α → α) :
    List (VertexId × α) → List (VertexId × α) → List (VertexId × α)
  | [] => fun right => right.map fun entry => (entry.1, f none entry.2)
  | entry :: left => mergeEntry f entry (mergeList f left)

/-! ### Keys of the results -/

theorem mem_keys_upsertList {id : VertexId} {f : Option α → α} {l : List (VertexId × α)}
    {x : VertexId × α} (h : x ∈ upsertList id f l) : x.1 = id ∨ ∃ y ∈ l, y.1 = x.1 := by
  induction l with
  | nil => simp only [upsertList, List.mem_singleton] at h; exact .inl (by rw [h])
  | cons head rest ih =>
    simp only [upsertList] at h
    split at h
    · rcases List.mem_cons.1 h with rfl | h
      · exact .inl rfl
      · exact .inr ⟨x, h, rfl⟩
    · split at h
      · rcases List.mem_cons.1 h with rfl | h
        · exact .inr ⟨head, List.mem_cons_self, rfl⟩
        · exact .inr ⟨x, List.mem_cons_of_mem _ h, rfl⟩
      · rcases List.mem_cons.1 h with rfl | h
        · exact .inr ⟨_, List.mem_cons_self, rfl⟩
        · rcases ih h with h | ⟨y, hy, he⟩
          · exact .inl h
          · exact .inr ⟨y, List.mem_cons_of_mem _ hy, he⟩

theorem mem_keys_mergeEntry {f : Option α → α → α} {entry : VertexId × α}
    {others : List (VertexId × α) → List (VertexId × α)} {left right : List (VertexId × α)}
    (ho : ∀ l, ∀ x ∈ others l, (∃ y ∈ left, y.1 = x.1) ∨ ∃ y ∈ l, y.1 = x.1)
    {x : VertexId × α} (h : x ∈ mergeEntry f entry others right) :
    (∃ y ∈ entry :: left, y.1 = x.1) ∨ ∃ y ∈ right, y.1 = x.1 := by
  induction right with
  | nil =>
    rcases List.mem_cons.1 h with rfl | h
    · exact .inl ⟨_, List.mem_cons_self, rfl⟩
    · rcases ho _ _ h with ⟨y, hy, he⟩ | h
      · exact .inl ⟨y, List.mem_cons_of_mem _ hy, he⟩
      · exact .inr h
  | cons head rest ih =>
    simp only [mergeEntry] at h
    split at h
    · rcases List.mem_cons.1 h with rfl | h
      · exact .inr ⟨head, List.mem_cons_self, rfl⟩
      · rcases ih h with h | ⟨y, hy, he⟩
        · exact .inl h
        · exact .inr ⟨y, List.mem_cons_of_mem _ hy, he⟩
    · split at h
      · rcases List.mem_cons.1 h with rfl | h
        · exact .inr ⟨head, List.mem_cons_self, rfl⟩
        · rcases ho _ _ h with ⟨y, hy, he⟩ | ⟨y, hy, he⟩
          · exact .inl ⟨y, List.mem_cons_of_mem _ hy, he⟩
          · exact .inr ⟨y, List.mem_cons_of_mem _ hy, he⟩
      · rcases List.mem_cons.1 h with rfl | h
        · exact .inl ⟨_, List.mem_cons_self, rfl⟩
        · rcases ho _ _ h with ⟨y, hy, he⟩ | h
          · exact .inl ⟨y, List.mem_cons_of_mem _ hy, he⟩
          · exact .inr h

theorem mem_keys_mergeList {f : Option α → α → α} {left right : List (VertexId × α)}
    {x : VertexId × α} (h : x ∈ mergeList f left right) :
    (∃ y ∈ left, y.1 = x.1) ∨ ∃ y ∈ right, y.1 = x.1 := by
  induction left generalizing right x with
  | nil =>
    obtain ⟨y, hy, rfl⟩ := List.mem_map.1 h
    exact .inr ⟨y, hy, rfl⟩
  | cons entry left ih => exact mem_keys_mergeEntry (fun _ _ hx => ih hx) h

/-! ### The results ascend -/

theorem ascending_upsertList {id : VertexId} {f : Option α → α} {l : List (VertexId × α)}
    (h : Ascending l) : Ascending (upsertList id f l) := by
  induction l with
  | nil => exact List.pairwise_singleton _ _
  | cons head rest ih =>
    obtain ⟨hhead, hrest⟩ := List.pairwise_cons.1 h
    simp only [upsertList]
    split
    · rename_i hlt
      refine List.pairwise_cons.2 ⟨fun y hy => ?_, h⟩
      rcases List.mem_cons.1 hy with rfl | hy
      · exact hlt
      · exact UInt32.lt_trans hlt (hhead y hy)
    · split
      · exact List.pairwise_cons.2 ⟨hhead, hrest⟩
      · rename_i hnlt hne
        refine List.pairwise_cons.2 ⟨fun y hy => ?_, ih hrest⟩
        rcases mem_keys_upsertList hy with hy | ⟨z, hz, he⟩
        · rw [hy]
          exact UInt32.lt_of_le_of_ne (UInt32.not_lt.1 hnlt) fun he => hne he.symm
        · exact he ▸ hhead z hz

theorem ascending_mergeEntry {f : Option α → α → α} {entry : VertexId × α}
    {others : List (VertexId × α) → List (VertexId × α)} {left right : List (VertexId × α)}
    (hk : ∀ l, ∀ x ∈ others l, (∃ y ∈ left, y.1 = x.1) ∨ ∃ y ∈ l, y.1 = x.1)
    (ho : ∀ l, Ascending l → Ascending (others l))
    (hl : Ascending (entry :: left)) (hr : Ascending right) :
    Ascending (mergeEntry f entry others right) := by
  have hentry := (List.pairwise_cons.1 hl).1
  have above : ∀ l, (∀ y ∈ l, entry.1 < y.1) → ∀ x ∈ others l, entry.1 < x.1 := by
    intro l hl x hx
    rcases hk l x hx with ⟨y, hy, he⟩ | ⟨y, hy, he⟩
    · exact he ▸ hentry y hy
    · exact he ▸ hl y hy
  induction right with
  | nil => exact List.pairwise_cons.2 ⟨above [] (by simp), ho [] hr⟩
  | cons head rest ih =>
    obtain ⟨hhead, hrest⟩ := List.pairwise_cons.1 hr
    simp only [mergeEntry]
    split
    · rename_i hlt
      refine List.pairwise_cons.2 ⟨fun x hx => ?_, ih hrest⟩
      rcases mem_keys_mergeEntry hk hx with ⟨y, hy, he⟩ | ⟨y, hy, he⟩
      · rcases List.mem_cons.1 hy with rfl | hy
        · exact he ▸ hlt
        · exact he ▸ UInt32.lt_trans hlt (hentry y hy)
      · exact he ▸ hhead y hy
    · split
      · rename_i he
        refine List.pairwise_cons.2 ⟨fun x hx => ?_, ho rest hrest⟩
        show head.1 < x.1
        rw [he]
        exact above rest (fun y hy => he ▸ hhead y hy) x hx
      · rename_i hnlt hne
        have hlt : entry.1 < head.1 :=
          UInt32.lt_of_le_of_ne (UInt32.not_lt.1 hnlt) fun he => hne he.symm
        refine List.pairwise_cons.2 ⟨above _ fun y hy => ?_, ho _ hr⟩
        rcases List.mem_cons.1 hy with rfl | hy
        · exact hlt
        · exact UInt32.lt_trans hlt (hhead y hy)

theorem ascending_mergeList {f : Option α → α → α} {left right : List (VertexId × α)}
    (hl : Ascending left) (hr : Ascending right) : Ascending (mergeList f left right) := by
  induction left generalizing right with
  | nil => exact List.pairwise_map.2 hr
  | cons entry left ih =>
    exact ascending_mergeEntry (fun _ _ hx => mem_keys_mergeList hx)
      (fun _ h => ih (List.pairwise_cons.1 hl).2 h) hl hr

theorem ascending_filterMap {g : VertexId × α → Option β} {l : List (VertexId × α)}
    (h : Ascending l) :
    Ascending (l.filterMap fun entry => (g entry).map fun value => (entry.1, value)) := by
  refine List.pairwise_filterMap.2 (h.imp ?_)
  intro a b hab x hx y hy
  obtain ⟨_, _, rfl⟩ := Option.map_eq_some_iff.1 hx
  obtain ⟨_, _, rfl⟩ := Option.map_eq_some_iff.1 hy
  exact hab

/-! ### Maps -/

/-- The map without entries. -/
def empty : VertexMap α := ⟨[], List.Pairwise.nil⟩

instance : Inhabited (VertexMap α) := ⟨empty⟩

/-- The map with one entry. -/
def singleton (id : VertexId) (value : α) : VertexMap α :=
  ⟨[(id, value)], List.pairwise_singleton _ _⟩

def isEmpty (m : VertexMap α) : Bool := m.entries.isEmpty

def size (m : VertexMap α) : Nat := m.entries.length

def keys (m : VertexMap α) : List VertexId := m.entries.map Prod.fst

def values (m : VertexMap α) : List α := m.entries.map Prod.snd

def get? (m : VertexMap α) (id : VertexId) : Option α := lookup id m.entries

def contains (m : VertexMap α) (id : VertexId) : Bool := (m.get? id).isSome

/-- Sets the value of `id` to what `f` makes of the present one. -/
def upsert (m : VertexMap α) (id : VertexId) (f : Option α → α) : VertexMap α :=
  ⟨upsertList id f m.entries, ascending_upsertList m.ascending⟩

/-- Sets the value of `id`, whatever it was. -/
def insert (m : VertexMap α) (id : VertexId) (value : α) : VertexMap α := m.upsert id fun _ => value

/-- Removes the entry of `id`. -/
def erase (m : VertexMap α) (id : VertexId) : VertexMap α :=
  ⟨m.entries.filter fun entry => entry.1 != id, m.ascending.filter _⟩

/-- Joins two maps. A key of the right map gets what `f` makes of the left value, if there is one,
and the right value; the other entries of the left map stay as they are. -/
def mergeWith (f : Option α → α → α) (left right : VertexMap α) : VertexMap α :=
  ⟨mergeList f left.entries right.entries, ascending_mergeList left.ascending right.ascending⟩

/-- Keeps the entries that `g` gives a value, with that value. -/
def filterMap (g : VertexId × α → Option β) (m : VertexMap α) : VertexMap β :=
  ⟨m.entries.filterMap fun entry => (g entry).map fun value => (entry.1, value),
    ascending_filterMap m.ascending⟩

/-- The map that a list of pairs describes; a later pair overrides an earlier one. -/
def ofList (pairs : List (VertexId × α)) : VertexMap α :=
  pairs.foldl (fun m pair => m.insert pair.1 pair.2) empty

end VertexMap

/-! ### Sets of vertices -/

/-- A finite set of vertices. -/
abbrev VertexSet := VertexMap Unit

namespace VertexSet

/-- The set of the vertices in a list. -/
def ofList (ids : List VertexId) : VertexSet := VertexMap.ofList (ids.map fun id => (id, ()))

/-- The members, ascending. -/
def toList (s : VertexSet) : List VertexId := VertexMap.keys s

end VertexSet

end Superstep
