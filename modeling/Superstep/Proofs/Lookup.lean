import Mathlib.Data.List.Nodup
import Mathlib.Data.List.Perm.Subperm
import Superstep.Sparse

/-!
# Maps and vectors through look-up

`get?` is the view through which maps are understood: an entry is a pair in the list, two maps with
the same view are the same, and each operation says at one key what it does, in terms of what its
arguments have there. Nothing behind this module opens the lists again.

The proofs on lists use one fact about ascending keys. A key that stands before all others is not
among them, so look-up behind the place where the walk stops finds nothing.

## Main results

* `VertexMap.get?_eq_some_iff`, `VertexMap.ext_get?`: the view determines the map
* `VertexMap.get?_upsert`, `VertexMap.get?_erase`, `VertexMap.get?_filterMap`,
  `VertexMap.get?_mergeWith`
-/

namespace Superstep

/-- Two lists with the same members are the same if both are in strict order. -/
theorem eq_of_pairwise_asymm {α : Type} {before : α → α → Prop}
    (asymm : ∀ a b, before a b → ¬ before b a) {l l' : List α} (h : l.Pairwise before)
    (h' : l'.Pairwise before) (hm : ∀ a, a ∈ l ↔ a ∈ l') : l = l' := by
  have hnodup : ∀ {l : List α}, l.Pairwise before → l.Nodup := by
    intro l h
    refine h.imp ?_
    rintro a b hab rfl
    exact asymm a a hab hab
  have hperm := (List.perm_ext_iff_of_nodup (hnodup h) (hnodup h')).2 hm
  exact hperm.eq_of_pairwise (fun a b _ _ hab hba => absurd hba (asymm a b hab)) h h'

/-- Different numbers below a bound are not more than there are. -/
theorem length_le_of_nodup {l : List Nat} (h : l.Nodup) {bound : Nat} (hb : ∀ n ∈ l, n < bound) :
    l.length ≤ bound := by
  have hsubset : l ⊆ List.range bound := fun n hn => List.mem_range.2 (hb n hn)
  have hle := (List.subperm_of_subset h hsubset).length_le
  rwa [List.length_range] at hle

namespace VertexMap

variable {α β : Type}

/-! ### Lists of entries -/

theorem lookup_cons (id : VertexId) (entry : VertexId × α) (rest : List (VertexId × α)) :
    lookup id (entry :: rest) = if entry.1 = id then some entry.2 else lookup id rest := rfl

theorem lookup_eq_none_iff {id : VertexId} {l : List (VertexId × α)} :
    lookup id l = none ↔ ∀ entry ∈ l, entry.1 ≠ id := by
  induction l with
  | nil => simp [lookup]
  | cons entry rest ih =>
    rw [lookup_cons]
    by_cases h : entry.1 = id <;> simp [h, ih]

theorem lookup_eq_some_iff {id : VertexId} {value : α} {l : List (VertexId × α)}
    (ascending : Ascending l) : lookup id l = some value ↔ (id, value) ∈ l := by
  induction l with
  | nil => simp [lookup]
  | cons entry rest ih =>
    obtain ⟨hentry, hrest⟩ := List.pairwise_cons.1 ascending
    obtain ⟨key, other⟩ := entry
    rw [lookup_cons, List.mem_cons, ← ih hrest]
    by_cases h : key = id
    · subst h
      have hnone : lookup key rest = none :=
        lookup_eq_none_iff.2 fun x hx he => UInt32.lt_irrefl key (by simpa [he] using hentry x hx)
      simp [hnone, eq_comm]
    · simp [h, Ne.symm h]

/-- A key that stands before all others is not among them. -/
theorem lookup_eq_none_of_lt {id : VertexId} {l : List (VertexId × α)}
    (h : ∀ entry ∈ l, id < entry.1) : lookup id l = none :=
  lookup_eq_none_iff.2 fun entry hm he => UInt32.lt_irrefl id (he ▸ h entry hm)

theorem lookup_eq_none_of_lt_head {id : VertexId} {entry : VertexId × α}
    {rest : List (VertexId × α)} (ascending : Ascending (entry :: rest)) (h : id < entry.1) :
    lookup id (entry :: rest) = none := by
  refine lookup_eq_none_of_lt fun x hx => ?_
  rcases List.mem_cons.1 hx with rfl | hx
  · exact h
  · exact UInt32.lt_trans h ((List.pairwise_cons.1 ascending).1 x hx)

theorem lookup_upsertList {key : VertexId} {f : Option α → α} {l : List (VertexId × α)}
    (ascending : Ascending l) (id : VertexId) :
    lookup id (upsertList key f l) = if id = key then some (f (lookup key l)) else lookup id l := by
  induction l with
  | nil =>
    rw [upsertList, lookup_cons]
    by_cases h : id = key
    · simp [h, lookup]
    · simp [h, Ne.symm h, lookup]
  | cons entry rest ih =>
    have hrest := (List.pairwise_cons.1 ascending).2
    obtain ⟨other, value⟩ := entry
    simp only [upsertList]
    split
    · rename_i hlt
      -- the key stands before the whole list
      have hnone := lookup_eq_none_of_lt_head ascending hlt
      rw [lookup_cons, hnone]
      by_cases h : id = key
      · simp [h]
      · simp [h, Ne.symm h]
    · split
      · rename_i heq
        subst heq
        rw [lookup_cons, lookup_cons, lookup_cons, if_pos rfl]
        by_cases h : id = key
        · simp [h]
        · simp [h, Ne.symm h]
      · rename_i hne
        rw [lookup_cons, lookup_cons, lookup_cons, ih hrest, if_neg (Ne.symm hne)]
        by_cases h : other = id
        · subst h
          simp [Ne.symm hne]
        · simp [h]

theorem lookup_map_none (f : Option α → α → α) (id : VertexId) (l : List (VertexId × α)) :
    lookup id (l.map fun entry => (entry.1, f none entry.2)) =
      (lookup id l).map (f none) := by
  induction l with
  | nil => rfl
  | cons entry rest ih =>
    rw [List.map_cons, lookup_cons, lookup_cons, ih]
    split <;> rfl

/-- What a merge of two ascending lists has at a key. -/
theorem lookup_mergeEntry {f : Option α → α → α} {entry : VertexId × α}
    {others : List (VertexId × α) → List (VertexId × α)} {left right : List (VertexId × α)}
    (ho : ∀ l, Ascending l → ∀ id, lookup id (others l) =
      ((lookup id l).map (f (lookup id left))).or (lookup id left))
    (hl : Ascending (entry :: left)) (hr : Ascending right) (id : VertexId) :
    lookup id (mergeEntry f entry others right) =
      ((lookup id right).map (f (lookup id (entry :: left)))).or (lookup id (entry :: left)) := by
  have hleft : lookup entry.1 left = none := lookup_eq_none_of_lt (List.pairwise_cons.1 hl).1
  induction right with
  | nil =>
    rw [mergeEntry, lookup_cons, lookup_cons, ho [] hr, lookup, Option.map_none, Option.none_or,
      Option.map_none, Option.none_or]
  | cons head rest ih =>
    have hrest := (List.pairwise_cons.1 hr).2
    obtain ⟨key, value⟩ := head
    simp only [mergeEntry]
    split
    · rename_i hlt
      have hkey := lookup_eq_none_of_lt_head hl hlt
      rw [lookup_cons, lookup_cons _ (key, value), ih hrest]
      by_cases h : key = id
      · subst h
        simp [hkey]
      · simp [h]
    · split
      · rename_i heq
        subst heq
        rw [lookup_cons, lookup_cons _ (entry.1, value), lookup_cons, ho rest hrest]
        by_cases h : entry.1 = id <;> simp [h]
      · rename_i hnlt hne
        have hlt : entry.1 < key :=
          UInt32.lt_of_le_of_ne (UInt32.not_lt.1 hnlt) fun he => hne he.symm
        have hkey := lookup_eq_none_of_lt_head hr hlt
        rw [lookup_cons, lookup_cons, ho _ hr]
        by_cases h : entry.1 = id
        · subst h
          simp [hkey]
        · simp [h]

theorem lookup_mergeList {f : Option α → α → α} {left right : List (VertexId × α)}
    (hl : Ascending left) (hr : Ascending right) (id : VertexId) :
    lookup id (mergeList f left right) =
      ((lookup id right).map (f (lookup id left))).or (lookup id left) := by
  induction left generalizing right id with
  | nil =>
    rw [mergeList, lookup_map_none, lookup, Option.or_none]
  | cons entry left ih =>
    exact lookup_mergeEntry (fun l hl' id => ih (List.pairwise_cons.1 hl).2 hl' id) hl hr id

/-! ### Maps -/

theorem get?_eq_some_iff {m : VertexMap α} {id : VertexId} {value : α} :
    m.get? id = some value ↔ (id, value) ∈ m.entries := lookup_eq_some_iff m.ascending

theorem mem_keys_iff {m : VertexMap α} {id : VertexId} : id ∈ m.keys ↔ m.contains id = true := by
  rw [contains, Option.isSome_iff_exists, keys, List.mem_map]
  constructor
  · rintro ⟨⟨key, value⟩, h, rfl⟩
    exact ⟨value, get?_eq_some_iff.2 h⟩
  · rintro ⟨value, h⟩
    exact ⟨(id, value), get?_eq_some_iff.1 h, rfl⟩

/-- Entries of one key are one entry. -/
theorem nodup_keys (m : VertexMap α) : m.keys.Nodup :=
  List.pairwise_map.2 (List.Pairwise.imp UInt32.ne_of_lt m.ascending)

/-- A map has no more entries than there are vertices. -/
theorem length_entries_le (m : VertexMap α) : m.entries.length ≤ UInt32.size := by
  have hnodup : (m.keys.map UInt32.toNat).Nodup := by
    refine List.pairwise_map.2 ((nodup_keys m).imp ?_)
    intro a b hne he
    exact hne (UInt32.toNat_inj.1 he)
  have hle : (m.keys.map UInt32.toNat).length ≤ UInt32.size := by
    refine length_le_of_nodup hnodup fun n hn => ?_
    obtain ⟨id, -, rfl⟩ := List.mem_map.1 hn
    exact id.toNat_lt_size
  rwa [List.length_map, keys, List.length_map] at hle

/-- Two maps with the same view are the same. -/
theorem ext_get? {m m' : VertexMap α} (h : ∀ id, m.get? id = m'.get? id) : m = m' := by
  have hmem : ∀ entry, entry ∈ m.entries ↔ entry ∈ m'.entries := fun entry => by
    rw [← get?_eq_some_iff, ← get?_eq_some_iff, h]
  obtain ⟨l, ascending⟩ := m
  obtain ⟨l', ascending'⟩ := m'
  congr 1
  exact eq_of_pairwise_asymm (fun _ _ => UInt32.lt_asymm) ascending ascending' hmem

@[simp] theorem get?_empty (id : VertexId) : (empty : VertexMap α).get? id = none := rfl

theorem get?_singleton (key : VertexId) (value : α) (id : VertexId) :
    (singleton key value).get? id = if key = id then some value else none := rfl

theorem get?_upsert (m : VertexMap α) (key : VertexId) (f : Option α → α) (id : VertexId) :
    (m.upsert key f).get? id = if id = key then some (f (m.get? key)) else m.get? id :=
  lookup_upsertList m.ascending id

theorem get?_insert (m : VertexMap α) (key : VertexId) (value : α) (id : VertexId) :
    (m.insert key value).get? id = if id = key then some value else m.get? id :=
  get?_upsert m key _ id

theorem get?_mergeWith (f : Option α → α → α) (m m' : VertexMap α) (id : VertexId) :
    (mergeWith f m m').get? id = ((m'.get? id).map (f (m.get? id))).or (m.get? id) :=
  lookup_mergeList m.ascending m'.ascending id

theorem get?_erase (m : VertexMap α) (key id : VertexId) :
    (m.erase key).get? id = if id = key then none else m.get? id := by
  refine Option.ext fun value => ?_
  rw [get?_eq_some_iff, erase, List.mem_filter, ← get?_eq_some_iff]
  by_cases h : id = key <;> simp [h]

theorem get?_filterMap (g : VertexId × α → Option β) (m : VertexMap α) (id : VertexId) :
    (filterMap g m).get? id = (m.get? id).bind fun value => g (id, value) := by
  refine Option.ext fun result => ?_
  rw [get?_eq_some_iff, filterMap, List.mem_filterMap]
  constructor
  · rintro ⟨⟨key, value⟩, hm, he⟩
    obtain ⟨result', hg, he⟩ := Option.map_eq_some_iff.1 he
    obtain ⟨rfl, rfl⟩ := Prod.mk.inj he
    exact Option.bind_eq_some_iff.2 ⟨value, get?_eq_some_iff.2 hm, hg⟩
  · intro h
    obtain ⟨value, hv, hg⟩ := Option.bind_eq_some_iff.1 h
    exact ⟨(id, value), get?_eq_some_iff.1 hv, by rw [hg]; rfl⟩

/-- The values of the entries that are kept, where that does not depend on the keys. -/
theorem values_filterMap (g : α → Option β) (m : VertexMap α) :
    (filterMap (fun entry => g entry.2) m).values = m.values.filterMap g := by
  rw [values, filterMap, values, List.map_filterMap, List.filterMap_map]
  refine List.filterMap_congr fun entry _ => ?_
  rw [Option.map_map]
  exact Option.map_id_fun' ▸ rfl

theorem isEmpty_iff {m : VertexMap α} : m.isEmpty = true ↔ ∀ id, m.get? id = none := by
  constructor
  · intro h id
    rw [isEmpty, List.isEmpty_iff] at h
    rw [get?, h]
    rfl
  · intro h
    have hempty : m = empty := ext_get? h
    rw [hempty]
    rfl

/-- Dropping an empty map drops no entry. -/
theorem bind_filter_isEmpty (o : Option (VertexMap α)) (id : VertexId) :
    (o.filter (!·.isEmpty)).bind (·.get? id) = o.bind (·.get? id) := by
  cases o with
  | none => rfl
  | some m =>
    rw [Option.filter_some, Option.bind_some]
    by_cases h : m.isEmpty = true
    · simp [h, isEmpty_iff.1 h id]
    · simp [h]

end VertexMap

end Superstep
