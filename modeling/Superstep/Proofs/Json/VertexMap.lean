import Superstep.Json.Weight
import Superstep.Proofs.Json.Value
import Superstep.Proofs.Lookup

/-!
# Maps of vertices read back

A map is written as an object whose keys are the numbers of its vertices, in the order of these keys
as strings. That is not the order of the entries, but it is a permutation of them, and a map does
not know in which order its entries were put in. So the map reads back both ways: directly from the
text, and from a value that was read before.

## Main results

* `VertexMap.foldl_insert_of_perm`: the entries of a map, in any order, make the map
* `Json.reads_readVertexMap`: a map reads back from its text
* `Json.canonical_ofVertexMap`, `Json.toVertexMap_ofVertexMap`: it reads back by way of a value
* `Sparse.ofText_toJson`, `Sparse.ofJson_toJson`: vectors of finite weights
-/

namespace Superstep

/-! ### Entries in any order -/

namespace VertexMap

variable {α β : Type}

/-- What a list of entries with different keys leaves at a key. -/
theorem get?_foldl_insert {entries : List (VertexId × α)} (h : (entries.map Prod.fst).Nodup)
    (m : VertexMap α) (id : VertexId) (value : α) :
    (entries.foldl (fun m entry => m.insert entry.1 entry.2) m).get? id = some value ↔
      (id, value) ∈ entries ∨ (∀ entry ∈ entries, entry.1 ≠ id) ∧ m.get? id = some value := by
  induction entries generalizing m with
  | nil => simp
  | cons entry entries ih =>
    obtain ⟨key, other⟩ := entry
    obtain ⟨hkey, hrest⟩ := List.nodup_cons.1 h
    have hnot : ∀ entry ∈ entries, entry.1 ≠ key := by
      intro entry hm he
      exact hkey (List.mem_map.2 ⟨entry, hm, he⟩)
    rw [List.foldl_cons, ih hrest, get?_insert]
    by_cases hid : id = key
    · subst hid
      have hmem : (id, value) ∉ entries := fun hm => hnot _ hm rfl
      have hall : ∀ entry ∈ entries, entry.1 ≠ id := hnot
      rw [if_pos rfl, Option.some.injEq]
      simp only [hmem, List.mem_cons, Prod.mk.injEq, true_and, or_false, false_or]
      constructor
      · rintro ⟨-, hvalue⟩
        exact .inl hvalue.symm
      · rintro (hvalue | ⟨hne, -⟩)
        · exact ⟨hall, hvalue.symm⟩
        · exact absurd rfl (hne _ (.inl rfl))
    · have hne : key ≠ id := Ne.symm hid
      simp [hid, hne]

/-- **The entries of a map, in any order, make the map.** -/
theorem foldl_insert_of_perm {entries : List (VertexId × α)} {m : VertexMap α}
    (h : entries.Perm m.entries) :
    entries.foldl (fun m entry => m.insert entry.1 entry.2) empty = m := by
  have hnodup : (entries.map Prod.fst).Nodup := (h.map Prod.fst).nodup_iff.2 (nodup_keys m)
  refine ext_get? fun id => Option.ext fun value => ?_
  rw [get?_foldl_insert hnodup, get?_empty, h.mem_iff, ← get?_eq_some_iff]
  simp

theorem ofList_of_perm {entries : List (VertexId × α)} {m : VertexMap α}
    (h : entries.Perm m.entries) : ofList entries = m := foldl_insert_of_perm h

end VertexMap

namespace Json

open Text (utf8)

/-! ### Keys -/

theorem toList_vertexKey (id : VertexId) : (vertexKey id).toList = Nat.toDigits 10 id.toNat :=
  String.toList_ofList

theorem vertexKey_injective {a b : VertexId} (h : vertexKey a = vertexKey b) : a = b := by
  have hdigits : Nat.toDigits 10 a.toNat = Nat.toDigits 10 b.toNat := by
    rw [← toList_vertexKey, ← toList_vertexKey, h]
  refine UInt32.toNat_inj.1 ?_
  rw [← Nat.ofDigitChars_ten_toDigits (n := a.toNat), hdigits, Nat.ofDigitChars_ten_toDigits]

/-- Digits need no escape. -/
theorem flatMap_escape_vertexKey (id : VertexId) :
    (vertexKey id).toList.flatMap escape = Nat.toDigits 10 id.toNat := by
  rw [toList_vertexKey]
  have hself : ∀ c ∈ Nat.toDigits 10 id.toNat, escape c = [c] := by
    intro c hc
    have hdigit := Text.toNat_of_isDigit (Text.isDigit_of_mem_digitsOfNat c hc)
    refine escape_of_plain ?_ ?_ (by omega) <;> (rintro rfl; exact absurd hdigit (by decide))
  generalize Nat.toDigits 10 id.toNat = digits at hself
  induction digits with
  | nil => rfl
  | cons c digits ih =>
    rw [List.flatMap_cons, hself c List.mem_cons_self,
      ih fun d hd => hself d (List.mem_cons_of_mem _ hd), List.singleton_append]

/-! ### Numbers of a known kind -/

theorem reads_readNumeric {n : Number} (h : n.Canonical) : Reads readNumeric (number n) n := by
  intro rest hrest
  have hstarts := startsNumber_render h rest
  have hread := readNumber_render h hrest
  show readNumeric (utf8 n.render ++ rest) = _
  rw [readNumeric, (starts_number h rest).skipBlanks]
  generalize utf8 n.render ++ rest = s at hstarts hread ⊢
  match s, hstarts, hread with
  | b :: others, hstarts, hread => exact (if_pos hstarts).trans hread

theorem reads_readNatural {bound n : Nat} (h : n < bound) (hword : n < UInt64.size) :
    Reads (readNatural bound) (ofNat n) n := by
  intro rest hrest
  show (readNumeric _ >>= _) = _
  rw [ofNat, reads_readNumeric (n := .natural n) hword rest hrest]
  show (Number.natBelow bound (.natural n) >>= _) = _
  rw [Number.natBelow, if_pos h]
  rfl

theorem toNat_lt_size (id : VertexId) : id.toNat < UInt64.size :=
  Nat.lt_trans id.toNat_lt (by decide)

/-- **The number of a vertex reads back.** -/
theorem reads_readVertexId (id : VertexId) : Reads readVertexId (ofNat id.toNat) id := by
  intro rest hrest
  show (readNatural UInt32.size _ >>= _) = _
  rw [reads_readNatural id.toNat_lt (toNat_lt_size id) rest hrest]
  show Except.ok (UInt32.ofNat id.toNat, rest) = _
  rw [UInt32.ofNat_toNat]

theorem readsKey_readVertexKey (id : VertexId) : ReadsKey readVertexKey (vertexKey id) id := by
  intro rest
  have hstarts := startsNumber_render (n := .natural id.toNat) (toNat_lt_size id) (34 :: rest)
  have hread := reads_readVertexId id (34 :: rest) (EndsNumber.cons rfl (by decide) rest)
  rw [flatMap_escape_vertexKey, readVertexKey]
  refine (if_pos hstarts).trans ?_
  show (readVertexId _ >>= _) = _
  rw [show utf8 (Nat.toDigits 10 id.toNat) = utf8 (ofNat id.toNat).renderChars from rfl, hread]
  rfl

theorem vertexOfKey_vertexKey (id : VertexId) : vertexOfKey (vertexKey id) = .ok id := by
  have hbytes : Text.encode (vertexKey id) = utf8 (ofNat id.toNat).renderChars ++ [] := by
    rw [vertexKey, Text.encode_ofList, List.append_nil]
    rfl
  have hstarts := startsNumber_render (n := .natural id.toNat) (toNat_lt_size id) []
  have hread := reads_readVertexId id [] endsNumber_nil
  rw [vertexOfKey, hbytes]
  refine (if_pos hstarts).trans ?_
  show (readVertexId _ >>= _) = _
  rw [hread]
  rfl

/-! ### Maps -/

section Maps

variable {α : Type} (f : α → Json) (m : VertexMap α)

/-- The field of an entry. -/
def fieldOf (entry : VertexId × α) : String × Json := (vertexKey entry.1, f entry.2)

/-- The entries in the order in which they are written. -/
def writtenEntries : List (VertexId × α) :=
  m.entries.mergeSort fun a b => vertexKey a.1 ≤ vertexKey b.1

theorem writtenEntries_perm : (writtenEntries m).Perm m.entries := List.mergeSort_perm _ _

theorem sortFields_map :
    sortFields (m.entries.map (fieldOf f)) = (writtenEntries m).map (fieldOf f) :=
  (List.map_mergeSort (f := fieldOf f) fun _ _ _ _ => rfl).symm

theorem ofVertexMap_eq : ofVertexMap f m = object ((writtenEntries m).map (fieldOf f)) :=
  congrArg object (sortFields_map f m)

theorem ascending_writtenEntries :
    ((writtenEntries m).map (fieldOf f)).Pairwise fun a b => a.1 < b.1 := by
  have hle : (writtenEntries m).Pairwise fun a b => vertexKey a.1 ≤ vertexKey b.1 := by
    refine (List.pairwise_mergeSort ?_ ?_ m.entries).imp of_decide_eq_true
    · intro a b c hab hbc
      exact decide_eq_true (String.le_trans (of_decide_eq_true hab) (of_decide_eq_true hbc))
    · intro a b
      rcases String.le_total (vertexKey a.1) (vertexKey b.1) with h | h <;> simp [h]
  have hne : (writtenEntries m).Pairwise fun a b => a.1 ≠ b.1 := by
    have hnodup := ((writtenEntries_perm m).map Prod.fst).nodup_iff.2 (VertexMap.nodup_keys m)
    exact List.pairwise_map.1 hnodup
  refine List.pairwise_map.2 ((hle.and hne).imp ?_)
  rintro a b ⟨hle, hne⟩
  by_contra hlt
  exact hne (vertexKey_injective (String.le_antisymm hle (String.not_lt.1 hlt)))

variable {f m}

/-- **A map reads back from its text.** -/
theorem reads_readVertexMap {depth : Nat} (hdepth : 0 < depth) {value : Reader α}
    (h : ∀ entry ∈ m.entries, Reads value (f entry.2) entry.2) :
    Reads (readVertexMap depth value) (ofVertexMap f m) m := by
  obtain ⟨depth, rfl⟩ : ∃ n, depth = n + 1 := ⟨depth - 1, by omega⟩
  intro rest _
  have hkeys : ∀ entry ∈ writtenEntries m, ReadsKey readVertexKey (fieldOf f entry).1 entry.1 :=
    fun entry _ => readsKey_readVertexKey entry.1
  rw [ofVertexMap_eq]
  refine readObject_render (readsFields_map _ hkeys ?_
    (VertexMap.foldl_insert_of_perm (writtenEntries_perm m))) rest
  intro entry hm state rest hrest
  show (value _ >>= _) = _
  rw [show (fieldOf f entry).2 = f entry.2 from rfl,
    h entry ((writtenEntries_perm m).mem_iff.1 hm) rest hrest]
  rfl

/-- A map can only be read from its text if each of its values can be. -/
theorem forall_of_readVertexMap {β : Type} {depth : Nat} (hdepth : 0 < depth) {value : Reader β}
    {good : VertexId × α → Prop}
    (h : ∀ entry ∈ m.entries, ∀ rest a after, EndsNumber rest →
      value (utf8 (f entry.2).renderChars ++ rest) = .ok (a, after) → good entry ∧ after = rest)
    {m' : VertexMap β} {rest after : Bytes}
    (hread : readVertexMap depth value (utf8 (ofVertexMap f m).renderChars ++ rest) =
      .ok (m', after)) : ∀ entry ∈ m.entries, good entry := by
  obtain ⟨depth, rfl⟩ : ∃ n, depth = n + 1 := ⟨depth - 1, by omega⟩
  rw [ofVertexMap_eq] at hread
  have hkeys : ∀ entry ∈ writtenEntries m, ReadsKey readVertexKey (fieldOf f entry).1 entry.1 :=
    fun entry _ => readsKey_readVertexKey entry.1
  intro entry hentry
  refine forall_of_readObject hkeys ?_ hread entry ((writtenEntries_perm m).mem_iff.2 hentry)
  intro entry hm state rest next after hrest hfield
  obtain ⟨⟨a, others⟩, hvalue, hnext⟩ := bind_eq_ok.1
    (show value (utf8 (f entry.2).renderChars ++ rest) >>= _ = .ok (next, after) from hfield)
  obtain ⟨hgood, rfl⟩ := h entry ((writtenEntries_perm m).mem_iff.1 hm) _ _ _ hrest hvalue
  exact ⟨hgood, (Prod.mk.inj (Except.ok.inj hnext)).2.symm⟩

/-- **A map is a canonical value.** -/
theorem canonical_ofVertexMap {depth : Nat}
    (h : ∀ entry ∈ m.entries, Canonical depth (f entry.2)) :
    Canonical (depth + 1) (ofVertexMap f m) := by
  rw [ofVertexMap_eq]
  refine .object (ascending_writtenEntries f m) ?_
  intro field hm
  obtain ⟨entry, hentry, rfl⟩ := List.mem_map.1 hm
  exact h entry ((writtenEntries_perm m).mem_iff.1 hentry)

theorem vertexMapOfFields_map {value : Json → Except Fault α} {entries : List (VertexId × α)}
    (h : ∀ entry ∈ entries, value (f entry.2) = .ok entry.2) :
    vertexMapOfFields value (entries.map (fieldOf f)) = .ok entries := by
  induction entries with
  | nil => rfl
  | cons entry entries ih =>
    show (vertexOfKey (vertexKey entry.1) >>= _) = _
    rw [vertexOfKey_vertexKey]
    show (value (f entry.2) >>= _) = _
    rw [h entry List.mem_cons_self]
    show (vertexMapOfFields value _ >>= _) = _
    rw [ih fun other hm => h other (List.mem_cons_of_mem _ hm)]
    rfl

/-- **A map reads back from its value.** -/
theorem toVertexMap_ofVertexMap {value : Json → Except Fault α}
    (h : ∀ entry ∈ m.entries, value (f entry.2) = .ok entry.2) :
    toVertexMap value (ofVertexMap f m) = .ok m := by
  have hfields := vertexMapOfFields_map fun entry hm =>
    h entry ((writtenEntries_perm m).mem_iff.1 hm)
  rw [ofVertexMap_eq]
  show (vertexMapOfFields value _).map VertexMap.ofList = _
  rw [hfields]
  exact congrArg Except.ok (VertexMap.ofList_of_perm (writtenEntries_perm m))

end Maps

end Json

/-! ### Vectors of finite weights -/

namespace Sparse

/-- All weights are finite. -/
def AllFinite (v : Sparse Binary64) : Prop := ∀ entry ∈ v.entries, entry.2.isFinite = true

instance (v : Sparse Binary64) : Decidable v.AllFinite :=
  inferInstanceAs (Decidable (∀ entry ∈ v.entries, entry.2.isFinite = true))

theorem toJson_weight {w : Binary64} (h : w.isFinite = true) :
    JsonWeight.toJson w = .number (.real w) := if_pos h

/-- **Only a vector of finite weights can be read from its text.** There is no number for another
weight. -/
theorem allFinite_of_ofText {v v' : Sparse Binary64}
    (h : Sparse.ofText (Text.encode v.toJson.render) = .ok v') : v.AllFinite := by
  rw [Json.render, Text.encode_ofList, ← List.append_nil (Text.utf8 _)] at h
  obtain ⟨⟨m', after⟩, hread, -⟩ := bind_eq_ok.1 h
  refine Json.forall_of_readVertexMap (by decide)
    (fun entry hm rest w after hrest hvalue => ?_) hread
  obtain ⟨⟨n, others⟩, hnumber, hvalue⟩ := bind_eq_ok.1 hvalue
  by_cases hfinite : entry.2.isFinite = true
  · rw [toJson_weight hfinite,
      Json.reads_readNumeric (n := .real entry.2) hfinite rest hrest] at hnumber
    obtain ⟨-, rfl⟩ := Prod.mk.inj (Except.ok.inj hnumber)
    exact ⟨hfinite, (Prod.mk.inj (Except.ok.inj hvalue)).2.symm⟩
  · have hnull : (JsonWeight.toJson entry.2 : Json) = .null := if_neg hfinite
    rw [hnull] at hnumber
    cases hnumber

variable {v : Sparse Binary64} (h : v.AllFinite)
include h

theorem reads_readJson {depth : Nat} (hdepth : 0 < depth) :
    Json.Reads (Sparse.readJson depth) v.toJson v := by
  refine Json.reads_readVertexMap hdepth fun entry hm rest hrest => ?_
  show (Json.readNumeric _ >>= _) = _
  have hfinite := h entry hm
  rw [toJson_weight hfinite, Json.reads_readNumeric (n := .real entry.2) hfinite rest hrest]
  rfl

/-- **A vector of finite weights reads back from a text that is all of it.** -/
theorem ofText_toJson : Sparse.ofText (Text.encode v.toJson.render) = .ok v := by
  have hread := reads_readJson h (by decide : 0 < Json.maxDepth) [] Json.endsNumber_nil
  rw [List.append_nil] at hread
  rw [Json.render, Text.encode_ofList]
  show (Sparse.readJson Json.maxDepth _ >>= _) = _
  rw [hread]
  rfl

theorem canonical_toJson {depth : Nat} : Json.Canonical (depth + 1) v.toJson := by
  refine Json.canonical_ofVertexMap fun entry hm => ?_
  rw [toJson_weight (h entry hm)]
  exact .number (h entry hm)

theorem ofJson_toJson : Sparse.ofJson v.toJson = .ok v := by
  refine Json.toVertexMap_ofVertexMap fun entry hm => ?_
  rw [toJson_weight (h entry hm)]
  rfl

end Sparse

end Superstep
