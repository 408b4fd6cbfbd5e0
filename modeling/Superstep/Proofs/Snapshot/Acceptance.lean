import Mathlib.Data.List.Perm.Basic
import Superstep.Proofs.Snapshot.RoundTrip

/-!
# Which snapshots are accepted

A reader goes over the records once, in the order of their lines, and refuses at the first fault.
What it accepts does not depend on that order: `WellFormed` speaks of the records as a set of
vertices with their targets and their values, and of the header as their two counts. The graph is a
function of the same set.

`Keeps` is what a reader has of the records that it went over. One more record keeps it, and from
it come both directions: what was read to its end was well formed, and what is well formed is read
to its end.

## Main definitions

* `WellFormed`: what makes a text a snapshot
* `Loaded`: the graph that its records make

## Main results

* `Keeps.addRecord`, `Keeps.addRecords`: one record, and all of them
* `exists_load`, `exists_wellFormed`: what is accepted
* `load_eq_ok`, `exists_loaded`: what is loaded
-/

namespace Superstep.Snapshot

/-! ### Lines and their records -/

/-- A line of nothing but blanks. -/
def isBlankLine (line : List UInt8) : Bool :=
  (Text.decode? line).any fun chars => (Text.trim chars).isEmpty

/-- The lines that are not blank. -/
def recordLines (lines : List (List UInt8)) : List (List UInt8) :=
  lines.filter fun line => !isBlankLine line

/-- The line is the text of the record. -/
def Denotes (line : List UInt8) (r : Record) : Prop := Record.ofText line = .ok r

theorem Denotes.unique {line : List UInt8} {r r' : Record} (h : Denotes line r)
    (h' : Denotes line r') : r = r' :=
  Except.ok.inj (h.symm.trans h')

/-- The edges of records, as they come. -/
def edgesOf (records : List Record) : List Edge :=
  records.flatMap fun r => r.out.map (Edge.mk r.id)

theorem edgesOf_append_singleton (records : List Record) (r : Record) :
    edgesOf (records ++ [r]) = edgesOf records ++ r.out.map (Edge.mk r.id) := by
  rw [edgesOf, List.flatMap_append, List.flatMap_singleton]
  rfl

theorem mem_edgesOf {records : List Record} {v w : VertexId} :
    ⟨v, w⟩ ∈ edgesOf records ↔ ∃ r ∈ records, r.id = v ∧ w ∈ r.out := by
  rw [edgesOf, List.mem_flatMap]
  constructor
  · rintro ⟨r, hr, he⟩
    obtain ⟨w', hw', he⟩ := List.mem_map.1 he
    obtain ⟨hv, rfl⟩ := Edge.mk.inj he
    exact ⟨r, hr, hv, hw'⟩
  · rintro ⟨r, hr, rfl, hw⟩
    exact ⟨r, hr, List.mem_map.2 ⟨w, hw, rfl⟩⟩

theorem length_edgesOf (records : List Record) :
    (edgesOf records).length = (records.map fun r => r.out.length).sum := by
  rw [edgesOf, List.length_flatMap]
  congr 1
  refine List.map_congr_left fun r _ => ?_
  rw [List.length_map]

variable {D : Type} {size : Nat}

theorem Progress.eq_of_fields {p p' : Progress D size} (hv : p.values = p'.values)
    (he : p.edges = p'.edges) : p = p' := by
  obtain ⟨values, edges, below⟩ := p
  obtain ⟨values', edges', below'⟩ := p'
  obtain rfl : values = values' := hv
  obtain rfl : edges = edges' := he
  rfl

/-! ### One record -/

theorem lt_of_addOut {p p' : Progress D size} {id : VertexId} {h : id.toNat < size}
    {out : List VertexId} (hp : p.addOut id h out = .ok p') : ∀ w ∈ out, w.toNat < size := by
  induction out generalizing p with
  | nil => simp
  | cons target out ih =>
    rw [Progress.addOut] at hp
    split at hp
    · rename_i ht
      exact List.forall_mem_cons.2 ⟨ht, ih hp⟩
    · cases hp

theorem addOut_eq_ok {p p' : Progress D size} {id : VertexId} {h : id.toNat < size}
    {out : List VertexId} :
    p.addOut id h out = .ok p' ↔ (∀ w ∈ out, w.toNat < size) ∧ p'.values = p.values ∧
      p'.edges = (out.map (Edge.mk id)).reverse ++ p.edges := by
  constructor
  · intro hp
    obtain ⟨q, hq, hvalues, hedges⟩ := exists_addOut p h (lt_of_addOut hp)
    obtain rfl : q = p' := Except.ok.inj (hq.symm.trans hp)
    exact ⟨lt_of_addOut hp, hvalues, hedges⟩
  · rintro ⟨hout, hvalues, hedges⟩
    obtain ⟨q, hq, hvalues', hedges'⟩ := exists_addOut p h hout
    rw [hq, Progress.eq_of_fields (hvalues.trans hvalues'.symm) (hedges.trans hedges'.symm)]

section Records

variable [Persist D] {detail : Detail}

theorem addRecord_eq_ok {p p' : Progress D size} {r : Record} :
    p.addRecord detail r = .ok p' ↔ ∃ (h : r.id.toNat < size) (value : D),
      p.values[r.id.toNat] = none ∧ (∀ w ∈ r.out, w.toNat < size) ∧
      Persist.load detail r.data = .ok value ∧
      p'.values = p.values.set r.id.toNat (some value) ∧
      p'.edges = (r.out.map (Edge.mk r.id)).reverse ++ p.edges := by
  constructor
  · intro hp
    rw [Progress.addRecord] at hp
    split at hp
    · rename_i h
      split at hp
      · cases hp
      · rename_i hnew
        obtain ⟨q, hq, hp⟩ := bind_eq_ok.1 hp
        obtain ⟨value, hvalue, hp⟩ := bind_eq_ok.1 hp
        obtain ⟨hout, hvalues, hedges⟩ := addOut_eq_ok.1 (mapError_eq_ok.1 hq)
        obtain rfl := Except.ok.inj hp
        refine ⟨h, value, by simpa using hnew, hout, mapError_eq_ok.1 hvalue, ?_, hedges⟩
        rw [← hvalues]
    · cases hp
  · rintro ⟨h, value, hnew, hout, hvalue, hvalues, hedges⟩
    obtain ⟨q, hq, hvalues', hedges'⟩ := exists_addOut p h hout
    rw [Progress.addRecord, dif_pos h, hnew]
    refine bind_eq_ok.2 ⟨q, mapError_eq_ok.2 hq, ?_⟩
    refine bind_eq_ok.2 ⟨value, mapError_eq_ok.2 hvalue, congrArg Except.ok ?_⟩
    refine Progress.eq_of_fields ?_ (hedges'.trans hedges.symm)
    rw [hvalues, ← hvalues']

/-- Records that a reader can go over. -/
structure Acceptable (D : Type) [Persist D] (size : Nat) (detail : Detail)
    (records : List Record) : Prop where
  id_lt : ∀ r ∈ records, r.id.toNat < size
  distinct : (records.map Record.id).Nodup
  target_lt : ∀ r ∈ records, ∀ w ∈ r.out, w.toNat < size
  loads : ∀ r ∈ records, ∃ value : D, Persist.load detail r.data = .ok value

/-- What a reader has of the records that it went over. -/
structure Keeps (detail : Detail) (records : List Record) (p : Progress D size) : Prop where
  acceptable : Acceptable D size detail records
  edges : p.edges = (edgesOf records).reverse
  recorded : ∀ r ∈ records, ∀ h : r.id.toNat < size,
    ∃ value, Persist.load detail r.data = .ok value ∧ p.values[r.id.toNat] = some value
  others : ∀ (i : Nat) (h : i < size), (∀ r ∈ records, r.id.toNat ≠ i) → p.values[i] = none

theorem keeps_empty : Keeps detail [] (Progress.empty size : Progress D size) where
  acceptable := ⟨by simp, List.nodup_nil, by simp, by simp⟩
  edges := rfl
  recorded := by simp
  others i h _ := Vector.getElem_replicate h

/-- **One more record**, if it is read. -/
theorem Keeps.addRecord {records : List Record} {p p' : Progress D size} {r : Record}
    (h : Keeps detail records p) (hp : p.addRecord detail r = .ok p') :
    Keeps detail (records ++ [r]) p' := by
  obtain ⟨hr, value, hnew, hout, hvalue, hvalues, hedges⟩ := addRecord_eq_ok.1 hp
  have hother : ∀ d ∈ records, d.id.toNat ≠ r.id.toNat := by
    intro d hd hid
    obtain ⟨old, -, hold⟩ := h.recorded d hd (hid ▸ hr)
    simp only [hid, hnew] at hold
    cases hold
  have ha := h.acceptable
  refine ⟨⟨?_, ?_, ?_, ?_⟩, ?_, ?_, ?_⟩
  · exact List.forall_mem_append.2 ⟨ha.id_lt, by simpa using hr⟩
  · rw [List.map_append, List.map_singleton, List.nodup_append]
    refine ⟨ha.distinct, List.nodup_singleton _, ?_⟩
    intro v hv w hw hvw
    obtain ⟨d, hd, rfl⟩ := List.mem_map.1 hv
    rw [List.mem_singleton.1 hw] at hvw
    exact hother d hd (congrArg UInt32.toNat hvw)
  · exact List.forall_mem_append.2 ⟨ha.target_lt, by simpa using hout⟩
  · exact List.forall_mem_append.2 ⟨ha.loads, by simpa using ⟨value, hvalue⟩⟩
  · rw [hedges, h.edges, edgesOf_append_singleton, List.reverse_append]
  · intro d hd hlt
    rcases List.mem_append.1 hd with hd | hd
    · obtain ⟨old, hload, hold⟩ := h.recorded d hd hlt
      refine ⟨old, hload, ?_⟩
      simp only [hvalues, Vector.getElem_set, if_neg (hother d hd).symm, hold]
    · obtain rfl := List.mem_singleton.1 hd
      refine ⟨value, hvalue, ?_⟩
      simp only [hvalues, Vector.getElem_set_self]
  · intro i hi hnone
    have hne : r.id.toNat ≠ i := hnone r (by simp)
    have hbefore := h.others i hi fun d hd => hnone d (by simp [hd])
    simp only [hvalues, Vector.getElem_set, if_neg hne, hbefore]

/-- A record that may follow is read. -/
theorem Keeps.exists_addRecord {records : List Record} {p : Progress D size} {r : Record}
    (h : Keeps detail records p) (ha : Acceptable D size detail (records ++ [r])) :
    ∃ p', p.addRecord detail r = .ok p' := by
  have hmem : r ∈ records ++ [r] := by simp
  have hr := ha.id_lt r hmem
  obtain ⟨value, hvalue⟩ := ha.loads r hmem
  obtain ⟨q, hq, hvalues, hedges⟩ := exists_addOut p hr (ha.target_lt r hmem)
  have hnew : p.values[r.id.toNat] = none := by
    refine h.others _ hr fun d hd hid => ?_
    have hdistinct := ha.distinct
    rw [List.map_append, List.nodup_append] at hdistinct
    exact hdistinct.2.2 d.id (List.mem_map_of_mem hd) r.id (by simp) (UInt32.toNat_inj.1 hid)
  exact ⟨{ q with values := p.values.set r.id.toNat (some value) hr },
    addRecord_eq_ok.2 ⟨hr, value, hnew, ha.target_lt r hmem, hvalue, rfl, hedges⟩⟩

/-! ### All records -/

/-- Goes over records. -/
def addRecords (detail : Detail) (p : Progress D size) (records : List Record) :
    Except Error (Progress D size) :=
  records.foldlM (fun p r => p.addRecord detail r) p

theorem addRecords_cons_eq_ok {p p' : Progress D size} {r : Record} {records : List Record} :
    addRecords detail p (r :: records) = .ok p' ↔
      ∃ q, p.addRecord detail r = .ok q ∧ addRecords detail q records = .ok p' := by
  rw [addRecords, List.foldlM_cons, bind_eq_ok]
  rfl

/-- **All records**, if they are read. -/
theorem Keeps.addRecords {done records : List Record} {p p' : Progress D size}
    (h : Keeps detail done p) (hp : addRecords detail p records = .ok p') :
    Keeps detail (done ++ records) p' := by
  induction records generalizing done p with
  | nil =>
    obtain rfl : p = p' := Except.ok.inj hp
    rwa [List.append_nil]
  | cons r records ih =>
    obtain ⟨q, hq, hp⟩ := addRecords_cons_eq_ok.1 hp
    have hrest := ih (h.addRecord hq) hp
    rwa [List.append_assoc, List.singleton_append] at hrest

theorem Acceptable.of_append {records records' : List Record}
    (h : Acceptable D size detail (records ++ records')) : Acceptable D size detail records where
  id_lt r hr := h.id_lt r (List.mem_append_left _ hr)
  distinct := by
    have hdistinct := h.distinct
    rw [List.map_append] at hdistinct
    exact hdistinct.of_append_left
  target_lt r hr := h.target_lt r (List.mem_append_left _ hr)
  loads r hr := h.loads r (List.mem_append_left _ hr)

/-- Records that may follow are read. -/
theorem Keeps.exists_addRecords {done records : List Record} {p : Progress D size}
    (h : Keeps detail done p) (ha : Acceptable D size detail (done ++ records)) :
    ∃ p', Snapshot.addRecords detail p records = .ok p' := by
  induction records generalizing done p with
  | nil => exact ⟨p, rfl⟩
  | cons r records ih =>
    rw [← List.singleton_append, ← List.append_assoc] at ha
    obtain ⟨q, hq⟩ := h.exists_addRecord ha.of_append
    obtain ⟨p', hp'⟩ := ih (h.addRecord hq) ha
    exact ⟨p', addRecords_cons_eq_ok.2 ⟨q, hq, hp'⟩⟩

/-- Going over lines is going over the records that they denote. -/
theorem addLines_eq_ok (path : String) {p p' : Progress D size} {lines : List (List UInt8)}
    (hdecode : ∀ line ∈ lines, (Text.decode? line).isSome = true) :
    p.addLines path detail lines = .ok p' ↔ ∃ records,
      List.Forall₂ Denotes (recordLines lines) records ∧ addRecords detail p records = .ok p' := by
  induction lines generalizing p with
  | nil =>
    constructor
    · intro hp
      exact ⟨[], .nil, hp⟩
    · rintro ⟨records, hdenotes, hp⟩
      cases hdenotes
      exact hp
  | cons line lines ih =>
    obtain ⟨hline, hlines⟩ := List.forall_mem_cons.1 hdecode
    obtain ⟨chars, hchars⟩ := Option.isSome_iff_exists.1 hline
    have hblank : isBlankLine line = (Text.trim chars).isEmpty := by
      rw [isBlankLine, hchars, Option.any_some]
    rw [Progress.addLines, hchars]
    by_cases hempty : (Text.trim chars).isEmpty = true
    · have hskip : recordLines (line :: lines) = recordLines lines := by
        rw [recordLines, List.filter_cons_of_neg (by simp [hblank, hempty])]
        rfl
      rw [hskip]
      show (if (Text.trim chars).isEmpty = true then _ else _) = _ ↔ _
      rw [if_pos hempty]
      exact ih hlines
    · have hkeep : recordLines (line :: lines) = line :: recordLines lines := by
        rw [recordLines, List.filter_cons_of_pos (by simp [hblank, hempty])]
        rfl
      rw [hkeep]
      show (if (Text.trim chars).isEmpty = true then _ else _) = _ ↔ _
      rw [if_neg hempty, bind_eq_ok]
      constructor
      · rintro ⟨r, hr, hp⟩
        obtain ⟨q, hq, hp⟩ := bind_eq_ok.1 hp
        obtain ⟨records, hdenotes, hp⟩ := (ih hlines).1 hp
        exact ⟨r :: records, .cons (mapError_eq_ok.1 hr) hdenotes,
          addRecords_cons_eq_ok.2 ⟨q, hq, hp⟩⟩
      · rintro ⟨records, hdenotes, hp⟩
        cases hdenotes with
        | @cons _ r _ records hr hdenotes =>
          obtain ⟨q, hq, hp⟩ := addRecords_cons_eq_ok.1 hp
          exact ⟨r, mapError_eq_ok.2 hr,
            bind_eq_ok.2 ⟨q, hq, (ih hlines).2 ⟨records, hdenotes, hp⟩⟩⟩

/-! ### The graph of the records -/

/-- What is told of so many repeated edges. -/
def droppedEvents (repeated : Nat) : List Event :=
  if 0 < repeated then [.droppedDuplicates repeated] else []

/-- The graph that records make, and what is told of finalizing it. -/
structure Loaded (detail : Detail) (header : Header) (records : List Record) (g : Graph D)
    (events : List Event) : Prop where
  finalized : g.finalized = true
  numVertices_eq : g.numVertices = header.numVertices
  edges_eq : g.edges.toList = Edge.arrange (edgesOf records)
  value?_eq : ∀ r ∈ records,
    ∃ value, Persist.load detail r.data = .ok value ∧ g.value? r.id = some value
  events_eq : events =
    droppedEvents ((edgesOf records).length - (Edge.arrange (edgesOf records)).length)

omit [Persist D] in
theorem of_finish [Inhabited D] {p : Progress D size} {declared : Nat}
    {size_le : size ≤ UInt32.size} {out : Graph D × List Event}
    (hp : p.finish declared size_le = .ok out) :
    (∀ (i : Nat) (h : i < size), p.values[i] ≠ none) ∧ p.edges.length = declared := by
  rw [Progress.finish] at hp
  split at hp
  · cases hp
  · rename_i hall
    split at hp
    · rename_i hcount
      refine ⟨fun i hi hnone => ?_, hcount⟩
      have hsome := List.findIdx?_eq_none_iff.1 hall p.values[i]
        (Vector.mem_toList_iff.2 (Vector.getElem_mem hi))
      rw [hnone] at hsome
      cases hsome
    · cases hp

/-- **When no vertex is missing, the records make a graph.** -/
theorem Keeps.finish [Inhabited D] {records : List Record} {p : Progress D size} {declared : Nat}
    (h : Keeps detail records p) (size_le : size ≤ UInt32.size)
    (hall : ∀ (i : Nat) (h : i < size), p.values[i] ≠ none) (hcount : p.edges.length = declared) :
    ∃ g events, p.finish declared size_le = .ok (g, events) ∧
      Loaded detail ⟨size, declared⟩ records g events := by
  have hnone : p.values.toList.findIdx? Option.isNone = none := by
    refine List.findIdx?_eq_none_iff.2 fun value hm => ?_
    obtain ⟨i, hi, rfl⟩ := Vector.mem_iff_getElem.1 (Vector.mem_toList_iff.1 hm)
    simpa using Option.isSome_iff_ne_none.2 (hall i hi)
  have hedges : p.edges.reverse = edgesOf records := by rw [h.edges, List.reverse_reverse]
  rw [Progress.finish, hnone]
  refine ⟨_, _, if_pos hcount, ?_⟩
  constructor
  · rfl
  · show (p.values.toArray.map _).size = size
    simp
  · exact congrArg Edge.arrange hedges
  · intro r hr
    have hlt := h.acceptable.id_lt r hr
    obtain ⟨value, hload, hvalue⟩ := h.recorded r hr hlt
    refine ⟨value, hload, ?_⟩
    show (p.values.toArray.map _)[r.id.toNat]? = _
    rw [Array.getElem?_map, Array.getElem?_eq_getElem (by simpa using hlt), Option.map_some,
      Vector.getElem_toArray, hvalue]
    rfl
  · show droppedEvents (p.edges.reverse.length - (Edge.arrange p.edges.reverse).length) = _
    rw [hedges]

/-- What makes a text a snapshot: a header, and for each of the vertices that it declares one
record, whose targets are vertices and whose value can be loaded, as many targets as edges are
declared. -/
structure WellFormed (D : Type) [Persist D] (detail : Detail) (content : List UInt8)
    (header : Header) (records : List Record) : Prop where
  lines : ∃ first rest, Text.lines content = first :: rest ∧ Header.ofText first = .ok header ∧
    List.Forall₂ Denotes (recordLines rest) records
  size_le : header.numVertices ≤ UInt32.size
  ids : (records.map fun r => r.id.toNat).Perm (List.range header.numVertices)
  target_lt : ∀ r ∈ records, ∀ w ∈ r.out, w.toNat < header.numVertices
  loads : ∀ r ∈ records, ∃ value : D, Persist.load detail r.data = .ok value
  count : (records.map fun r => r.out.length).sum = header.numEdges

variable {content content' : List UInt8} {header : Header} {records records' : List Record}

theorem WellFormed.mem_ids (h : WellFormed D detail content header records) {i : Nat} :
    i < header.numVertices ↔ ∃ r ∈ records, r.id.toNat = i := by
  rw [← List.mem_range, ← h.ids.mem_iff, List.mem_map]

theorem WellFormed.distinct (h : WellFormed D detail content header records) :
    (records.map Record.id).Nodup := by
  have hnodup : (records.map fun r => r.id.toNat).Nodup := h.ids.nodup_iff.2 List.nodup_range
  refine List.Nodup.of_map UInt32.toNat ?_
  rwa [List.map_map]

theorem WellFormed.acceptable (h : WellFormed D detail content header records) :
    Acceptable D header.numVertices detail records where
  id_lt r hr := h.mem_ids.2 ⟨r, hr, rfl⟩
  distinct := h.distinct
  target_lt := h.target_lt
  loads := h.loads

/-- The records of a text that misses no vertex are those of all vertices. -/
theorem Keeps.perm_range {p : Progress D size} (h : Keeps detail records p)
    (hall : ∀ (i : Nat) (h : i < size), p.values[i] ≠ none) :
    (records.map fun r => r.id.toNat).Perm (List.range size) := by
  have hnodup : (records.map fun r => r.id.toNat).Nodup := by
    have hmap := h.acceptable.distinct.map fun _ _ => UInt32.toNat_inj.1
    rwa [List.map_map] at hmap
  refine (List.perm_ext_iff_of_nodup hnodup List.nodup_range).2 fun i => ?_
  rw [List.mem_map, List.mem_range]
  constructor
  · rintro ⟨r, hr, rfl⟩
    exact h.acceptable.id_lt r hr
  · intro hi
    by_contra hmissing
    refine hall i hi (h.others i hi fun r hr hid => hmissing ⟨r, hr, hid⟩)

/-- A text makes one graph at most. -/
theorem Loaded.unique {g g' : Graph D} {events events' : List Event}
    (hw : WellFormed D detail content header records)
    (h : Loaded detail header records g events) (h' : Loaded detail header records g' events') :
    (g, events) = (g', events') := by
  have hdata : g.data = g'.data := by
    refine Array.ext_getElem? fun i => ?_
    by_cases hi : i < header.numVertices
    · obtain ⟨r, hr, rfl⟩ := hw.mem_ids.1 hi
      obtain ⟨value, hload, hvalue⟩ := h.value?_eq r hr
      obtain ⟨value', hload', hvalue'⟩ := h'.value?_eq r hr
      obtain rfl : value = value' := Except.ok.inj (hload.symm.trans hload')
      exact hvalue.trans hvalue'.symm
    · have hsize : g.data.size = header.numVertices := h.numVertices_eq
      have hsize' : g'.data.size = header.numVertices := h'.numVertices_eq
      rw [Array.getElem?_eq_none (by omega), Array.getElem?_eq_none (by omega)]
  have hedges : g.edges = g'.edges := Array.toList_inj.1 (h.edges_eq.trans h'.edges_eq.symm)
  rw [Graph.ext_finalized h.finalized h'.finalized hdata hedges, h.events_eq, h'.events_eq]

/-! ### Loading -/

section Loading

variable [Inhabited D] (path : String)

theorem readHeader_eq_ok {line : List UInt8} (hdecode : (Text.decode? line).isSome = true) :
    readHeader path line = .ok header ↔ Header.ofText line = .ok header := by
  rw [readHeader, if_pos hdecode, mapError_eq_ok]

/-- Loading succeeds in three steps: the header, the records, and the graph of them. -/
theorem load_cons_eq_ok {first : List UInt8} {rest : List (List UInt8)}
    (hlines : Text.lines content = first :: rest)
    (hdecode : ∀ line ∈ first :: rest, (Text.decode? line).isSome = true)
    {out : Graph D × List Event} :
    load path detail content = .ok out ↔
      ∃ (header : Header) (records : List Record) (p : Progress D header.numVertices)
        (size_le : header.numVertices ≤ UInt32.size),
        Header.ofText first = .ok header ∧ List.Forall₂ Denotes (recordLines rest) records ∧
        addRecords detail (Progress.empty header.numVertices) records = .ok p ∧
        p.finish header.numEdges size_le = .ok out := by
  obtain ⟨hfirst, hrest⟩ := List.forall_mem_cons.1 hdecode
  rw [load, hlines]
  refine bind_eq_ok.trans ?_
  constructor
  · rintro ⟨header, hheader, h⟩
    split at h
    · rename_i size_le
      obtain ⟨p, hp, h⟩ := bind_eq_ok.1 h
      obtain ⟨records, hdenotes, hp⟩ := (addLines_eq_ok path hrest).1 hp
      exact ⟨header, records, p, size_le, (readHeader_eq_ok path hfirst).1 hheader, hdenotes, hp,
        mapError_eq_ok.1 h⟩
    · cases h
  · rintro ⟨header, records, p, size_le, hheader, hdenotes, hp, h⟩
    refine ⟨header, (readHeader_eq_ok path hfirst).2 hheader, (dif_pos size_le).trans ?_⟩
    exact bind_eq_ok.2 ⟨p, (addLines_eq_ok path hrest).2 ⟨records, hdenotes, hp⟩,
      mapError_eq_ok.2 h⟩

omit [Inhabited D] in
/-- Lines that were read to their end are texts. -/
theorem decodes_of_addLines {p p' : Progress D size} {lines : List (List UInt8)}
    (h : p.addLines path detail lines = .ok p') :
    ∀ line ∈ lines, (Text.decode? line).isSome = true := by
  induction lines generalizing p with
  | nil => simp
  | cons line lines ih =>
    rw [Progress.addLines] at h
    cases hline : Text.decode? line with
    | none =>
      rw [hline] at h
      cases h
    | some chars =>
      rw [hline] at h
      refine List.forall_mem_cons.2 ⟨congrArg Option.isSome hline, ?_⟩
      by_cases hblank : (Text.trim chars).isEmpty = true
      · exact ih ((if_pos hblank).symm.trans h)
      · obtain ⟨r, -, h⟩ := bind_eq_ok.1 ((if_neg hblank).symm.trans h)
        obtain ⟨q, -, h⟩ := bind_eq_ok.1 h
        exact ih h

theorem decodes_of_load {out : Graph D × List Event} (h : load path detail content = .ok out) :
    ∀ line ∈ Text.lines content, (Text.decode? line).isSome = true := by
  rw [load] at h
  cases hlines : Text.lines content with
  | nil => simp
  | cons first rest =>
    rw [hlines] at h
    obtain ⟨header, hheader, h⟩ := bind_eq_ok.1 h
    split at h
    · obtain ⟨p, hp, -⟩ := bind_eq_ok.1 h
      refine List.forall_mem_cons.2 ⟨?_, decodes_of_addLines path hp⟩
      rw [readHeader] at hheader
      split at hheader
      · assumption
      · cases hheader
    · cases h

variable (hdecode : ∀ line ∈ Text.lines content, (Text.decode? line).isSome = true)
include hdecode

theorem exists_load (h : WellFormed D detail content header records) :
    ∃ (g : Graph D) (events : List Event), load path detail content = .ok (g, events) ∧
      Loaded detail header records g events := by
  obtain ⟨first, rest, hlines, hheader, hdenotes⟩ := h.lines
  rw [hlines] at hdecode
  obtain ⟨p, hp⟩ := keeps_empty.exists_addRecords h.acceptable
  have hkeeps : Keeps detail records p := keeps_empty.addRecords hp
  have hcount : p.edges.length = header.numEdges := by
    rw [hkeeps.edges, List.length_reverse, length_edgesOf, h.count]
  have hall : ∀ (i : Nat) (hi : i < header.numVertices), p.values[i] ≠ none := by
    intro i hi hnone
    obtain ⟨r, hr, rfl⟩ := h.mem_ids.1 hi
    obtain ⟨value, -, hvalue⟩ := hkeeps.recorded r hr hi
    rw [hnone] at hvalue
    cases hvalue
  obtain ⟨g, events, hfinish, hloaded⟩ := hkeeps.finish h.size_le hall hcount
  exact ⟨g, events, (load_cons_eq_ok path hlines hdecode).2
    ⟨header, records, p, h.size_le, hheader, hdenotes, hp, hfinish⟩, hloaded⟩

theorem exists_wellFormed {g : Graph D} {events : List Event}
    (h : load path detail content = .ok (g, events)) :
    ∃ header records, WellFormed D detail content header records := by
  match hlines : Text.lines content with
  | [] =>
    rw [load, hlines] at h
    cases h
  | first :: rest =>
    rw [hlines] at hdecode
    obtain ⟨header, records, p, size_le, hheader, hdenotes, hp, hfinish⟩ :=
      (load_cons_eq_ok path hlines hdecode).1 h
    have hkeeps : Keeps detail records p := keeps_empty.addRecords hp
    obtain ⟨hall, hcount⟩ := of_finish hfinish
    refine ⟨header, records, ⟨first, rest, hlines, hheader, hdenotes⟩, size_le,
      hkeeps.perm_range hall, hkeeps.acceptable.target_lt, hkeeps.acceptable.loads, ?_⟩
    rw [← length_edgesOf, ← hcount, hkeeps.edges, List.length_reverse]

/-- **Loading succeeds with the graph of the records**, and with no other. -/
theorem load_eq_ok (hw : WellFormed D detail content header records) {g : Graph D}
    {events : List Event} :
    load path detail content = .ok (g, events) ↔ Loaded detail header records g events := by
  obtain ⟨g', events', hload, hloaded⟩ := exists_load path hdecode hw
  rw [hload]
  constructor
  · intro h
    obtain ⟨rfl, rfl⟩ := Prod.mk.inj (Except.ok.inj h)
    exact hloaded
  · intro h
    exact congrArg Except.ok (hloaded.unique hw h)

omit hdecode in
/-- **Whatever is loaded** is the graph of the records of a snapshot. -/
theorem exists_loaded {g : Graph D} {events : List Event}
    (h : load path detail content = .ok (g, events)) :
    ∃ header records, WellFormed D detail content header records ∧
      Loaded detail header records g events := by
  have hdecode := decodes_of_load path h
  obtain ⟨header, records, hw⟩ := exists_wellFormed path hdecode h
  exact ⟨header, records, hw, (load_eq_ok path hdecode hw).1 h⟩

end Loading

/-- Every value of a loaded graph was read somewhere. -/
theorem Loaded.exists_load_eq {g : Graph D} {events : List Event}
    (h : Loaded detail header records g events)
    (hw : WellFormed D detail content header records) {value : D} (hm : value ∈ g.data) :
    ∃ json, Persist.load detail json = .ok value := by
  obtain ⟨i, hi, rfl⟩ := Array.mem_iff_getElem.1 hm
  have hsize : g.data.size = header.numVertices := h.numVertices_eq
  obtain ⟨r, hr, rfl⟩ := hw.mem_ids.1 (hsize ▸ hi)
  obtain ⟨value, hload, hvalue⟩ := h.value?_eq r hr
  rw [Graph.value?, Array.getElem?_eq_getElem hi] at hvalue
  exact ⟨r.data, hload.trans (congrArg Except.ok (Option.some_inj.1 hvalue).symm)⟩

end Records

end Superstep.Snapshot
