import Superstep.Proofs.Finalized
import Superstep.Proofs.Snapshot.Lines

/-!
# Snapshots read back

What a snapshot keeps of a value is up to the type of the value. Everything else is the same for all
of them, and comes back as it was: the number of vertices, the edges, and with them the topology. So
the graph that is loaded is the graph that was saved, with every value replaced by what its own text
gives back.

Reading goes over the records one by one. `Recorded` says what is known when the first `k` of them
were read: their values, and the edges that leave their vertices, the latest first.

## Main definitions

* `Returns`: a value that can be read back, and as what
* `Recorded`: what was read of a snapshot so far

## Main results

* `Recorded.addRecord`, `Recorded.addLines`: one record, and all that remain
* `Recorded.finish`: the graph that all records make
* `load_save`: a snapshot reads back
-/

namespace Superstep.Snapshot

open Text (utf8)

variable {D : Type} {g : Graph D} {f : D → D}

/-! ### What was read so far -/

/-- The first `k` records of a graph were read. -/
structure Recorded (g : Graph D) (f : D → D) (k : Nat) (p : Progress D g.numVertices) : Prop where
  edges : p.edges = (((List.range k).map UInt32.ofNat).flatMap g.edgesFrom).reverse
  values : ∀ (i : Nat) (h : i < g.numVertices),
    p.values[i] = if i < k then some (f g.data[i]) else none

theorem recorded_empty (g : Graph D) (f : D → D) :
    Recorded g f 0 (Progress.empty g.numVertices) where
  edges := rfl
  values i h := by
    rw [if_neg (Nat.not_lt_zero i)]
    exact Vector.getElem_replicate _

/-- The out-neighbours of a record become edges, and nothing else changes. -/
theorem exists_addOut {size : Nat} (p : Progress D size) {id : VertexId} (h : id.toNat < size)
    {out : List VertexId} (hout : ∀ w ∈ out, w.toNat < size) :
    ∃ p', p.addOut id h out = .ok p' ∧ p'.values = p.values ∧
      p'.edges = (out.map (Edge.mk id)).reverse ++ p.edges := by
  induction out generalizing p with
  | nil => exact ⟨p, rfl, rfl, rfl⟩
  | cons target out ih =>
    have ht := hout target List.mem_cons_self
    rw [Progress.addOut, dif_pos ht]
    obtain ⟨p', hp', hvalues, hedges⟩ := ih _ fun w hw => hout w (List.mem_cons_of_mem _ hw)
    refine ⟨p', hp', hvalues, ?_⟩
    rw [hedges, List.map_cons, List.reverse_cons, List.append_assoc, List.singleton_append]

theorem finalize_ofParts (hf : g.finalized = true) {data : Array D} (h : data.size = g.data.size)
    {edges : List Edge} (hedges : edges = g.edges.toList) (below : EdgesBelow data.size edges)
    (size_le : data.size ≤ UInt32.size) :
    (Graph.ofParts data edges below size_le).finalize = g.withData data h ∧
      (Graph.ofParts data edges below size_le).finalizeEvents = [] := by
  subst hedges
  have harranged : (Graph.ofParts data g.edges.toList below size_le).arrangedEdges =
      g.edges.toList := Edge.Arranged.arrange_eq (g.edges_ascending hf)
  constructor
  · refine Graph.ext_finalized rfl hf rfl ?_
    exact congrArg List.toArray harranged
  · have hnone : (Graph.ofParts data g.edges.toList below size_le).numRepeated = 0 := by
      rw [Graph.numRepeated, harranged]
      exact Nat.sub_self _
    rw [Graph.finalizeEvents, hnone]
    rfl

/-- **When every record was read, they make the graph**, with the values that came back. -/
theorem Recorded.finish [Inhabited D] (hf : g.finalized = true) {p : Progress D g.numVertices}
    (h : Recorded g f g.numVertices p) (size_le : g.numVertices ≤ UInt32.size) :
    p.finish g.numEdges size_le =
      .ok (g.withData (g.data.map f) (Array.size_map ..), []) := by
  have hall : p.values.toList.findIdx? Option.isNone = none := by
    refine List.findIdx?_eq_none_iff.2 fun value hm => ?_
    obtain ⟨i, hi, rfl⟩ := Vector.mem_iff_getElem.1 (Vector.mem_toList_iff.1 hm)
    rw [h.values i hi, if_pos hi]
    rfl
  have hedges : p.edges.reverse = g.edges.toList := by
    rw [h.edges, List.reverse_reverse]
    exact Graph.flatMap_edgesFrom hf
  have hlength : p.edges.length = g.numEdges := by
    rw [Graph.numEdges_eq hf, ← hedges, List.length_reverse]
  have hdata : p.values.toArray.map (·.getD default) = g.data.map f := by
    refine Array.ext (by simp [Graph.numVertices]) fun i hi _ => ?_
    have hlt : i < g.numVertices := by simpa using hi
    rw [Array.getElem_map, Array.getElem_map, Vector.getElem_toArray, h.values i hlt, if_pos hlt]
    rfl
  have hsize : (p.values.toArray.map (·.getD default)).size = g.data.size := by
    rw [hdata, Array.size_map]
  obtain ⟨hfinalize, hevents⟩ := finalize_ofParts hf hsize hedges
    (fun e he => hsize.symm ▸ p.below e (List.mem_reverse.1 he)) (hsize.symm ▸ size_le)
  have hgraph : g.withData _ hsize = g.withData (g.data.map f) (Array.size_map ..) :=
    Graph.ext_finalized hf hf hdata rfl
  rw [Progress.finish, hall]
  refine (if_pos hlength).trans ?_
  exact congrArg Except.ok (Prod.ext (hfinalize.trans hgraph) hevents)

/-- A graph that is not too large declares counts that can be read. -/
theorem fits_header (hf : g.finalized = true) (hlt : g.numVertices < UInt32.size) :
    Header.Fits ⟨g.numVertices, g.numEdges⟩ :=
  ⟨Nat.lt_trans hlt (by decide), Graph.numEdges_lt hf hlt⟩

section Persisted

variable [Persist D] {detail : Detail}

/-! ### Records -/

/-- The value `d` is saved as a canonical value, and loaded as `d'`. -/
structure Returns (detail : Detail) (d d' : D) : Prop where
  canonical : Json.Canonical 126 (Persist.save detail d)
  load_eq : Persist.load detail (Persist.save detail d) = .ok d'

/-- The record of a vertex. -/
def recordAt (g : Graph D) (detail : Detail) (i : Nat) (h : i < g.numVertices) : Record :=
  ⟨UInt32.ofNat i, g.targetsOf (UInt32.ofNat i), Persist.save detail g.data[i]⟩

theorem length_records (g : Graph D) : (records g detail).length = g.numVertices := by
  rw [records, List.length_mapIdx]
  rfl

theorem getElem_records (hf : g.finalized = true) {i : Nat} (h : i < (records g detail).length)
    (hi : i < g.numVertices) : (records g detail)[i] = recordAt g detail i hi := by
  have hout : outNeighbours g (UInt32.ofNat i) = g.targetsOf (UInt32.ofNat i) := by
    have hlt : (UInt32.ofNat i).toNat < g.topology.size := by
      rw [Graph.toNat_ofNat hi, ← Graph.topology_size hf]
      exact hi
    rw [outNeighbours, dif_pos hlt, Graph.targets_eq hf]
  simp only [records, List.getElem_mapIdx, hout, Array.getElem_toList]
  rfl

/-! ### Reading records -/

/-- **One more record.** -/
theorem Recorded.addRecord {k : Nat} {p : Progress D g.numVertices} (h : Recorded g f k p)
    (hk : k < g.numVertices) (returns : Returns detail g.data[k] (f g.data[k])) :
    ∃ p', p.addRecord detail (recordAt g detail k hk) = .ok p' ∧ Recorded g f (k + 1) p' := by
  have hid : (recordAt g detail k hk).id.toNat = k := Graph.toNat_ofNat hk
  have hlt : (recordAt g detail k hk).id.toNat < g.numVertices := hid.symm ▸ hk
  have hnew : p.values[(recordAt g detail k hk).id.toNat] = none := by
    rw [h.values _ hlt, if_neg (by omega)]
  have hout : ∀ w ∈ (recordAt g detail k hk).out, w.toNat < g.numVertices :=
    fun w hw => Graph.lt_of_mem_targetsOf hw
  obtain ⟨p₁, hp₁, hvalues, hedges⟩ := exists_addOut p hlt hout
  refine ⟨{ p₁ with values := p₁.values.set _ (some (f g.data[k])) hlt }, ?_, ?_, ?_⟩
  · rw [Progress.addRecord, dif_pos hlt, hnew]
    show ((p.addOut _ hlt _).mapError Error.snapshot >>= _) = _
    rw [hp₁]
    show ((Persist.load detail (Persist.save detail g.data[k])).mapError Error.json >>= _) = _
    rw [returns.load_eq]
    rfl
  · show p₁.edges = _
    rw [hedges, h.edges, List.range_succ, List.map_append, List.flatMap_append, List.reverse_append]
    congr 1
    rw [List.map_singleton, List.flatMap_singleton]
    rfl
  · intro i hi
    show (p₁.values.set _ (some (f g.data[k])) hlt)[i] = _
    rw [Vector.getElem_set, hid, hvalues, h.values i hi]
    by_cases hik : k = i
    · subst hik
      rw [if_pos rfl, if_pos (Nat.lt_succ_self k)]
    · rw [if_neg hik]
      by_cases hlt : i < k
      · rw [if_pos hlt, if_pos (by omega)]
      · rw [if_neg hlt, if_neg (by omega)]

variable (path : String)

/-- A record on a line of its own. -/
theorem addLines_cons {size : Nat} (p : Progress D size) {r : Record}
    (h : Json.Canonical 126 r.data) {p' : Progress D size}
    (hp : p.addRecord detail r = .ok p') (rest : List (List UInt8)) :
    p.addLines path detail (utf8 r.toJson.renderChars :: rest) = p'.addLines path detail rest := by
  obtain ⟨others, hchars⟩ : ∃ others, r.toJson.renderChars = '\x7b' :: others := ⟨_, rfl⟩
  have htrim : (Text.trim r.toJson.renderChars).isEmpty = false := by
    rw [hchars]
    exact trim_ne_nil rfl others
  rw [Progress.addLines, Text.decode?_utf8]
  show (if (Text.trim r.toJson.renderChars).isEmpty = true then _ else _) = _
  rw [htrim, if_neg Bool.false_ne_true, Record.ofText_toJson h]
  show (p.addRecord detail r >>= _) = _
  rw [hp]
  rfl

/-- **All records that remain.** -/
theorem Recorded.addLines (hf : g.finalized = true)
    (returns : ∀ (i : Nat) (h : i < g.numVertices), Returns detail g.data[i] (f g.data[i]))
    {k : Nat} {p : Progress D g.numVertices} (h : Recorded g f k p) (hk : k ≤ g.numVertices) :
    ∃ p', p.addLines path detail
        (((records g detail).drop k).map fun r => utf8 r.toJson.renderChars) = .ok p' ∧
      Recorded g f g.numVertices p' := by
  induction hn : g.numVertices - k generalizing k p with
  | zero =>
    obtain rfl : k = g.numVertices := by omega
    have hdrop : (records g detail).drop g.numVertices = [] :=
      List.drop_eq_nil_of_le (Nat.le_of_eq (length_records g))
    exact ⟨p, by rw [hdrop]; rfl, h⟩
  | succ n ih =>
    have hlt : k < g.numVertices := by omega
    have hlength : k < (records g detail).length := by rwa [length_records]
    obtain ⟨p₁, hp₁, h₁⟩ := h.addRecord hlt (returns k hlt)
    obtain ⟨p', hp', h'⟩ := ih h₁ (by omega) (by omega)
    refine ⟨p', ?_, h'⟩
    rw [List.drop_eq_getElem_cons hlength, getElem_records hf hlength hlt, List.map_cons,
      addLines_cons path p (returns k hlt).canonical hp₁, hp']

/-! ### Snapshots -/

theorem readHeader_toJson {header : Header} (fits : header.Fits) :
    readHeader path (utf8 header.toJson.renderChars) = .ok header := by
  rw [readHeader, Text.decode?_utf8, Header.ofText_toJson fits]
  rfl

theorem printable_of_mem_linesOf (hf : g.finalized = true) (hlt : g.numVertices < UInt32.size)
    (returns : ∀ (i : Nat) (h : i < g.numVertices), Returns detail g.data[i] (f g.data[i]))
    {line : Json} (hl : line ∈ linesOf g detail) : Json.Printable (utf8 line.renderChars) := by
  rcases List.mem_cons.1 hl with rfl | hl
  · exact Header.printable (fits_header hf hlt)
  · obtain ⟨r, hr, rfl⟩ := List.mem_map.1 hl
    obtain ⟨i, hi, rfl⟩ := List.mem_iff_getElem.1 hr
    have hlt : i < g.numVertices := by rwa [length_records] at hi
    rw [getElem_records hf hi hlt]
    exact Record.printable (returns i hlt).canonical

/-- **A snapshot reads back**, if every value does. -/
theorem load_save [Inhabited D] (hf : g.finalized = true) (hlt : g.numVertices < UInt32.size)
    (returns : ∀ (i : Nat) (h : i < g.numVertices), Returns detail g.data[i] (f g.data[i])) :
    ∃ text, save g detail = .ok text ∧
      load path detail (Text.encode text) =
        .ok (g.withData (g.data.map f) (Array.size_map ..), []) := by
  have hlines := lines_text fun line hl => printable_of_mem_linesOf hf hlt returns hl
  have size_le : g.numVertices ≤ UInt32.size := g.size_le
  obtain ⟨p, hp, hrecorded⟩ :=
    (recorded_empty g f).addLines path hf returns (Nat.zero_le g.numVertices)
  rw [List.drop_zero] at hp
  refine ⟨_, if_pos hf, ?_⟩
  rw [load, hlines, linesOf, List.map_cons, List.map_map]
  show (readHeader path _ >>= _) = _
  rw [readHeader_toJson path (fits_header hf hlt)]
  refine (dif_pos size_le).trans ?_
  show ((Progress.empty g.numVertices).addLines path detail
    ((records g detail).map fun r => utf8 r.toJson.renderChars) >>= _) = _
  rw [hp]
  show (p.finish g.numEdges size_le).mapError Error.snapshot = _
  rw [hrecorded.finish hf size_le]
  rfl

end Persisted

end Superstep.Snapshot
