import Superstep.PageRank.VertexState
import Superstep.Proofs.Snapshot.Acceptance

/-!
# The order of a snapshot

Records may stand in any order, blank lines may stand between them, and the targets of a record may
stand in any order as well. None of it changes whether a text is accepted, nor which graph it makes.

Two texts are related by `Rearranged` when one can be made from the other in these ways. Such texts
have the same records up to the order of records and of targets, so that what `WellFormed` and
`Loaded` say of one of them they say of the other.

## Main definitions

* `Describes`: what the lines of a snapshot say of the graph
* `Rearranged`: texts with the same records in another order

## Main results

* `WellFormed.rearranged`, `Loaded.rearranged`: order is ignored
* `load_spec`: acceptance, the loaded graph, and that order is ignored
-/

namespace Superstep.Snapshot

/-! ### Records in another order -/

/-- Two records of a vertex, up to the order of its targets. -/
structure SameRecord (r r' : Record) : Prop where
  id_eq : r.id = r'.id
  data_eq : r.data = r'.data
  out_perm : r.out.Perm r'.out

/-- The same records, up to their order and the order of their targets. -/
def SameRecords (records records' : List Record) : Prop :=
  ∃ between, records.Perm between ∧ List.Forall₂ SameRecord between records'

namespace SameRecords

variable {records records' : List Record} (h : SameRecords records records')
include h

theorem exists_of_mem {r' : Record} (hr' : r' ∈ records') : ∃ r ∈ records, SameRecord r r' := by
  obtain ⟨between, hperm, hsame⟩ := h
  have hbetween : ∃ r ∈ between, SameRecord r r' := by
    clear hperm
    induction hsame with
    | nil => cases hr'
    | cons hr _ ih =>
      rcases List.mem_cons.1 hr' with rfl | hr'
      · exact ⟨_, List.mem_cons_self, hr⟩
      · obtain ⟨r, hm, hrr'⟩ := ih hr'
        exact ⟨r, List.mem_cons_of_mem _ hm, hrr'⟩
  obtain ⟨r, hr, hrr'⟩ := hbetween
  exact ⟨r, hperm.mem_iff.2 hr, hrr'⟩

theorem perm_map_id : (records.map Record.id).Perm (records'.map Record.id) := by
  obtain ⟨between, hperm, hsame⟩ := h
  refine (hperm.map Record.id).trans (.of_eq ?_)
  clear hperm
  induction hsame with
  | nil => rfl
  | cons hr _ ih => rw [List.map_cons, List.map_cons, hr.id_eq, ih]

theorem perm_edgesOf : (edgesOf records).Perm (edgesOf records') := by
  obtain ⟨between, hperm, hsame⟩ := h
  refine (hperm.flatMap_right _).trans ?_
  clear hperm
  induction hsame with
  | nil => rfl
  | cons hr _ ih =>
    rw [List.flatMap_cons, hr.id_eq]
    exact (hr.out_perm.map _).append ih

end SameRecords

/-! ### Lines in another order -/

/-- Two lines with records of one vertex, up to the order of its targets, or twice the same. -/
def SameLine (line line' : List UInt8) : Prop :=
  line = line' ∨ ∃ r r', Denotes line r ∧ Denotes line' r' ∧ SameRecord r r'

/-- Texts with the same header line and the same records, up to the order of the records, the order
of targets within a record, and blank lines behind the header. -/
def Rearranged (content content' : List UInt8) : Prop :=
  ∃ first rest rest' between, Text.lines content = first :: rest ∧
    Text.lines content' = first :: rest' ∧
    (recordLines rest).Perm between ∧ List.Forall₂ SameLine between (recordLines rest')

theorem SameRecord.symm {r r' : Record} (h : SameRecord r r') : SameRecord r' r :=
  ⟨h.id_eq.symm, h.data_eq.symm, h.out_perm.symm⟩

theorem SameLine.symm {line line' : List UInt8} (h : SameLine line line') :
    SameLine line' line := by
  rcases h with rfl | ⟨r, r', hr, hr', hsame⟩
  · exact .inl rfl
  · exact .inr ⟨r', r, hr', hr, hsame.symm⟩

theorem Rearranged.symm {content content' : List UInt8} (h : Rearranged content content') :
    Rearranged content' content := by
  obtain ⟨first, rest, rest', between, hlines, hlines', hperm, hsame⟩ := h
  have hsymm : List.Forall₂ SameLine (recordLines rest') between :=
    .flip (hsame.imp fun _ _ => SameLine.symm)
  have hcomp : Relation.Comp (List.Forall₂ SameLine) List.Perm (recordLines rest')
      (recordLines rest) := ⟨between, hsymm, hperm.symm⟩
  rw [List.forall₂_comp_perm_eq_perm_comp_forall₂] at hcomp
  obtain ⟨between', hperm', hsame'⟩ := hcomp
  exact ⟨first, rest', rest, between', hlines', hlines, hperm', hsame'⟩

theorem forall₂_denotes_of_sameLine {lines lines' : List (List UInt8)} {records : List Record}
    (hsame : List.Forall₂ SameLine lines lines') (h : List.Forall₂ Denotes lines records) :
    ∃ records', List.Forall₂ Denotes lines' records' ∧
      List.Forall₂ SameRecord records records' := by
  induction hsame generalizing records with
  | nil =>
    cases h
    exact ⟨[], .nil, .nil⟩
  | cons hline _ ih =>
    cases h with
    | @cons _ r _ records hr h =>
      obtain ⟨records', hdenotes, hrecords⟩ := ih h
      rcases hline with rfl | ⟨d, d', hd, hd', hsame⟩
      · exact ⟨r :: records', .cons hr hdenotes, .cons ⟨rfl, rfl, .refl _⟩ hrecords⟩
      · obtain rfl := hd.unique hr
        exact ⟨d' :: records', .cons hd' hdenotes, .cons hsame hrecords⟩

/-- Rearranged lines denote rearranged records. -/
theorem exists_sameRecords {lines between lines' : List (List UInt8)} {records : List Record}
    (hperm : lines.Perm between) (hsame : List.Forall₂ SameLine between lines')
    (h : List.Forall₂ Denotes lines records) :
    ∃ records', List.Forall₂ Denotes lines' records' ∧ SameRecords records records' := by
  obtain ⟨middle, hmiddle, hrecords⟩ := List.perm_comp_forall₂ hperm.symm h
  obtain ⟨records', hdenotes, hsameRecords⟩ := forall₂_denotes_of_sameLine hsame hmiddle
  exact ⟨records', hdenotes, middle, hrecords.symm, hsameRecords⟩

/-! ### Order is ignored -/

section Order

variable {D : Type} [Persist D] {detail : Detail} {content content' : List UInt8}
  {header : Header} {records records' : List Record}

/-- **A text that is rearranged stays well formed.** -/
theorem WellFormed.rearranged (h : WellFormed D detail content header records)
    (hr : Rearranged content content') :
    ∃ records', WellFormed D detail content' header records' ∧ SameRecords records records' := by
  obtain ⟨first, rest, hlines, hheader, hdenotes⟩ := h.lines
  obtain ⟨first', rest', rest'', between, hlines', hlines'', hperm, hsame⟩ := hr
  obtain ⟨rfl, rfl⟩ := List.cons.inj (hlines.symm.trans hlines')
  obtain ⟨records', hdenotes', hrecords⟩ := exists_sameRecords hperm hsame hdenotes
  refine ⟨records', ⟨⟨first, rest'', hlines'', hheader, hdenotes'⟩, h.size_le, ?_, ?_, ?_, ?_⟩,
    hrecords⟩
  · have hids := (hrecords.perm_map_id.map UInt32.toNat).symm
    rw [List.map_map, List.map_map] at hids
    exact hids.trans h.ids
  · intro r' hr' w hw
    obtain ⟨r, hr, hrr'⟩ := hrecords.exists_of_mem hr'
    exact h.target_lt r hr w (hrr'.out_perm.mem_iff.2 hw)
  · intro r' hr'
    obtain ⟨r, hr, hrr'⟩ := hrecords.exists_of_mem hr'
    rw [← hrr'.data_eq]
    exact h.loads r hr
  · rw [← length_edgesOf, ← hrecords.perm_edgesOf.length_eq, length_edgesOf, h.count]

/-- **Records in another order make the same graph.** -/
theorem Loaded.rearranged {g : Graph D} {events : List Event}
    (h : Loaded detail header records g events) (hr : SameRecords records records') :
    Loaded detail header records' g events := by
  have harrange : Edge.arrange (edgesOf records) = Edge.arrange (edgesOf records') := by
    refine Edge.Arranged.eq (Edge.ascending_arrange _) (Edge.ascending_arrange _) fun e => ?_
    rw [Edge.mem_arrange, Edge.mem_arrange, hr.perm_edgesOf.mem_iff]
  constructor
  · exact h.finalized
  · exact h.numVertices_eq
  · rw [h.edges_eq, harrange]
  · intro r' hr'
    obtain ⟨r, hm, hrr'⟩ := hr.exists_of_mem hr'
    rw [← hrr'.data_eq, ← hrr'.id_eq]
    exact h.value?_eq r hm
  · rw [h.events_eq, harrange, hr.perm_edgesOf.length_eq]

variable [Inhabited D]

theorem load_of_rearranged (path : String)
    (hdecode : ∀ line ∈ Text.lines content, (Text.decode? line).isSome = true)
    (hdecode' : ∀ line ∈ Text.lines content', (Text.decode? line).isSome = true)
    (hr : Rearranged content content') {g : Graph D} {events : List Event}
    (h : load path detail content = .ok (g, events)) :
    load path detail content' = .ok (g, events) := by
  obtain ⟨header, records, hw⟩ := exists_wellFormed path hdecode h
  obtain ⟨records', hw', hrecords⟩ := hw.rearranged hr
  have hloaded := (load_eq_ok path hdecode hw).1 h
  exact (load_eq_ok path hdecode' hw').2 (hloaded.rearranged hrecords)

end Order

/-! ### Acceptance and the loaded graph -/

section Load

variable {D : Type} [Persist D]

/-- What the lines of a snapshot say of the graph: its rows are the distinct targets of each record
and the records that list a vertex, both in strict order, and its values are those of the
records. -/
structure Describes (detail : Detail) (header : Header) (records : List Record) (g : Graph D) :
    Prop where
  finalized : g.finalized = true
  numVertices_eq : g.numVertices = header.numVertices
  size_topology : g.topology.size = header.numVertices
  targets_ascend : ∀ v h, (g.topology.targets v h).Pairwise (· < ·)
  mem_targets : ∀ r ∈ records, ∀ h w, w ∈ g.topology.targets r.id h ↔ w ∈ r.out
  sources_ascend : ∀ v h, (g.topology.sources v h).Pairwise (· < ·)
  mem_sources : ∀ v h u, u ∈ g.topology.sources v h ↔ ∃ r ∈ records, r.id = u ∧ v ∈ r.out
  value?_eq : ∀ r ∈ records,
    ∃ value, Persist.load detail r.data = .ok value ∧ g.value? r.id = some value

variable {detail : Detail} {content : List UInt8} {header : Header} {records : List Record}

theorem Loaded.mem_edges {g : Graph D} {events : List Event}
    (h : Loaded detail header records g events) {v w : VertexId} :
    ⟨v, w⟩ ∈ g.edges.toList ↔ ∃ r ∈ records, r.id = v ∧ w ∈ r.out := by
  rw [h.edges_eq, Edge.mem_arrange, mem_edgesOf]

theorem Loaded.describes {g : Graph D} {events : List Event}
    (hw : WellFormed D detail content header records)
    (h : Loaded detail header records g events) : Describes detail header records g := by
  constructor
  · exact h.finalized
  · exact h.numVertices_eq
  · exact (Graph.topology_size h.finalized).symm.trans h.numVertices_eq
  · intro v hv
    rw [Graph.targets_eq h.finalized]
    exact Graph.pairwise_targetsOf h.finalized v
  · intro r hr hv w
    rw [Graph.targets_eq h.finalized, Graph.mem_targetsOf, h.mem_edges]
    constructor
    · rintro ⟨d, hd, hid, hw'⟩
      obtain rfl := List.inj_on_of_nodup_map hw.distinct hd hr hid
      exact hw'
    · intro hw'
      exact ⟨r, hr, rfl, hw'⟩
  · intro v hv
    rw [Graph.sources_eq h.finalized]
    exact Graph.pairwise_sourcesOf h.finalized v
  · intro v hv u
    rw [Graph.sources_eq h.finalized, Graph.mem_sourcesOf, h.mem_edges]
  · exact h.value?_eq

/-- **Loading accepts exactly the well-formed snapshots and ignores their order.** A text whose
lines are UTF-8 is accepted if and only if it is well formed, the graph that is loaded is the one
that its lines describe, and a rearranged text is accepted as well if this one is, and makes the
same graph. -/
theorem load_spec [Inhabited D] (path : String) (detail : Detail) (content : List UInt8)
    (hdecode : ∀ line ∈ Text.lines content, (Text.decode? line).isSome = true) :
    ((∃ (g : Graph D) (events : List Event), load path detail content = .ok (g, events)) ↔
      ∃ header records, WellFormed D detail content header records) ∧
    (∀ (g : Graph D) (events : List Event), load path detail content = .ok (g, events) →
      ∀ header records, WellFormed D detail content header records →
        Describes detail header records g) ∧
    ∀ content' : List UInt8,
      (∀ line ∈ Text.lines content', (Text.decode? line).isSome = true) →
      Rearranged content content' →
      ∀ (g : Graph D) (events : List Event),
        load path detail content' = .ok (g, events) ↔
          load path detail content = .ok (g, events) := by
  refine ⟨⟨?_, ?_⟩, ?_, ?_⟩
  · rintro ⟨g, events, h⟩
    exact exists_wellFormed path hdecode h
  · rintro ⟨header, records, hw⟩
    obtain ⟨g, events, h, -⟩ := exists_load path hdecode hw
    exact ⟨g, events, h⟩
  · intro g events h header records hw
    exact Loaded.describes hw ((load_eq_ok path hdecode hw).1 h)
  · intro content' hdecode' hr g events
    exact ⟨load_of_rearranged path hdecode' hdecode hr.symm,
      load_of_rearranged path hdecode hdecode' hr⟩

end Load

/-- The records of two vertices, the second one first, with a target that is repeated. -/
def pairRecords : List Record := [⟨1, [0, 0], .object []⟩, ⟨0, [1], .object []⟩]

/-- The lines of a snapshot of two vertices, one of which is blank. -/
def pairLines : List (List Char) :=
  [(Header.toJson ⟨2, 3⟩).renderChars, [' ']] ++ pairRecords.map fun r => r.toJson.renderChars

def pairText : List UInt8 := Text.utf8 (pairLines.flatMap (· ++ ['\n']))

theorem lines_pairText : Text.lines pairText = pairLines.map Text.utf8 := by decide +kernel

theorem decode?_pairText :
    ∀ line ∈ Text.lines pairText, (Text.decode? line).isSome = true := by
  intro line hm
  rw [lines_pairText] at hm
  obtain ⟨chars, -, rfl⟩ := List.mem_map.1 hm
  rw [Text.decode?_utf8]
  rfl

theorem wellFormed_pairText :
    WellFormed (PageRank.VertexState Binary64) .index pairText ⟨2, 3⟩ pairRecords where
  lines := by
    have hrecords : recordLines (Text.utf8 [' '] ::
        pairRecords.map fun r => Text.utf8 r.toJson.renderChars) =
          pairRecords.map fun r => Text.utf8 r.toJson.renderChars := by decide +kernel
    refine ⟨_, _, lines_pairText, Header.ofText_toJson ⟨by decide, by decide⟩, ?_⟩
    show List.Forall₂ Denotes (recordLines (Text.utf8 [' '] ::
      pairRecords.map fun r => Text.utf8 r.toJson.renderChars)) pairRecords
    rw [hrecords]
    exact .cons (Record.ofText_toJson (.object (by simp) (by simp)))
      (.cons (Record.ofText_toJson (.object (by simp) (by simp))) .nil)
  size_le := by decide
  ids := by decide
  target_lt := by simp [pairRecords]
  loads := by
    intro r hr
    have hdata : r.data = .object [] := by
      rcases List.mem_cons.1 hr with rfl | hr
      · rfl
      · rw [List.mem_singleton.1 hr]
    rw [hdata]
    exact ⟨_, rfl⟩
  count := by decide

theorem load_spec_pairText :
    (∀ line ∈ Text.lines pairText, (Text.decode? line).isSome = true) ∧
      ∃ (g : Graph (PageRank.VertexState Binary64)) (events : List Event),
        load "pair" .index pairText = .ok (g, events) ∧
          Describes .index ⟨2, 3⟩ pairRecords g := by
  have spec :=
    load_spec (D := PageRank.VertexState Binary64) "pair" .index pairText decode?_pairText
  obtain ⟨g, events, h⟩ := spec.1.2 ⟨_, _, wellFormed_pairText⟩
  exact ⟨decode?_pairText, g, events, h, spec.2.1 g events h _ _ wellFormed_pairText⟩

end Superstep.Snapshot
