import Mathlib.Data.List.Dedup
import Superstep.Proofs.Snapshot.Rearrangement

/-!
# What a header declares

A reader compares the number of edges that a header declares with the number of targets that the
records list. Finalizing the graph then drops the repeated ones. So the check does not say how many
edges the graph has: it has as many as the header declares only if no record lists a target twice.
The vertices are counted once, and their number is always the declared one.

A graph that is saved again declares its own counts, which are therefore not always those that were
read.

## Main definitions

* `Sized`: the size of a loaded graph next to its header

## Main results

* `Edge.arrange_perm_dedup`: arranged edges are counted once each
* `Header.fits_of_ofText`: counts that were read can be read again
* `size_of_load`: the size of every loaded graph
-/

namespace Superstep

/-- Arranging edges keeps one of each. -/
theorem Edge.arrange_perm_dedup (edges : List Edge) : (Edge.arrange edges).Perm edges.dedup := by
  have hnodup : (Edge.arrange edges).Nodup :=
    (Edge.ascending_arrange edges).imp fun hlt heq => Nat.ne_of_lt hlt (congrArg Edge.key heq)
  refine (List.perm_ext_iff_of_nodup hnodup (List.nodup_dedup _)).2 fun e => ?_
  rw [Edge.mem_arrange, List.mem_dedup]

namespace Snapshot

open Text (utf8)

/-! ### Headers -/

theorem lt_of_readCount {s rest : Json.Bytes} {n : Nat} (h : Header.readCount s = .ok (n, rest)) :
    n < countLimit := by
  obtain ⟨⟨number, behind⟩, -, h⟩ := bind_eq_ok.1 h
  obtain ⟨count, hcount, h⟩ := bind_eq_ok.1 h
  obtain ⟨rfl, -⟩ := Prod.mk.inj (Except.ok.inj h)
  cases number with
  | natural n =>
    rw [Json.Number.natBelow] at hcount
    split at hcount
    · rename_i hlt
      exact Except.ok.inj hcount ▸ hlt
    · cases hcount
  | negative n => cases hcount
  | real w => cases hcount

/-- The counts that were found so far fit in sixty-four bits. -/
structure Header.Partial.Fits (found : Header.Partial) : Prop where
  numVertices : ∀ n, found.numVertices = some n → n < countLimit
  numEdges : ∀ n, found.numEdges = some n → n < countLimit

theorem Header.Partial.Fits.readField {name : String} {found next : Header.Partial}
    {s rest : Json.Bytes} (fits : found.Fits)
    (h : Header.readField name found s = .ok (next, rest)) : next.Fits := by
  rw [Header.readField] at h
  -- a count of either kind, or a field that is passed over
  split at h
  · split at h
    · cases h
    · obtain ⟨behind, -, h⟩ := bind_eq_ok.1 h
      obtain ⟨⟨n, behind⟩, hn, h⟩ := bind_eq_ok.1 h
      obtain ⟨rfl, -⟩ := Prod.mk.inj (Except.ok.inj h)
      exact ⟨fun m hm => Option.some_inj.1 hm ▸ lt_of_readCount hn, fits.numEdges⟩
  · split at h
    · split at h
      · cases h
      · obtain ⟨behind, -, h⟩ := bind_eq_ok.1 h
        obtain ⟨⟨n, behind⟩, hn, h⟩ := bind_eq_ok.1 h
        obtain ⟨rfl, -⟩ := Prod.mk.inj (Except.ok.inj h)
        exact ⟨fits.numVertices, fun m hm => Option.some_inj.1 hm ▸ lt_of_readCount hn⟩
    · obtain ⟨behind, -, h⟩ := bind_eq_ok.1 h
      obtain ⟨behind, -, h⟩ := bind_eq_ok.1 h
      obtain ⟨rfl, -⟩ := Prod.mk.inj (Except.ok.inj h)
      exact fits

theorem fits_of_fromObject {depth : Nat} {s rest : Json.Bytes} {header : Header}
    (h : Header.ofText.fromObject depth s = .ok (header, rest)) : header.Fits := by
  obtain ⟨⟨found, behind⟩, hfields, h⟩ := bind_eq_ok.1 h
  have hfound : found.Fits := Json.preserves_readFieldsFrom
    (fun _ _ _ _ _ fits hfield => fits.readField hfield) ⟨by simp, by simp⟩ hfields
  obtain ⟨numVertices, numEdges⟩ := found
  cases numVertices with
  | none => cases h
  | some n =>
    cases numEdges with
    | none => cases h
    | some m =>
      obtain ⟨behind, -, h⟩ := bind_eq_ok.1 h
      obtain ⟨rfl, -⟩ := Prod.mk.inj (Except.ok.inj h)
      exact ⟨hfound.numVertices n rfl, hfound.numEdges m rfl⟩

theorem lt_of_readItem {first : Bool} {s rest : Json.Bytes} {n : Nat}
    (h : readItem first Header.readCount s = .ok (n, rest)) : n < countLimit := by
  obtain ⟨behind, -, h⟩ := bind_eq_ok.1 h
  cases behind with
  | none => cases h
  | some behind => exact lt_of_readCount h

theorem fits_of_fromArray {depth : Nat} {s rest : Json.Bytes} {header : Header}
    (h : Header.ofText.fromArray depth s = .ok (header, rest)) : header.Fits := by
  obtain ⟨⟨n, behind⟩, hn, h⟩ := bind_eq_ok.1 h
  obtain ⟨⟨m, behind⟩, hm, h⟩ := bind_eq_ok.1 h
  obtain ⟨behind, -, h⟩ := bind_eq_ok.1 h
  obtain ⟨rfl, -⟩ := Prod.mk.inj (Except.ok.inj h)
  exact ⟨lt_of_readItem hn, lt_of_readItem hm⟩

theorem exists_of_opening {α : Type} {bracket : UInt8} {depth : Nat} {read : Nat → Json.Reader α}
    {s rest : Json.Bytes} {a : α} (h : Json.opening bracket depth read s = .ok (a, rest)) :
    ∃ depth s, read depth s = .ok (a, rest) := by
  rw [Json.opening] at h
  split at h
  · cases h
  · split at h
    · cases depth with
      | zero => cases h
      | succ depth => exact ⟨depth, _, h⟩
    · cases h

/-- **Counts that were read can be read again.** -/
theorem Header.fits_of_ofText {s : Json.Bytes} {header : Header}
    (h : Header.ofText s = .ok header) : header.Fits := by
  obtain ⟨⟨read, rest⟩, hread, h⟩ := bind_eq_ok.1 h
  obtain ⟨-, h⟩ := (ite_eq_iff.1 h).resolve_right fun fault => nomatch fault.2
  obtain rfl := Except.ok.inj h
  rw [readEither] at hread
  split at hread
  · obtain ⟨depth, s, h⟩ := exists_of_opening hread
    exact fits_of_fromArray h
  · obtain ⟨depth, s, h⟩ := exists_of_opening hread
    exact fits_of_fromObject h

/-! ### Repeated targets -/

/-- No edge is repeated if no record repeats a target. -/
theorem nodup_edgesOf {records : List Record} (distinct : (records.map Record.id).Nodup) :
    (edgesOf records).Nodup ↔ ∀ r ∈ records, r.out.Nodup := by
  have hrow : ∀ r : Record, (r.out.map (Edge.mk r.id)).Nodup ↔ r.out.Nodup := fun r =>
    List.nodup_map_iff fun _ _ h => (Edge.mk.inj h).2
  rw [edgesOf, List.nodup_flatMap]
  constructor
  · rintro ⟨hrows, -⟩ r hr
    exact (hrow r).1 (hrows r hr)
  · intro h
    refine ⟨fun r hr => (hrow r).2 (h r hr), (List.pairwise_map.1 distinct).imp ?_⟩
    intro r r' hne e he he'
    obtain ⟨w, -, rfl⟩ := List.mem_map.1 he
    obtain ⟨w', -, heq⟩ := List.mem_map.1 he'
    exact hne (Edge.mk.inj heq).1.symm

/-! ### Sizes -/

section Sizes

variable {D : Type} [Persist D] {detail : Detail} {header : Header} {records : List Record}
  {content : List UInt8} {g : Graph D} {events : List Event}

/-- The first line of a graph that is saved declares its counts. -/
theorem exists_save_header (hf : g.finalized = true)
    (fits : Header.Fits ⟨g.numVertices, g.numEdges⟩) (detail : Detail) :
    ∃ text line rest, save g detail = .ok text ∧
      Text.lines (Text.encode text) = line :: rest ∧
      Header.ofText line = .ok ⟨g.numVertices, g.numEdges⟩ := by
  refine ⟨_, utf8 (Header.toJson ⟨g.numVertices, g.numEdges⟩).renderChars,
    Text.lines (utf8 (((records g detail).map Record.toJson).flatMap
      fun line => line.renderChars ++ ['\n'])), if_pos hf, ?_, Header.ofText_toJson fits⟩
  rw [Text.encode_ofList, linesOf, List.flatMap_cons, Text.utf8_append, Text.utf8_append,
    List.append_assoc]
  exact Text.lines_append (Header.printable fits) _

/-- The size of a loaded graph, next to what its header declares. -/
structure Sized (header : Header) (records : List Record) (g : Graph D) : Prop where
  numVertices_eq : g.numVertices = header.numVertices
  /-- Every edge that the records list counts once. -/
  numEdges_eq : g.numEdges = (edgesOf records).dedup.length
  numEdges_le : g.numEdges ≤ header.numEdges
  numEdges_eq_iff : g.numEdges = header.numEdges ↔ ∀ r ∈ records, r.out.Nodup
  /-- Saved again, the graph declares the counts that it has. -/
  saved : ∀ detail, ∃ text line rest, save g detail = .ok text ∧
    Text.lines (Text.encode text) = line :: rest ∧
    Header.ofText line = .ok ⟨g.numVertices, g.numEdges⟩

theorem WellFormed.header_fits (hw : WellFormed D detail content header records) : header.Fits := by
  obtain ⟨first, rest, -, hheader, -⟩ := hw.lines
  exact Header.fits_of_ofText hheader

theorem WellFormed.length_edgesOf (hw : WellFormed D detail content header records) :
    (edgesOf records).length = header.numEdges := by
  rw [Snapshot.length_edgesOf, hw.count]

theorem Loaded.numEdges_eq (h : Loaded detail header records g events) :
    g.numEdges = (edgesOf records).dedup.length := by
  rw [Graph.numEdges_eq h.finalized, h.edges_eq, (Edge.arrange_perm_dedup _).length_eq]

theorem Loaded.sized (h : Loaded detail header records g events)
    (hw : WellFormed D detail content header records) : Sized header records g := by
  have hle : g.numEdges ≤ header.numEdges := by
    rw [h.numEdges_eq, ← hw.length_edgesOf]
    exact (List.dedup_sublist _).length_le
  constructor
  · exact h.numVertices_eq
  · exact h.numEdges_eq
  · exact hle
  · rw [← nodup_edgesOf hw.distinct, ← List.dedup_eq_self, h.numEdges_eq, ← hw.length_edgesOf]
    constructor
    · exact (List.dedup_sublist _).eq_of_length
    · intro heq
      rw [heq]
  · have hfits : Header.Fits ⟨g.numVertices, g.numEdges⟩ :=
      ⟨h.numVertices_eq ▸ hw.header_fits.numVertices,
        Nat.lt_of_le_of_lt hle hw.header_fits.numEdges⟩
    exact exists_save_header h.finalized hfits

/-- **The size of a loaded graph.** A text that is loaded is a snapshot, and whatever its header and
its records are, the graph has as many vertices as the header declares, and as many edges as the
records list without repeating one. These are at most as many as the header declares, and exactly
as many if and only if no record lists a target twice; the repeated ones are told. Saved again, the
graph declares the counts that it has. -/
theorem size_of_load [Inhabited D] {path : String}
    (h : load path detail content = .ok (g, events)) :
    (∃ header records, WellFormed D detail content header records) ∧
    ∀ header records, WellFormed D detail content header records → Sized header records g ∧
      events = droppedEvents (header.numEdges - g.numEdges) := by
  have hdecode := decodes_of_load path h
  refine ⟨exists_wellFormed path hdecode h, fun header records hw => ?_⟩
  have hloaded := (load_eq_ok path hdecode hw).1 h
  refine ⟨hloaded.sized hw, ?_⟩
  rw [hloaded.events_eq, hw.length_edgesOf, Graph.numEdges_eq hloaded.finalized, hloaded.edges_eq]

end Sizes

/-- The records list three targets, one of them twice. Two edges are left, and saved again the
graph declares two. -/
theorem size_of_load_pairText :
    ∃ (g : Graph (PageRank.VertexState Binary64)) (events : List Event),
      load "pair" .index pairText = .ok (g, events) ∧
      WellFormed (PageRank.VertexState Binary64) .index pairText ⟨2, 3⟩ pairRecords ∧
      g.numVertices = 2 ∧ g.numEdges = 2 ∧ events = [.droppedDuplicates 1] ∧
      ∃ text line rest, save g .index = .ok text ∧ Text.lines (Text.encode text) = line :: rest ∧
        Header.ofText line = .ok ⟨2, 2⟩ := by
  obtain ⟨g, events, h, -⟩ := exists_load "pair" decode?_pairText wellFormed_pairText
  obtain ⟨-, hsize⟩ := size_of_load h
  obtain ⟨hsized, hevents⟩ := hsize _ _ wellFormed_pairText
  have hvertices : g.numVertices = 2 := hsized.numVertices_eq
  have hedges : g.numEdges = 2 := hsized.numEdges_eq.trans (by decide)
  have hsaved := hsized.saved .index
  rw [hedges] at hevents
  rw [hvertices, hedges] at hsaved
  exact ⟨g, events, h, wellFormed_pairText, hvertices, hedges, hevents, hsaved⟩

/-- So a graph does not always have the size that its header declares. -/
theorem size_need_not_be_declared :
    ¬ ∀ (detail : Detail) (path : String) (content : List UInt8) (header : Header)
      (records : List Record) (g : Graph (PageRank.VertexState Binary64)) (events : List Event),
      WellFormed (PageRank.VertexState Binary64) detail content header records →
      load path detail content = .ok (g, events) →
        g.numVertices = header.numVertices ∧ g.numEdges = header.numEdges := by
  intro hall
  obtain ⟨g, events, h, hloaded⟩ := exists_load "pair" decode?_pairText wellFormed_pairText
  obtain ⟨-, hedges⟩ := hall _ _ _ _ _ _ _ wellFormed_pairText h
  have hrepeats := (hloaded.sized wellFormed_pairText).numEdges_eq_iff.1 hedges
  exact absurd (hrepeats ⟨1, [0, 0], .object []⟩ List.mem_cons_self) (by decide)

end Snapshot

end Superstep
