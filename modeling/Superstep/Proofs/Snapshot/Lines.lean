import Superstep.Proofs.Json.VertexMap
import Superstep.Snapshot.Basic

/-!
# Lines of a snapshot read back

A header and a record are written as objects with their fields in a fixed order, and their readers
accept them in any. In both directions every field is one step of the state that the reader keeps.

## Main results

* `Header.ofText_toJson`, `Record.ofText_toJson`: lines read back
* `lines_text`: the text of a snapshot is its lines
-/

namespace Superstep.Snapshot

open Text (utf8 utf8_append)
open Json (Reads ReadsFields EndsNumber Printable)

/-! ### Objects -/

/-- An object is read behind its brace, with the depth that is left. -/
theorem readEither_object {α : Type} {depth : Nat} {fromObject fromArray : Nat → Json.Reader α}
    (s : Json.Bytes) :
    readEither (depth + 1) fromObject fromArray (123 :: s) = fromObject depth s := rfl

theorem readAll_object {α : Type} {fromObject fromArray : Nat → Json.Reader α}
    {fields : List (String × Json)} {a : α}
    (h : fromObject 126 (utf8 (Json.renderFields fields)) = .ok (a, [])) :
    Json.readAll (readEither Json.maxDepth fromObject fromArray)
      (utf8 (Json.object fields).renderChars) = .ok a := by
  show (readEither (126 + 1) fromObject fromArray (123 :: utf8 (Json.renderFields fields)) >>= _) =
    _
  rw [readEither_object, h]
  rfl

/-! ### Headers -/

/-- Both counts fit in sixty-four bits. -/
structure Header.Fits (h : Header) : Prop where
  numVertices : h.numVertices < countLimit
  numEdges : h.numEdges < countLimit

theorem reads_readCount {n : Nat} (h : n < countLimit) : Reads Header.readCount (.ofNat n) n :=
  Json.reads_readNatural h h

theorem Header.readsFields {h : Header} (fits : h.Fits) :
    ReadsFields Json.readString Header.readField {}
      [("num_vertices", .ofNat h.numVertices), ("num_edges", .ofNat h.numEdges)]
      ⟨some h.numVertices, some h.numEdges⟩ := by
  have hvertices : ∀ rest, EndsNumber rest → Header.readField "num_vertices" {}
      (58 :: (utf8 (Json.ofNat h.numVertices).renderChars ++ rest)) =
        .ok (⟨some h.numVertices, none⟩, rest) := by
    intro rest hrest
    show (Header.readCount _ >>= _) = _
    rw [reads_readCount fits.numVertices rest hrest]
    rfl
  have hedges : ∀ rest, EndsNumber rest → Header.readField "num_edges" ⟨some h.numVertices, none⟩
      (58 :: (utf8 (Json.ofNat h.numEdges).renderChars ++ rest)) =
        .ok (⟨some h.numVertices, some h.numEdges⟩, rest) := by
    intro rest hrest
    show (Header.readCount _ >>= _) = _
    rw [reads_readCount fits.numEdges rest hrest]
    rfl
  exact .cons (Json.readsKey_readString _) hvertices
    (.cons (Json.readsKey_readString _) hedges (.nil _))

/-- **A header reads back.** -/
theorem Header.ofText_toJson {h : Header} (fits : h.Fits) :
    Header.ofText (utf8 h.toJson.renderChars) = .ok h := by
  have hread := Json.readFieldsFrom_length (Header.readsFields fits) []
  rw [List.append_nil] at hread
  refine readAll_object ?_
  show (Json.readFieldsFrom _ _ _ _ _ _ >>= _) = _
  rw [hread]
  rfl

/-! ### Records -/

theorem reads_readOut {depth : Nat} (hdepth : 0 < depth) (out : List VertexId) :
    Reads (Record.readOut depth) (.array (out.map fun v => .ofNat v.toNat)) out := by
  obtain ⟨depth, rfl⟩ : ∃ n, depth = n + 1 := ⟨depth - 1, by omega⟩
  intro rest _
  refine Json.readArray_render (fun v _ => ⟨?_, Json.reads_readVertexId v⟩) rest
  exact Json.Canonical.starts (.number (Json.toNat_lt_size v) : Json.Canonical 0 (.ofNat v.toNat))

theorem Record.readsFields {r : Record} (h : Json.Canonical 126 r.data) :
    ReadsFields Json.readString (Record.readField 126) {}
      [("id", .ofNat r.id.toNat), ("out", .array (r.out.map fun v => .ofNat v.toNat)),
        ("data", r.data)] ⟨some r.id, some r.out, some r.data⟩ := by
  have hid : ∀ rest, EndsNumber rest → Record.readField 126 "id" {}
      (58 :: (utf8 (Json.ofNat r.id.toNat).renderChars ++ rest)) =
        .ok (⟨some r.id, none, none⟩, rest) := by
    intro rest hrest
    show (Json.readVertexId _ >>= _) = _
    rw [Json.reads_readVertexId r.id rest hrest]
    rfl
  have hout : ∀ rest, EndsNumber rest → Record.readField 126 "out" ⟨some r.id, none, none⟩
      (58 :: (utf8 (Json.array (r.out.map fun v => .ofNat v.toNat)).renderChars ++ rest)) =
        .ok (⟨some r.id, some r.out, none⟩, rest) := by
    intro rest hrest
    show (Record.readOut 126 _ >>= _) = _
    rw [reads_readOut (by decide) r.out rest hrest]
    rfl
  have hdata : ∀ rest, EndsNumber rest → Record.readField 126 "data" ⟨some r.id, some r.out, none⟩
      (58 :: (utf8 r.data.renderChars ++ rest)) =
        .ok (⟨some r.id, some r.out, some r.data⟩, rest) := by
    intro rest hrest
    show (Json.readValue 126 _ >>= _) = _
    rw [Json.readValue_render h rest hrest]
    rfl
  exact .cons (Json.readsKey_readString _) hid (.cons (Json.readsKey_readString _) hout
    (.cons (Json.readsKey_readString _) hdata (.nil _)))

/-- **A record reads back.** -/
theorem Record.ofText_toJson {r : Record} (h : Json.Canonical 126 r.data) :
    Record.ofText (utf8 r.toJson.renderChars) = .ok r := by
  have hread := Json.readFieldsFrom_length (Record.readsFields h) []
  rw [List.append_nil] at hread
  refine readAll_object ?_
  show (Json.readFieldsFrom _ _ _ _ _ _ >>= _) = _
  rw [hread]
  rfl

/-! ### Lines -/

theorem printable_ofNat {n : Nat} (h : n < UInt64.size) :
    Printable (utf8 (Json.ofNat n).renderChars) :=
  Json.Canonical.printable (.number h : Json.Canonical 0 (.ofNat n))

theorem Header.printable {h : Header} (fits : h.Fits) : Printable (utf8 h.toJson.renderChars) := by
  refine Printable.cons (by decide) (Json.printable_renderFields ?_)
  intro field hm
  simp only [List.mem_cons, List.not_mem_nil, or_false] at hm
  rcases hm with rfl | rfl
  · exact printable_ofNat fits.numVertices
  · exact printable_ofNat fits.numEdges

theorem Record.printable {r : Record} (h : Json.Canonical 126 r.data) :
    Printable (utf8 r.toJson.renderChars) := by
  refine Printable.cons (by decide) (Json.printable_renderFields ?_)
  intro field hm
  simp only [List.mem_cons, List.not_mem_nil, or_false] at hm
  rcases hm with rfl | rfl | rfl
  · exact printable_ofNat (Json.toNat_lt_size r.id)
  · refine Printable.cons (by decide) (Json.printable_renderItems ?_)
    intro item hi
    obtain ⟨v, -, rfl⟩ := List.mem_map.1 hi
    exact printable_ofNat (Json.toNat_lt_size v)
  · exact h.printable

/-- **The text of a snapshot is its lines.** -/
theorem lines_text {values : List Json} (h : ∀ value ∈ values, Printable (utf8 value.renderChars)) :
    Text.lines (Text.encode (String.ofList
      (values.flatMap fun value => value.renderChars ++ ['\n']))) =
      values.map fun value => utf8 value.renderChars := by
  have hbytes : utf8 (values.flatMap fun value => value.renderChars ++ ['\n']) =
      (values.map fun value => utf8 value.renderChars).flatMap (· ++ [10]) := by
    clear h
    induction values with
    | nil => rfl
    | cons value values ih =>
      rw [List.flatMap_cons, utf8_append, ih, utf8_append]
      rfl
  rw [Text.encode_ofList, hbytes]
  refine Text.lines_flatMap fun line hm => ?_
  obtain ⟨value, hv, rfl⟩ := List.mem_map.1 hm
  exact h value hv

/-- What opens with a character that is not blank is not blank. -/
theorem trim_ne_nil {c : Char} (h : Text.isBlank c = false) (rest : List Char) :
    (Text.trim (c :: rest)).isEmpty = false := by
  rw [List.isEmpty_eq_false_iff, Text.trim, List.dropWhile_cons_of_neg (by simp [h]), Ne,
    List.reverse_eq_nil_iff, List.dropWhile_eq_nil_iff]
  intro hall
  have := hall c (by simp)
  rw [h] at this
  exact Bool.false_ne_true this

end Superstep.Snapshot
