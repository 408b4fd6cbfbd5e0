import Mathlib.Data.List.ReduceOption
import Mathlib.Order.Bounds.Basic
import Superstep.Graph.EdgeList
import Superstep.Proofs.Growth
import Superstep.Proofs.Json.Value
import Superstep.Proofs.Text.Numeral
import Superstep.Proofs.Text.Words

/-!
# Which edge lists are accepted

`Says` is the grammar of a line, without a word on how it is read: between its blanks there is
nothing or a comment, and then it says nothing, or there are at least two words, the first two of
which are numerals of vertices, and then it says an edge. A list of lines is read exactly when every
line says something, and the graph is made of what they say.

What is reported otherwise is decided by the first line that says nothing of the kind, and by that
line alone: a line that is not a text is reported as such, and any other one with its number. Lines
are judged one by one, so a text in front of a line that is not UTF-8 is read all the same, and a
fault in it comes first.

## Main definitions

* `Says`, `IsGood`: what a line says
* `Blames`, `FirstFault`: what is reported
* `MadeOf`: the graph of a list of edges

## Main results

* `readBytes_eq_ok_iff`, `readLines_eq_ok_iff`: one line, and all of them
* `firstFault_of_readLines`: the first line that is not good
* `load_grammar`: all of it together
-/

namespace Superstep.EdgeList

open Text (Trims Separated Numeral Lined utf8)

/-! ### Lines -/

/-- What the characters of a line say: nothing, or an edge. -/
inductive LineSays (line : List Char) : Option Edge → Prop where
  | nothing {core : List Char} (trims : Trims line core)
      (skipped : core = [] ∨ core.head? = some '#' ∨ core.head? = some '%') : LineSays line none
  | edge {core source target : List Char} {others : List (List Char)} {e : Edge}
      (trims : Trims line core) (words : Separated core (source :: target :: others))
      (isSource : Numeral e.source.toNat source) (isTarget : Numeral e.target.toNat target) :
      LineSays line (some e)

/-- What the bytes of a line say. They have to be a text. -/
def Says (bytes : List UInt8) (said : Option Edge) : Prop :=
  ∃ line, utf8 line = bytes ∧ LineSays line said

/-- The line says something. -/
def IsGood (bytes : List UInt8) : Prop := ∃ said, Says bytes said

/-- What is reported of a line that is not good. -/
inductive Blames (path : String) (number : Nat) (bytes : List UInt8) : Error → Prop where
  | notText (h : ∀ line, utf8 line ≠ bytes) : Blames path number bytes (.io path .invalidData)
  | short {line core : List Char} {words : List (List Char)} (text : utf8 line = bytes)
      (trims : Trims line core) (separated : Separated core words) (few : words.length < 2) :
      Blames path number bytes (.line path number (.shortEdge core))
  | noVertex {line core source target : List Char} {others : List (List Char)}
      (text : utf8 line = bytes) (trims : Trims line core)
      (separated : Separated core (source :: target :: others))
      (unnumbered : (∀ v : VertexId, ¬ Numeral v.toNat source) ∨
        ∀ v : VertexId, ¬ Numeral v.toNat target) :
      Blames path number bytes (.line path number (.badEdge core))

/-- The error belongs to the first line that is not good. -/
def FirstFault (path : String) (number : Nat) (lines : List (List UInt8)) (cause : Error) : Prop :=
  ∃ before line after, lines = before ++ line :: after ∧ (∀ other ∈ before, IsGood other) ∧
    ¬ IsGood line ∧ Blames path (number + before.length) line cause

/-! ### One line -/

theorem vertexId?_eq_some_iff {word : List Char} {v : VertexId} :
    vertexId? word = some v ↔ Numeral v.toNat word := by
  rw [vertexId?, Option.map_eq_some_iff]
  constructor
  · rintro ⟨n, hn, rfl⟩
    obtain ⟨hnumeral, hlt⟩ := Text.natBelow?_eq_some_iff.1 hn
    rwa [UInt32.toNat_ofNat_of_lt' hlt]
  · intro h
    exact ⟨v.toNat, Text.natBelow?_eq_some_iff.2 ⟨h, v.toNat_lt_size⟩, UInt32.ofNat_toNat⟩

theorem vertexId?_eq_none_iff {word : List Char} :
    vertexId? word = none ↔ ∀ v : VertexId, ¬ Numeral v.toNat word := by
  rw [Option.eq_none_iff_forall_ne_some]
  exact forall_congr' fun v => not_congr vertexId?_eq_some_iff

theorem isComment_iff {core : List Char} :
    isComment core = true ↔ core = [] ∨ core.head? = some '#' ∨ core.head? = some '%' := by
  cases core with
  | nil => simp [isComment]
  | cons c core => simp [isComment]

/-- A numeral opens no comment. -/
theorem isComment_eq_false_of_numeral {line core source : List Char} {others : List (List Char)}
    {n : Nat} (trims : Trims line core) (hwords : Separated core (source :: others))
    (hnumeral : Numeral n source) : isComment core = false := by
  obtain ⟨hhead, hne⟩ := hwords.head?_eq trims.head?
  refine Bool.eq_false_iff.2 fun hskip => ?_
  rcases isComment_iff.1 hskip with rfl | hsharp | hpercent
  · exact hne (List.head?_eq_none_iff.1 hhead.symm)
  · rcases hnumeral.of_head? '#' (hhead.symm.trans hsharp) with h | h <;> cases h
  · rcases hnumeral.of_head? '%' (hhead.symm.trans hpercent) with h | h <;> cases h

section Line

variable {line core : List Char} (trims : Trims line core)
include trims

theorem readLine_of_skipped (hskip : isComment core = true) : readLine line = .ok none := by
  rw [← Text.trim_eq_iff.2 trims] at hskip
  exact if_pos hskip

/-- A line that is not skipped is read by its words. -/
theorem readLine_of_words (hskip : isComment core = false) :
    readLine line = match Text.fields core with
      | source :: target :: _ =>
        match vertexId? source, vertexId? target with
        | some source, some target => .ok (some ⟨source, target⟩)
        | _, _ => .error (.badEdge core)
      | _ => .error (.shortEdge core) := by
  have hcore := Text.trim_eq_iff.2 trims
  have hnot : ¬ isComment (Text.trim line) = true := by simp [hcore, hskip]
  rw [← hcore]
  exact if_neg hnot

theorem readLine_of_few {words : List (List Char)} (hskip : isComment core = false)
    (hwords : Separated core words) (hfew : words.length < 2) :
    readLine line = .error (.shortEdge core) := by
  rw [readLine_of_words trims hskip, Text.separated_iff.1 hwords]
  match words, hfew with
  | [], _ => rfl
  | [_], _ => rfl

theorem readLine_of_pair {source target : List Char} {others : List (List Char)}
    (hskip : isComment core = false) (hwords : Separated core (source :: target :: others)) :
    readLine line = match vertexId? source, vertexId? target with
      | some source, some target => .ok (some ⟨source, target⟩)
      | _, _ => .error (.badEdge core) := by
  rw [readLine_of_words trims hskip, Text.separated_iff.1 hwords]

end Line

/-- **What the characters of a line say.** -/
theorem readLine_eq_ok_iff {line : List Char} {said : Option Edge} :
    readLine line = .ok said ↔ LineSays line said := by
  constructor
  · intro h
    have trims := Text.trims_trim line
    cases hskip : isComment (Text.trim line) with
    | true =>
      rw [readLine_of_skipped trims hskip] at h
      obtain rfl := Except.ok.inj h
      exact .nothing trims (isComment_iff.1 hskip)
    | false =>
      match hwords : Text.fields (Text.trim line) with
      | [] | [_] =>
        rw [readLine_of_few trims hskip (Text.separated_iff.2 hwords) (by simp)] at h
        cases h
      | source :: target :: others =>
        have separated := Text.separated_iff.2 hwords
        rw [readLine_of_pair trims hskip separated] at h
        split at h
        · rename_i v w hv hw
          obtain rfl := Except.ok.inj h
          exact .edge trims separated (vertexId?_eq_some_iff.1 hv) (vertexId?_eq_some_iff.1 hw)
        · cases h
  · intro h
    cases h with
    | nothing trims skipped => exact readLine_of_skipped trims (isComment_iff.2 skipped)
    | edge trims words isSource isTarget =>
      have hskip := isComment_eq_false_of_numeral trims words isSource
      rw [readLine_of_pair trims hskip words,
        vertexId?_eq_some_iff.2 isSource, vertexId?_eq_some_iff.2 isTarget]

/-- What is wrong with a line that says nothing of the kind. -/
theorem readLine_eq_error {line : List Char} {fault : LineFault}
    (h : readLine line = .error fault) :
    ∃ core, Trims line core ∧
      ((∃ words, Separated core words ∧ words.length < 2 ∧ fault = .shortEdge core) ∨
        ∃ source target others, Separated core (source :: target :: others) ∧
          ((∀ v : VertexId, ¬ Numeral v.toNat source) ∨
            ∀ v : VertexId, ¬ Numeral v.toNat target) ∧ fault = .badEdge core) := by
  have trims := Text.trims_trim line
  refine ⟨Text.trim line, trims, ?_⟩
  cases hskip : isComment (Text.trim line) with
  | true =>
    rw [readLine_of_skipped trims hskip] at h
    cases h
  | false =>
    match hwords : Text.fields (Text.trim line) with
    | [] | [_] =>
      have separated := Text.separated_iff.2 hwords
      rw [readLine_of_few trims hskip separated (by simp)] at h
      exact .inl ⟨_, separated, by simp, (Except.error.inj h).symm⟩
    | source :: target :: others =>
      have separated := Text.separated_iff.2 hwords
      rw [readLine_of_pair trims hskip separated] at h
      refine .inr ⟨source, target, others, separated, ?_⟩
      cases hsource : vertexId? source with
      | none =>
        rw [hsource] at h
        exact ⟨.inl (vertexId?_eq_none_iff.1 hsource), (Except.error.inj h).symm⟩
      | some v =>
        cases htarget : vertexId? target with
        | none =>
          rw [hsource, htarget] at h
          exact ⟨.inr (vertexId?_eq_none_iff.1 htarget), (Except.error.inj h).symm⟩
        | some w =>
          rw [hsource, htarget] at h
          cases h

/-- **What the bytes of a line say.** -/
theorem readBytes_eq_ok_iff {path : String} {number : Nat} {bytes : List UInt8}
    {said : Option Edge} : readBytes path number bytes = .ok said ↔ Says bytes said := by
  rw [readBytes]
  constructor
  · intro h
    split at h
    · cases h
    · rename_i line hline
      exact ⟨line, Text.decode?_eq_some_iff.1 hline, readLine_eq_ok_iff.1 (mapError_eq_ok.1 h)⟩
  · rintro ⟨line, rfl, hsays⟩
    rw [Text.decode?_utf8]
    exact mapError_eq_ok.2 (readLine_eq_ok_iff.2 hsays)

/-- A line that is not read is not good, and is reported for what is wrong with it. -/
theorem blames_of_readBytes {path : String} {number : Nat} {bytes : List UInt8} {cause : Error}
    (h : readBytes path number bytes = .error cause) :
    ¬ IsGood bytes ∧ Blames path number bytes cause := by
  constructor
  · rintro ⟨said, hsays⟩
    rw [readBytes_eq_ok_iff.2 hsays] at h
    cases h
  · rw [readBytes] at h
    split at h
    · rename_i hnone
      obtain rfl := Except.error.inj h
      refine .notText fun line hline => ?_
      rw [← hline, Text.decode?_utf8] at hnone
      cases hnone
    · rename_i line hline
      have htext := Text.decode?_eq_some_iff.1 hline
      cases hread : readLine line with
      | ok said =>
        rw [hread] at h
        cases h
      | error fault =>
        rw [hread] at h
        obtain rfl := Except.error.inj h
        obtain ⟨core, trims, ⟨words, separated, few, rfl⟩ |
          ⟨source, target, others, separated, unnumbered, rfl⟩⟩ := readLine_eq_error hread
        · exact .short htext trims separated few
        · exact .noVertex htext trims separated unnumbered

/-! ### All lines -/

theorem reduceOption_cons (said : Option Edge) (rest : List (Option Edge)) :
    (said :: rest).reduceOption = said.toList ++ rest.reduceOption := by
  cases said <;> rfl

theorem exists_said_iff {lines : List (List UInt8)} :
    (∃ said, List.Forall₂ Says lines said) ↔ ∀ line ∈ lines, IsGood line := by
  induction lines with
  | nil => simp
  | cons line lines ih =>
    rw [List.forall_mem_cons, ← ih]
    constructor
    · rintro ⟨said, hsays⟩
      cases hsays with
      | cons hline hlines => exact ⟨⟨_, hline⟩, ⟨_, hlines⟩⟩
    · rintro ⟨⟨said, hline⟩, ⟨others, hlines⟩⟩
      exact ⟨said :: others, .cons hline hlines⟩

/-- **What the lines say.** -/
theorem readLines_eq_ok_iff {path : String} {number : Nat} {lines : List (List UInt8)}
    {edges : List Edge} : readLines path number lines = .ok edges ↔
      ∃ said, List.Forall₂ Says lines said ∧ said.reduceOption = edges := by
  induction lines generalizing number edges with
  | nil =>
    constructor
    · intro h
      exact ⟨[], .nil, Except.ok.inj h⟩
    · rintro ⟨said, hsays, rfl⟩
      cases hsays
      rfl
  | cons bytes lines ih =>
    rw [readLines, bind_eq_ok]
    constructor
    · rintro ⟨said, hline, h⟩
      obtain ⟨rest, hlines, h⟩ := bind_eq_ok.1 h
      obtain ⟨others, hothers, rfl⟩ := ih.1 hlines
      refine ⟨said :: others, .cons (readBytes_eq_ok_iff.1 hline) hothers, ?_⟩
      rw [reduceOption_cons]
      exact Except.ok.inj h
    · rintro ⟨said, hsays, rfl⟩
      cases hsays with
      | @cons _ said _ others hline hothers =>
        have hlines : readLines path (number + 1) lines = .ok others.reduceOption :=
          ih.2 ⟨others, hothers, rfl⟩
        refine ⟨said, readBytes_eq_ok_iff.2 hline, bind_eq_ok.2 ⟨_, hlines, ?_⟩⟩
        rw [reduceOption_cons]

/-- **The first line that is not good** decides what is reported. -/
theorem firstFault_of_readLines {path : String} {number : Nat} {lines : List (List UInt8)}
    {cause : Error} (h : readLines path number lines = .error cause) :
    FirstFault path number lines cause := by
  induction lines generalizing number with
  | nil => cases h
  | cons bytes lines ih =>
    rw [readLines] at h
    cases hline : readBytes path number bytes with
    | error other =>
      rw [hline] at h
      obtain rfl := Except.error.inj h
      obtain ⟨hbad, hblames⟩ := blames_of_readBytes hline
      exact ⟨[], bytes, lines, rfl, by simp, hbad, hblames⟩
    | ok said =>
      have hgood : IsGood bytes := ⟨said, readBytes_eq_ok_iff.1 hline⟩
      cases hlines : readLines path (number + 1) lines with
      | error other =>
        rw [hline] at h
        change (readLines path (number + 1) lines >>= _) = _ at h
        rw [hlines] at h
        obtain rfl := Except.error.inj h
        obtain ⟨before, line, after, rfl, hbefore, hbad, hblames⟩ := ih hlines
        have hbefore := List.forall_mem_cons.2 ⟨hgood, hbefore⟩
        refine ⟨bytes :: before, line, after, rfl, hbefore, hbad, ?_⟩
        rwa [List.length_cons, Nat.add_comm before.length, ← Nat.add_assoc]
      | ok rest =>
        rw [hline] at h
        change (readLines path (number + 1) lines >>= _) = _ at h
        rw [hlines] at h
        cases h

/-! ### The graph of the edges -/

section Made

variable {D : Type} [Inhabited D]

/-- The graph of a list of edges: it has them in order, repeated ones included, and no more vertices
than there have to be. -/
structure MadeOf (edges : List Edge) (g : Graph D) : Prop where
  finalized : g.finalized = false
  edges_eq : g.edges.toList = edges
  numVertices : IsLeast {n | ∀ e ∈ edges, e.source.toNat < n ∧ e.target.toNat < n} g.numVertices
  values : ∀ value ∈ g.data, value = default

theorem MadeOf.addEdge {edges : List Edge} {g : Graph D} (h : MadeOf edges g) (e : Edge) :
    MadeOf (edges ++ [e]) (g.addEdge e) where
  finalized := rfl
  edges_eq := by
    show ((g.addVertex (Graph.largerEnd e)).edges.push e).toList = _
    rw [Array.toList_push, Graph.edges_addVertex, h.edges_eq]
  numVertices := by
    obtain ⟨hbound, hleast⟩ := h.numVertices
    rw [Graph.numVertices_addEdge]
    constructor
    · refine List.forall_mem_append.2 ⟨fun d hd => ?_, List.forall_mem_singleton.2 ?_⟩
      · obtain ⟨hsource, htarget⟩ := hbound d hd
        omega
      · omega
    · intro n hn
      obtain ⟨hedges, he⟩ := List.forall_mem_append.1 hn
      obtain ⟨hsource, htarget⟩ := List.forall_mem_singleton.1 he
      have hle := hleast hedges
      omega
  values := Graph.eq_default_of_mem_addVertex h.values (Graph.largerEnd e)

theorem madeOf_addEdges (edges : List Edge) :
    MadeOf edges ((Graph.empty : Graph D).addEdges edges) := by
  induction edges using List.reverseRecOn with
  | nil =>
    refine ⟨rfl, rfl, ⟨?_, fun _ _ => Nat.zero_le _⟩, ?_⟩
    · simp
    · simp [Graph.addEdges, Graph.empty]
  | append_singleton edges e ih =>
    rw [Graph.addEdges, List.foldl_append]
    exact ih.addEdge e

/-- **An edge list is accepted line by line, and its first fault is reported.** Every content has
its lines in one way. It is loaded if and only if all of them are good, and then the graph is made
of the edges that they say, in order, and is not finalized. Otherwise the error is that of the first
line that is not good: that the file is not a text, or what is wrong with the line and its number,
which counts every line before it. -/
theorem load_grammar (path : String) (content : List UInt8) :
    ∃ lines, (∀ other, Lined content other ↔ other = lines) ∧
      ((∃ g : Graph D, load path content = .ok g) ↔ ∀ line ∈ lines, IsGood line) ∧
      (∀ said, List.Forall₂ Says lines said →
        ∃ g : Graph D, load path content = .ok g ∧ MadeOf said.reduceOption g) ∧
      ∀ cause, (load path content : Except Error (Graph D)) = .error cause →
        FirstFault path 1 lines cause := by
  have hmade : ∀ said, List.Forall₂ Says (Text.lines content) said →
      ∃ g : Graph D, load path content = .ok g ∧ MadeOf said.reduceOption g := by
    intro said hsays
    have hread : read path content = .ok said.reduceOption :=
      readLines_eq_ok_iff.2 ⟨said, hsays, rfl⟩
    exact ⟨_, map_eq_ok.2 ⟨_, hread, rfl⟩, madeOf_addEdges said.reduceOption⟩
  refine ⟨Text.lines content, fun other => ?_, ?_, hmade, fun cause h => ?_⟩
  · rw [← Text.lines_eq_iff, eq_comm]
  · rw [← exists_said_iff]
    constructor
    · rintro ⟨g, h⟩
      obtain ⟨edges, hread, -⟩ := map_eq_ok.1 h
      obtain ⟨said, hsays, -⟩ := readLines_eq_ok_iff.1 hread
      exact ⟨said, hsays⟩
    · rintro ⟨said, hsays⟩
      obtain ⟨g, h, -⟩ := hmade said hsays
      exact ⟨g, h⟩
  · exact firstFault_of_readLines (map_eq_error.1 h)

end Made

/-- Comments, blanks of several kinds, and an edge with more behind it, under every end of line. -/
def survey : List UInt8 := Text.encode " # two edges\r\n\n\u00A0+0 002\t0.5 x\n1\u30000"

/-- A line that is too short, behind a comment and a blank line and before bytes without text. -/
def stub : List UInt8 := Text.encode "0 1\n% half an edge\n\n 2 \n" ++ [255, 10]

/-- One list is loaded, and of the two faults in the other one the first is reported. -/
theorem load_grammar_survey :
    (∃ g : Graph UInt8, load "survey" survey = .ok g ∧ MadeOf [⟨0, 2⟩, ⟨1, 0⟩] g) ∧
      FirstFault "stub" 1 (Text.lines stub) (.line "stub" 4 (.shortEdge ['2'])) := by
  have hsurvey : read "survey" survey = .ok [⟨0, 2⟩, ⟨1, 0⟩] := by decide +kernel
  have hstub : read "stub" stub = .error (.line "stub" 4 (.shortEdge ['2'])) := by decide +kernel
  constructor
  · obtain ⟨lines, hlines, -, hmade, -⟩ := load_grammar (D := UInt8) "survey" survey
    obtain rfl := (hlines _).1 (Text.lines_eq_iff.1 rfl)
    obtain ⟨said, hsays, hsaid⟩ := readLines_eq_ok_iff.1 hsurvey
    exact hsaid ▸ hmade said hsays
  · obtain ⟨lines, hlines, -, -, hfault⟩ := load_grammar (D := UInt8) "stub" stub
    obtain rfl := (hlines _).1 (Text.lines_eq_iff.1 rfl)
    exact hfault _ (map_eq_error.2 hstub)

end Superstep.EdgeList
