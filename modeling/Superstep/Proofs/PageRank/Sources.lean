import Mathlib.Data.List.Dedup
import Mathlib.Data.List.Forall2
import Superstep.PageRank.Sources
import Superstep.Proofs.EdgeList

/-!
# What is read of a source list

A source list is the list of its words, and the lines only lend them their numbers. The first word
announces how many sources follow. What is looked at beyond it is a window: the announced number of
words, or as many as may be taken, or as many as there are. `Outcome` says what follows from the
window alone, so a word behind it cannot count, and a repeated source takes its place in the window
but adds no member.

That the announced number is cut down is told before the window is looked at. It is therefore told
also when a word of the window turns out to name no vertex.

## Main definitions

* `Outcome`: the result and the events, from the words of a list
* `SameButLines`: results that differ at most in the number of a line

## Main results

* `VertexSet.contains_ofList`, `VertexSet.size_ofList`: the set of the vertices in a list
* `vertices_eq_ok_iff`, `vertices_eq_error_iff`: what the words of a window name
* `read_eq_iff`: what is read from a text
* `read_window`: all of it together
-/

namespace Superstep

/-! ### Sets of vertices -/

namespace VertexSet

/-- A set is known by its members. -/
theorem ext_contains {s t : VertexSet} (h : ∀ id, s.contains id = true ↔ t.contains id = true) :
    s = t := by
  have hunit (s : VertexSet) (id : VertexId) : s.get? id = some () ↔ s.contains id = true := by
    rw [VertexMap.contains]
    cases s.get? id <;> simp
  refine VertexMap.ext_get? fun id => Option.ext fun value => ?_
  rw [hunit, hunit, h]

theorem contains_insert (s : VertexSet) (key id : VertexId) :
    (s.insert key ()).contains id = true ↔ id = key ∨ s.contains id = true := by
  rw [VertexMap.contains, VertexMap.get?_insert]
  by_cases h : id = key
  · simp [h]
  · simp [h, VertexMap.contains]

theorem contains_foldl_insert (ids : List VertexId) (s : VertexSet) (id : VertexId) :
    (ids.foldl (fun s id => s.insert id ()) s).contains id = true ↔
      id ∈ ids ∨ s.contains id = true := by
  induction ids generalizing s with
  | nil => simp
  | cons key ids ih =>
    rw [List.foldl_cons, ih, contains_insert, List.mem_cons, or_left_comm, or_assoc]

/-- **The members of the set of a list.** -/
theorem contains_ofList (ids : List VertexId) (id : VertexId) :
    (ofList ids).contains id = true ↔ id ∈ ids := by
  rw [ofList, VertexMap.ofList, List.foldl_map, contains_foldl_insert]
  exact or_iff_left Bool.false_ne_true

/-- **Repeated vertices do not enlarge the set.** -/
theorem size_ofList (ids : List VertexId) : (ofList ids).size = ids.dedup.length := by
  have hperm : (ofList ids).keys.Perm ids.dedup := by
    refine (List.perm_ext_iff_of_nodup (VertexMap.nodup_keys _) (List.nodup_dedup _)).2 fun id => ?_
    rw [VertexMap.mem_keys_iff, contains_ofList, List.mem_dedup]
  rw [← hperm.length_eq, VertexMap.keys, List.length_map]
  rfl

end VertexSet

namespace PageRank.Sources

open Text (Located Separated Numeral utf8)

/-! ### The contract -/

/-- The word announces a number of sources. -/
def Announces (word : List Char) (n : Nat) : Prop := Numeral n word ∧ n < countLimit

/-- The set has the vertices of the list, each of them once. -/
structure IsSetOf (ids : List VertexId) (set : VertexSet) : Prop where
  members : ∀ id, set.contains id = true ↔ id ∈ ids
  size : set.size = ids.dedup.length

/-- What is told of a list that announces `n` sources. -/
def warnings (n maxSources : Nat) : List Event :=
  if maxSources < n then [.truncatedSources n maxSources] else []

/-- What is read from a list of words, each with the number of its line. -/
inductive Outcome (path : String) (maxSources : Nat) :
    List (Nat × List Char) → List Event × Except Error VertexSet → Prop where
  | nothing : Outcome path maxSources [] ([], .ok VertexMap.empty)
  /-- The first word is no count. -/
  | badCount {line : Nat} {word : List Char} {rest : List (Nat × List Char)}
      (uncounted : ∀ n, ¬ Announces word n) :
      Outcome path maxSources ((line, word) :: rest)
        ([], .error (.line path line (.badSourceCount word)))
  /-- Every word of the window names a vertex. -/
  | sources {line n : Nat} {word : List Char} {rest : List (Nat × List Char)}
      {ids : List VertexId} {set : VertexSet} (announced : Announces word n)
      (named : List.Forall₂ (fun found id => Numeral id.toNat found.2)
        (rest.take (min n maxSources)) ids)
      (isSetOf : IsSetOf ids set) :
      Outcome path maxSources ((line, word) :: rest) (warnings n maxSources, .ok set)
  /-- One does not, and is the first one. -/
  | badSource {line line' n : Nat} {word word' : List Char}
      {rest before after : List (Nat × List Char)} (announced : Announces word n)
      (window : rest.take (min n maxSources) = before ++ (line', word') :: after)
      (named : ∀ found ∈ before, ∃ id : VertexId, Numeral id.toNat found.2)
      (unnamed : ∀ id : VertexId, ¬ Numeral id.toNat word') :
      Outcome path maxSources ((line, word) :: rest)
        (warnings n maxSources, .error (.line path line' (.badSource word')))

/-- An error without the number of its line. -/
def unnumbered : Error → Error
  | .line path _ fault => .line path 0 fault
  | cause => cause

/-- The same is told, and the results differ at most in the number of a line. -/
structure SameButLines (result result' : List Event × Except Error VertexSet) : Prop where
  events : result.1 = result'.1
  outcome : result.2.mapError unnumbered = result'.2.mapError unnumbered

/-! ### The words of a window -/

theorem vertices_cons_of_some {path : String} {line : Nat} {word : List Char} {id : VertexId}
    (h : EdgeList.vertexId? word = some id) (rest : List (Nat × List Char)) :
    vertices path ((line, word) :: rest) = (vertices path rest).map (id :: ·) := by
  obtain ⟨n, hn, rfl⟩ := Option.map_eq_some_iff.1 h
  rw [vertices, hn]
  rfl

theorem vertices_cons_of_none {path : String} {line : Nat} {word : List Char}
    (h : EdgeList.vertexId? word = none) (rest : List (Nat × List Char)) :
    vertices path ((line, word) :: rest) = .error (.line path line (.badSource word)) := by
  rw [vertices, Option.map_eq_none_iff.1 h]

section Window

variable {path : String} {words : List (Nat × List Char)}

/-- **What the words name**, if every one names a vertex. -/
theorem vertices_eq_ok_iff {ids : List VertexId} :
    vertices path words = .ok ids ↔
      List.Forall₂ (fun found id => Numeral id.toNat found.2) words ids := by
  induction words generalizing ids with
  | nil =>
    rw [List.forall₂_nil_left_iff]
    exact ⟨fun h => (Except.ok.inj h).symm, fun h => congrArg Except.ok h.symm⟩
  | cons found words ih =>
    obtain ⟨line, word⟩ := found
    rw [List.forall₂_cons_left_iff]
    constructor
    · intro h
      cases hword : EdgeList.vertexId? word with
      | none =>
        rw [vertices_cons_of_none hword] at h
        cases h
      | some id =>
        rw [vertices_cons_of_some hword] at h
        obtain ⟨others, hothers, rfl⟩ := map_eq_ok.1 h
        exact ⟨id, others, EdgeList.vertexId?_eq_some_iff.1 hword, ih.1 hothers, rfl⟩
    · rintro ⟨id, others, hword, hothers, rfl⟩
      rw [vertices_cons_of_some (EdgeList.vertexId?_eq_some_iff.2 hword), ih.2 hothers]
      rfl

/-- **The first word that names no vertex** is the one that is reported. -/
theorem vertices_eq_error_iff {cause : Error} :
    vertices path words = .error cause ↔
      ∃ before line word after, words = before ++ (line, word) :: after ∧
        (∀ found ∈ before, ∃ id : VertexId, Numeral id.toNat found.2) ∧
        (∀ id : VertexId, ¬ Numeral id.toNat word) ∧ cause = .line path line (.badSource word) := by
  induction words with
  | nil =>
    constructor
    · nofun
    · rintro ⟨before, line, word, after, hwords, -⟩
      cases before <;> cases hwords
  | cons found words ih =>
    obtain ⟨line, word⟩ := found
    constructor
    · intro h
      cases hword : EdgeList.vertexId? word with
      | none =>
        rw [vertices_cons_of_none hword] at h
        exact ⟨[], line, word, words, rfl, by simp, EdgeList.vertexId?_eq_none_iff.1 hword,
          (Except.error.inj h).symm⟩
      | some id =>
        rw [vertices_cons_of_some hword] at h
        obtain ⟨before, line', word', after, rfl, hbefore, hbad⟩ := ih.1 (map_eq_error.1 h)
        refine ⟨(line, word) :: before, line', word', after, rfl, ?_, hbad⟩
        exact List.forall_mem_cons.2 ⟨⟨id, EdgeList.vertexId?_eq_some_iff.1 hword⟩, hbefore⟩
    · rintro ⟨before, line', word', after, hwords, hbefore, hbad, rfl⟩
      cases before with
      | nil =>
        obtain ⟨hfound, rfl⟩ := List.cons.inj hwords
        obtain ⟨rfl, rfl⟩ := Prod.mk.inj hfound
        exact vertices_cons_of_none (EdgeList.vertexId?_eq_none_iff.2 hbad) words
      | cons _ before =>
        obtain ⟨rfl, rfl⟩ := List.cons.inj hwords
        obtain ⟨⟨id, hword⟩, hbefore⟩ := List.forall_mem_cons.1 hbefore
        rw [vertices_cons_of_some (EdgeList.vertexId?_eq_some_iff.2 hword)]
        exact map_eq_error.2 (ih.2 ⟨before, line', word', after, rfl, hbefore, hbad, rfl⟩)

/-- The numbers of the lines show in the error only. -/
theorem mapError_vertices (words : List (Nat × List Char)) :
    (vertices path words).mapError unnumbered =
      vertices path ((words.map Prod.snd).map (0, ·)) := by
  induction words with
  | nil => rfl
  | cons found words ih =>
    obtain ⟨line, word⟩ := found
    rw [List.map_cons, List.map_cons]
    cases hword : EdgeList.vertexId? word with
    | none =>
      rw [vertices_cons_of_none hword, vertices_cons_of_none hword]
      rfl
    | some id =>
      rw [vertices_cons_of_some hword, vertices_cons_of_some hword, ← ih]
      cases vertices path words <;> rfl

end Window

/-! ### The words of a text -/

theorem mapM_decode?_utf8 (lines : List (List Char)) :
    (lines.map utf8).mapM Text.decode? = some lines := by
  induction lines with
  | nil => rfl
  | cons line lines ih =>
    rw [List.map_cons, List.mapM_cons, Text.decode?_utf8, ih]
    rfl

/-- **The words that are found in the lines** are the words of the text. -/
theorem numberedWords?_eq_some_iff {text : List Char} {words : List (Nat × List Char)} :
    numberedWords? (utf8 text) = some words ↔ Located 1 text words := by
  obtain ⟨lines, hlines, hlocated⟩ := Text.located_of_lined (Text.lines_eq_iff.1 rfl) 1
  have hfound : numberedWords? (utf8 text) = some (Text.wordsFrom 1 lines) := by
    rw [numberedWords?, hlines, mapM_decode?_utf8]
    simp only [Option.map_some, Text.wordsFrom, Nat.add_comm]
  rw [hfound, Option.some_inj]
  exact ⟨fun h => h ▸ hlocated, hlocated.unique⟩

theorem Announces.unique {word : List Char} {n n' : Nat} (h : Announces word n)
    (h' : Announces word n') : n = n' := by
  have hword : Text.natBelow? countLimit word = some n := Text.natBelow?_eq_some_iff.2 h
  rw [Text.natBelow?_eq_some_iff.2 h'] at hword
  exact (Option.some_inj.1 hword).symm

section Read

variable {path : String} {maxSources line : Nat} {text word : List Char}
  {rest : List (Nat × List Char)}

theorem read_of_nothing (h : Located 1 text []) :
    read path (utf8 text) maxSources = ([], .ok VertexMap.empty) := by
  rw [read, numberedWords?_eq_some_iff.2 h]

theorem read_of_uncounted (h : Located 1 text ((line, word) :: rest))
    (uncounted : ∀ n, ¬ Announces word n) :
    read path (utf8 text) maxSources = ([], .error (.line path line (.badSourceCount word))) := by
  have hword : Text.natBelow? countLimit word = none :=
    Text.natBelow?_eq_none_iff.2 fun n hn => Nat.not_lt.1 fun hlt => uncounted n ⟨hn, hlt⟩
  rw [read, numberedWords?_eq_some_iff.2 h]
  simp only [hword]

theorem read_of_counted {n : Nat} (h : Located 1 text ((line, word) :: rest))
    (counted : Announces word n) :
    read path (utf8 text) maxSources = (warnings n maxSources,
      (vertices path (rest.take (min n maxSources))).map VertexSet.ofList) := by
  have hword : Text.natBelow? countLimit word = some n := Text.natBelow?_eq_some_iff.2 counted
  rw [read, numberedWords?_eq_some_iff.2 h]
  simp only [hword]
  rfl

end Read

/-! ### What follows from the words -/

theorem isSetOf_ofList (ids : List VertexId) : IsSetOf ids (VertexSet.ofList ids) where
  members := VertexSet.contains_ofList ids
  size := VertexSet.size_ofList ids

theorem IsSetOf.eq_ofList {ids : List VertexId} {set : VertexSet} (h : IsSetOf ids set) :
    set = VertexSet.ofList ids :=
  VertexSet.ext_contains fun id => (h.members id).trans (VertexSet.contains_ofList ids id).symm

section Outcome

variable {path : String} {maxSources line : Nat} {word : List Char}
  {rest : List (Nat × List Char)} {result : List Event × Except Error VertexSet}

theorem outcome_of_uncounted (uncounted : ∀ n, ¬ Announces word n) :
    ([], .error (.line path line (.badSourceCount word))) = result ↔
      Outcome path maxSources ((line, word) :: rest) result := by
  constructor
  · rintro rfl
    exact .badCount uncounted
  · intro h
    cases h with
    | badCount => rfl
    | sources announced => exact absurd announced (uncounted _)
    | badSource announced => exact absurd announced (uncounted _)

theorem outcome_of_counted {n : Nat} (counted : Announces word n) :
    (warnings n maxSources,
        (vertices path (rest.take (min n maxSources))).map VertexSet.ofList) = result ↔
      Outcome path maxSources ((line, word) :: rest) result := by
  constructor
  · rintro rfl
    cases hvertices : vertices path (rest.take (min n maxSources)) with
    | ok ids => exact .sources counted (vertices_eq_ok_iff.1 hvertices) (isSetOf_ofList ids)
    | error cause =>
      obtain ⟨before, line', word', after, window, named, unnamed, rfl⟩ :=
        vertices_eq_error_iff.1 hvertices
      exact .badSource counted window named unnamed
  · intro h
    cases h with
    | badCount uncounted => exact absurd counted (uncounted n)
    | sources announced named isSetOf =>
      obtain rfl := counted.unique announced
      rw [vertices_eq_ok_iff.2 named, isSetOf.eq_ofList]
      rfl
    | badSource announced window named unnamed =>
      obtain rfl := counted.unique announced
      rw [vertices_eq_error_iff.2 ⟨_, _, _, _, window, named, unnamed, rfl⟩]
      rfl

end Outcome

/-! ### Texts -/

section Text

variable {path : String} {maxSources : Nat} {text text' : List Char}

/-- **What is read from a text** is what follows from its words. -/
theorem read_eq_iff {words : List (Nat × List Char)} {result : List Event × Except Error VertexSet}
    (h : Located 1 text words) :
    read path (utf8 text) maxSources = result ↔ Outcome path maxSources words result := by
  cases words with
  | nil =>
    rw [read_of_nothing h]
    constructor
    · rintro rfl
      exact .nothing
    · rintro ⟨⟩
      rfl
  | cons found rest =>
    by_cases counted : ∃ n, Announces found.2 n
    · obtain ⟨n, counted⟩ := counted
      rw [read_of_counted h counted]
      exact outcome_of_counted counted
    · have uncounted := not_exists.1 counted
      rw [read_of_uncounted h uncounted]
      exact outcome_of_uncounted uncounted

/-- **Nothing behind the window counts.** -/
theorem read_eq_of_window {first : Nat × List Char} {rest rest' : List (Nat × List Char)}
    (h : Located 1 text (first :: rest)) (h' : Located 1 text' (first :: rest'))
    (window : ∀ n, Announces first.2 n →
      rest'.take (min n maxSources) = rest.take (min n maxSources)) :
    read path (utf8 text') maxSources = read path (utf8 text) maxSources := by
  by_cases counted : ∃ n, Announces first.2 n
  · obtain ⟨n, counted⟩ := counted
    rw [read_of_counted h counted, read_of_counted h' counted, window n counted]
  · have uncounted := not_exists.1 counted
    rw [read_of_uncounted h uncounted, read_of_uncounted h' uncounted]

/-- **How the words are spread over lines shows in the numbers of the lines only.** -/
theorem sameButLines_of_map_snd {words words' : List (Nat × List Char)}
    (h : Located 1 text words) (h' : Located 1 text' words')
    (same : words'.map Prod.snd = words.map Prod.snd) :
    SameButLines (read path (utf8 text') maxSources) (read path (utf8 text) maxSources) := by
  have mapError_map {x : Except Error (List VertexId)} :
      (x.map VertexSet.ofList).mapError unnumbered =
        (x.mapError unnumbered).map VertexSet.ofList := by cases x <;> rfl
  cases words with
  | nil =>
    obtain rfl := List.map_eq_nil_iff.1 same
    rw [read_of_nothing h, read_of_nothing h']
    exact ⟨rfl, rfl⟩
  | cons found rest =>
    obtain ⟨⟨line', word'⟩, rest', rfl, rfl, hrest⟩ := List.map_eq_cons_iff.1 same
    by_cases counted : ∃ n, Announces found.2 n
    · obtain ⟨n, counted⟩ := counted
      rw [read_of_counted h counted, read_of_counted h' counted]
      refine ⟨rfl, ?_⟩
      rw [mapError_map, mapError_map, mapError_vertices, mapError_vertices, List.map_take, hrest,
        ← List.map_take]
    · have uncounted := not_exists.1 counted
      rw [read_of_uncounted h uncounted, read_of_uncounted h' uncounted]
      exact ⟨rfl, rfl⟩

end Text

/-- **A source list is read as far as its window goes.** Every text has its words in one way, and
what follows from them is what is read. Two texts that agree in the first word and in the window
that it announces are read alike, whatever stands behind, and two texts with the same words are read
alike but for the numbers of the lines. -/
theorem read_window (path : String) (text : List Char) (maxSources : Nat) :
    ∃ words, (∀ other, Located 1 text other ↔ other = words) ∧
      (∀ result, read path (utf8 text) maxSources = result ↔ Outcome path maxSources words result) ∧
      (∀ text' first rest rest', words = first :: rest → Located 1 text' (first :: rest') →
        (∀ n, Announces first.2 n →
          rest'.take (min n maxSources) = rest.take (min n maxSources)) →
        read path (utf8 text') maxSources = read path (utf8 text) maxSources) ∧
      ∀ text', Separated text' (words.map Prod.snd) →
        SameButLines (read path (utf8 text') maxSources) (read path (utf8 text) maxSources) := by
  obtain ⟨words, h⟩ := Text.exists_located 1 text
  refine ⟨words, fun other => ⟨fun hother => hother.unique h, fun he => he ▸ h⟩,
    fun _ => read_eq_iff h, ?_, ?_⟩
  · rintro text' first rest rest' rfl h' window
    exact read_eq_of_window h h' window
  · rintro text' ⟨words', h', same⟩
    exact sameButLines_of_map_snd h h' same

/-- Four sources are announced, and the third is none. -/
def roster : List Char := "4 1\n 1 \n x 9".toList

/-- With two places the list is read, and with three it is not. The third source is behind the
window of two, and another line for it is another line in the error. -/
theorem read_window_roster :
    read "roster" (utf8 roster) 2 = ([.truncatedSources 4 2], .ok (VertexSet.ofList [1])) ∧
      read "roster" (utf8 "4 1\n1 y".toList) 2 =
        ([.truncatedSources 4 2], .ok (VertexSet.ofList [1])) ∧
      read "roster" (utf8 roster) 3 =
        ([.truncatedSources 4 3], .error (.line "roster" 3 (.badSource ['x']))) ∧
      SameButLines (read "roster" (utf8 "\n\n4 1\n1 x 9".toList) 3)
        (read "roster" (utf8 roster) 3) := by
  have hroster : Located 1 roster [(1, ['4']), (1, ['1']), (2, ['1']), (3, ['x']), (3, ['9'])] :=
    numberedWords?_eq_some_iff.1 (by decide +kernel)
  have hother : Located 1 "4 1\n1 y".toList [(1, ['4']), (1, ['1']), (2, ['1']), (2, ['y'])] :=
    numberedWords?_eq_some_iff.1 (by decide +kernel)
  have one : Numeral (1 : VertexId).toNat ['1'] := Text.numeral_digitsOfNat 1
  have four : Announces ['4'] 4 := ⟨Text.numeral_digitsOfNat 4, by decide⟩
  have noSource : ∀ id : VertexId, ¬ Numeral id.toNat ['x'] :=
    EdgeList.vertexId?_eq_none_iff.1 (by decide)
  have isSetOf : IsSetOf [1, 1] (VertexSet.ofList [1]) :=
    (by decide : VertexSet.ofList [1, 1] = VertexSet.ofList [1]) ▸ isSetOf_ofList [1, 1]
  obtain ⟨words, hwords, htwo, hwindow, -⟩ := read_window "roster" roster 2
  obtain ⟨words', hwords', hthree, -, hspread⟩ := read_window "roster" roster 3
  obtain rfl := (hwords _).1 hroster
  obtain rfl := (hwords' _).1 hroster
  have hread := (htwo _).2 (.sources four (.cons one (.cons one .nil)) isSetOf)
  refine ⟨hread, ?_, (hthree _).2 ?_, hspread _ (Text.separated_iff.2 (by decide +kernel))⟩
  · refine (hwindow _ _ _ _ rfl hother fun n _ => ?_).trans hread
    rw [← List.take_take, ← List.take_take]
    rfl
  · have window : [(1, ['1']), (2, ['1']), (3, ['x']), (3, ['9'])].take (min 4 3) =
        [(1, ['1']), (2, ['1'])] ++ [(3, ['x'])] := rfl
    have named : ∀ found ∈ [(1, ['1']), (2, ['1'])], ∃ id : VertexId, Numeral id.toNat found.2 :=
      List.forall_mem_cons.2 ⟨⟨1, one⟩, List.forall_mem_singleton.2 ⟨1, one⟩⟩
    exact .badSource four window named noSource

end PageRank.Sources

end Superstep
