import Superstep.Proofs.Adjacency
import Superstep.Proofs.Lookup
import Superstep.Proofs.Text.Bytes
import Superstep.Proofs.Text.Numeral
import Superstep.Query

/-!
# Ranked results

Entries are ranked by an order that leaves no two entries of a vector undecided: words are ordered
by the total order of the format, whether they are numbers or not, and of entries with the same word
the smaller vertex comes first. A list is sorted by such an order in one way only, so the ranking
does not depend on how the entries of a vector come up, and the first `k` entries of it are the
beginning of the first `k + 1`.

What is written about a vertex is a list of natural numbers between single spaces, so the numbers
can be read back, and nothing else stands in a file of results.

## Main definitions

* `Binary64.TotallyBelow`: the total order of words
* `Precedes`: when an entry stands before another one
* `Ranks`: the first `k` keys of a vector
* `answered`, `record`: the vertices that have a line, and the numbers in it

## Main results

* `Binary64.totalKey_lt_iff`: keys are ordered as words are
* `mergeSort_outranks_eq`: the ranking does not depend on the order in which entries come up
* `ranks_topK`: the vertices of a line are ranked
* `writeResults_ranks`: what is written, what is answered, and what is read back
-/

namespace Superstep

/-! ### The total order of words -/

namespace Binary64

/-- The total order of words. Words of negative sign come first. Of two with the same sign, the one
that is farther from zero comes last if the sign is positive, and first if it is negative. -/
def TotallyBelow (x y : Binary64) : Prop :=
  match x.isNegative, y.isNegative with
  | true, false => True
  | false, true => False
  | false, false => x.magnitude < y.magnitude
  | true, true => y.magnitude < x.magnitude

/-- Keys are ordered as words are. -/
theorem totalKey_lt_iff {x y : Binary64} : x.totalKey < y.totalKey ↔ x.TotallyBelow y := by
  rw [TotallyBelow, totalKey, totalKey]
  cases x.isNegative <;> cases y.isNegative
  case false.false => simp
  case false.true =>
    simp only [Bool.false_eq_true, if_true, if_false, iff_false]
    omega
  case true.false =>
    simp only [Bool.false_eq_true, if_true, if_false, iff_true]
    omega
  case true.true => simp

/-- A word is known by its key. -/
theorem totalKey_inj {x y : Binary64} : x.totalKey = y.totalKey ↔ x = y := by
  refine ⟨fun h => ?_, congrArg _⟩
  obtain ⟨x⟩ := x
  obtain ⟨y⟩ := y
  have hx := x.toNat_lt
  have hy := y.toNat_lt
  have hbits : x.toNat = y.toNat := by
    simp only [totalKey, isNegative, magnitude, decide_eq_true_eq] at h
    split at h <;> split at h <;> omega
  rw [UInt64.toNat_inj.1 hbits]

end Binary64

namespace PageRank

/-! ### The order of entries -/

/-- Whether an entry stands before another one: its weight is greater in the total order, or it is
the same word and the vertex is smaller. -/
def Precedes (a b : VertexId × Binary64) : Prop :=
  b.2.TotallyBelow a.2 ∨ a.2 = b.2 ∧ a.1 < b.1

theorem precedes_iff {a b : VertexId × Binary64} :
    Precedes a b ↔
      b.2.totalKey < a.2.totalKey ∨ a.2.totalKey = b.2.totalKey ∧ a.1.toNat < b.1.toNat := by
  rw [Precedes, Binary64.totalKey_lt_iff, Binary64.totalKey_inj, UInt32.lt_iff_toNat_lt]

theorem outranks_iff {a b : VertexId × Binary64} :
    outranks a b = true ↔
      b.2.totalKey < a.2.totalKey ∨ a.2.totalKey = b.2.totalKey ∧ a.1.toNat ≤ b.1.toNat := by
  simp [outranks, UInt32.le_iff_toNat_le]

theorem outranks_trans (a b c : VertexId × Binary64) (hab : outranks a b = true)
    (hbc : outranks b c = true) : outranks a c = true := by
  rw [outranks_iff] at hab hbc ⊢
  omega

theorem outranks_total (a b : VertexId × Binary64) : (outranks a b || outranks b a) = true := by
  rw [Bool.or_eq_true, outranks_iff, outranks_iff]
  omega

theorem precedes_asymm (a b : VertexId × Binary64) (hab : Precedes a b) : ¬ Precedes b a := by
  rw [precedes_iff] at hab ⊢
  omega

/-- An entry that may stand before another one stands before it, if their keys are different. -/
theorem precedes_of_outranks {a b : VertexId × Binary64} (h : outranks a b = true)
    (hne : a.1 ≠ b.1) : Precedes a b := by
  have hne : a.1.toNat ≠ b.1.toNat := fun heq => hne (UInt32.toNat_inj.1 heq)
  rw [outranks_iff] at h
  rw [precedes_iff]
  omega

/-- Sorted entries with different keys are in strict order. -/
theorem pairwise_precedes_mergeSort {entries : List (VertexId × Binary64)}
    (h : (entries.map Prod.fst).Nodup) : (entries.mergeSort outranks).Pairwise Precedes := by
  have hnodup : ((entries.mergeSort outranks).map Prod.fst).Nodup :=
    ((List.mergeSort_perm entries outranks).map Prod.fst).nodup_iff.2 h
  have hsorted := List.pairwise_mergeSort outranks_trans outranks_total entries
  exact hsorted.imp₂ (fun _ _ => precedes_of_outranks) (List.pairwise_map.1 hnodup)

/-- **The ranking does not depend on the order in which the entries come up.** -/
theorem mergeSort_outranks_eq {ppr : Sparse Binary64} {entries : List (VertexId × Binary64)}
    (h : entries.Perm ppr.entries) :
    entries.mergeSort outranks = ppr.entries.mergeSort outranks := by
  refine eq_of_pairwise_asymm precedes_asymm
    (pairwise_precedes_mergeSort ((h.map Prod.fst).nodup_iff.2 ppr.nodup_keys))
    (pairwise_precedes_mergeSort ppr.nodup_keys) fun entry => ?_
  rw [List.mem_mergeSort, List.mem_mergeSort, h.mem_iff]

/-! ### The first entries -/

/-- Keys are ordered as their entries are. -/
def KeyPrecedes (ppr : Sparse Binary64) (id other : VertexId) : Prop :=
  ∃ x y, ppr.get? id = some x ∧ ppr.get? other = some y ∧ Precedes (id, x) (other, y)

/-- The first `k` keys of a vector by rank. -/
structure Ranks (ppr : Sparse Binary64) (k : Nat) (ids : List VertexId) : Prop where
  length_eq : ids.length = min k ppr.size
  nodup : ids.Nodup
  isKey : ∀ id ∈ ids, id ∈ ppr.keys
  /-- Of two that follow one another, the first stands before the second. -/
  consecutive : ids.IsChain (KeyPrecedes ppr)
  /-- They all stand before the keys that are left out. -/
  before_rest : ∀ id ∈ ids, ∀ other ∈ ppr.keys, other ∉ ids → KeyPrecedes ppr id other

/-- The vertices that are ranked first. -/
def rankedIds (ppr : Sparse Binary64) (k : Nat) : List VertexId := (topK ppr k).map Prod.fst

theorem length_topK (ppr : Sparse Binary64) (k : Nat) : (topK ppr k).length = min k ppr.size := by
  rw [topK, List.length_take, List.length_mergeSort, VertexMap.size]

theorem mem_ranking {ppr : Sparse Binary64} {entry : VertexId × Binary64} :
    entry ∈ ppr.entries.mergeSort outranks ↔ ppr.get? entry.1 = some entry.2 := by
  rw [List.mem_mergeSort, VertexMap.get?_eq_some_iff]

/-- Entries of a ranking that stand in order have keys in order. -/
theorem keyPrecedes_of_precedes {ppr : Sparse Binary64} {a b : VertexId × Binary64}
    (ha : a ∈ ppr.entries.mergeSort outranks) (hb : b ∈ ppr.entries.mergeSort outranks)
    (h : Precedes a b) : KeyPrecedes ppr a.1 b.1 :=
  ⟨a.2, b.2, mem_ranking.1 ha, mem_ranking.1 hb, h⟩

/-- **The vertices of a line are ranked.** -/
theorem ranks_topK (ppr : Sparse Binary64) (k : Nat) : Ranks ppr k (rankedIds ppr k) := by
  have hmem : ∀ entry ∈ topK ppr k, entry ∈ ppr.entries.mergeSort outranks :=
    fun entry h => List.mem_of_mem_take h
  have hsorted := pairwise_precedes_mergeSort ppr.nodup_keys
  have hkeys : ((ppr.entries.mergeSort outranks).map Prod.fst).Nodup :=
    ((List.mergeSort_perm ppr.entries outranks).map Prod.fst).nodup_iff.2 ppr.nodup_keys
  refine ⟨?_, ?_, fun id hid => ?_, ?_, fun id hid other hother hrest => ?_⟩
  · rw [rankedIds, List.length_map, length_topK]
  · exact hkeys.sublist ((List.take_sublist ..).map _)
  · obtain ⟨entry, hentry, rfl⟩ := List.mem_map.1 hid
    exact List.mem_map_of_mem (List.mem_mergeSort.1 (hmem entry hentry))
  · refine List.Pairwise.isChain (List.pairwise_map.2 ?_)
    refine (hsorted.sublist (List.take_sublist k _)).imp_of_mem fun ha hb hab => ?_
    exact keyPrecedes_of_precedes (hmem _ ha) (hmem _ hb) hab
  · obtain ⟨entry, hentry, rfl⟩ := List.mem_map.1 hid
    obtain ⟨left, hleft, rfl⟩ := List.mem_map.1 hother
    have hleft : left ∈ ppr.entries.mergeSort outranks := List.mem_mergeSort.2 hleft
    -- An entry that is not among the first stands behind them, and the whole is sorted.
    have hdrop : left ∈ (ppr.entries.mergeSort outranks).drop k := by
      rw [← List.take_append_drop k (ppr.entries.mergeSort outranks)] at hleft
      exact (List.mem_append.1 hleft).resolve_left fun h => hrest (List.mem_map_of_mem h)
    rw [← List.take_append_drop k (ppr.entries.mergeSort outranks)] at hsorted
    exact keyPrecedes_of_precedes (hmem _ hentry) hleft
      ((List.pairwise_append.1 hsorted).2.2 _ hentry _ hdrop)

theorem rankedIds_prefix (ppr : Sparse Binary64) (k : Nat) :
    rankedIds ppr k <+: rankedIds ppr (k + 1) :=
  (List.take_prefix_take_left (Nat.le_succ k)).map _

end PageRank

/-! ### Numbers between spaces -/

namespace Text

/-- The natural numbers between the spaces of a line, if there is nothing else. -/
def numbers? (line : List UInt8) : Option (List Nat) :=
  (decode? line).bind fun line => (line.splitOn ' ').mapM (natBelow? countLimit)

end Text

namespace PageRank

/-- The line of numbers. -/
def lineOf (numbers : List Nat) : List Char := spaced (numbers.map Text.digitsOfNat)

theorem spaced_eq_intercalate (words : List (List Char)) :
    spaced words = [' '].intercalate words := by
  fun_induction spaced words with
  | case1 => rfl
  | case2 word => simp
  | case3 word rest hne ih =>
    obtain ⟨next, rest, rfl⟩ := List.exists_cons_of_ne_nil hne
    rw [ih, List.intercalate_cons_cons, List.append_assoc, List.singleton_append]

theorem mem_spaced {words : List (List Char)} {c : Char} (h : c ∈ spaced words) :
    c = ' ' ∨ ∃ word ∈ words, c ∈ word := by
  fun_induction spaced words with
  | case1 => cases h
  | case2 word => exact .inr ⟨word, List.mem_singleton_self word, h⟩
  | case3 word rest hne ih =>
    rcases List.mem_append.1 h with hword | hrest
    · exact .inr ⟨word, List.mem_cons_self, hword⟩
    · rcases List.mem_cons.1 hrest with hspace | hrest
      · exact .inl hspace
      · exact (ih hrest).imp_right fun ⟨word, hmem, hc⟩ => ⟨word, List.mem_cons_of_mem _ hmem, hc⟩

/-- A line has no control in it. -/
theorem le_of_mem_lineOf {numbers : List Nat} {c : Char} (h : c ∈ lineOf numbers) :
    32 ≤ c.toNat := by
  rcases mem_spaced h with rfl | ⟨word, hword, hc⟩
  · decide
  · obtain ⟨n, -, rfl⟩ := List.mem_map.1 hword
    have := Text.toNat_of_isDigit (Text.isDigit_of_mem_digitsOfNat c hc)
    omega

/-- Numbers are read back from the line that they are written to. -/
theorem numbers?_utf8_lineOf {numbers : List Nat} (hne : numbers ≠ [])
    (h : ∀ n ∈ numbers, n < countLimit) :
    Text.numbers? (Text.utf8 (lineOf numbers)) = some numbers := by
  have hsplit : (lineOf numbers).splitOn ' ' = numbers.map Text.digitsOfNat := by
    rw [lineOf, spaced_eq_intercalate]
    refine List.splitOn_intercalate ' ' (fun word hword hspace => ?_) (by simpa using hne)
    obtain ⟨n, -, rfl⟩ := List.mem_map.1 hword
    cases Text.isDigit_of_mem_digitsOfNat ' ' hspace
  have hread : (numbers.map Text.digitsOfNat).mapM (Text.natBelow? countLimit) = some numbers := by
    clear hsplit hne
    induction numbers with
    | nil => rfl
    | cons n rest ih =>
      rw [List.map_cons, List.mapM_cons, Text.natBelow?_digitsOfNat (h n List.mem_cons_self),
        ih fun n hn => h n (List.mem_cons_of_mem _ hn)]
      rfl
  rw [Text.numbers?, Text.decode?_utf8, Option.bind_some, hsplit, hread]

/-! ### The lines of a graph -/

/-- The vector of a vertex. -/
def vectorAt (g : Graph (VertexState Binary64)) (v : VertexId) : Sparse Binary64 :=
  (g.value? v).elim VertexMap.empty VertexState.ppr

/-- The vertices that have a line, ascending. -/
def answered (g : Graph (VertexState Binary64)) : List VertexId :=
  g.ids.filter fun v => !(vectorAt g v).isEmpty

/-- The numbers in the line of a vertex. -/
def record (g : Graph (VertexState Binary64)) (k : Nat) (v : VertexId) : List Nat :=
  v.toNat :: (rankedIds (vectorAt g v) k).length ::
    (rankedIds (vectorAt g v) k).map UInt32.toNat

theorem lt_of_mem_record {g : Graph (VertexState Binary64)} {k : Nat} {v : VertexId} {n : Nat}
    (h : n ∈ record g k v) : n < countLimit := by
  have hid (id : VertexId) : id.toNat < countLimit :=
    Nat.lt_of_lt_of_le id.toNat_lt (by decide)
  have hcount : (rankedIds (vectorAt g v) k).length < countLimit := by
    have hkeys := (vectorAt g v).length_entries_le
    rw [(ranks_topK (vectorAt g v) k).length_eq, VertexMap.size]
    exact Nat.lt_of_le_of_lt (Nat.le_trans (Nat.min_le_right ..) hkeys) (by decide)
  rcases List.mem_cons.1 h with rfl | h
  · exact hid v
  · rcases List.mem_cons.1 h with rfl | h
    · exact hcount
    · obtain ⟨id, -, rfl⟩ := List.mem_map.1 h
      exact hid id

theorem formatVertex?_eq (v : VertexId) (ppr : Sparse Binary64) (k : Nat) :
    formatVertex? v ppr k =
      if !ppr.isEmpty then
        some (lineOf (v.toNat :: (rankedIds ppr k).length :: (rankedIds ppr k).map UInt32.toNat))
      else none := by
  rw [formatVertex?]
  cases ppr.isEmpty with
  | true => rfl
  | false => simp [lineOf, rankedIds, Function.comp_def]

/-- **The lines of a graph**, unless it has all vertices there are. -/
theorem resultLines_eq {g : Graph (VertexState Binary64)} (hn : g.numVertices < UInt32.size)
    (k : Nat) : resultLines g k = (answered g).map fun v => lineOf (record g k v) := by
  have hlines : (g.data.toList.mapIdx fun i state =>
      formatVertex? (UInt32.ofNat i) state.ppr k) =
      g.ids.map fun v => formatVertex? v (vectorAt g v) k := by
    refine List.ext_getElem (by simp [Graph.ids, Graph.numVertices]) fun i hi hi' => ?_
    have hlt : i < g.data.size := by simpa using hi
    have hid : (UInt32.ofNat i).toNat = i :=
      UInt32.toNat_ofNat_of_lt' (Nat.lt_trans hlt hn)
    simp [Graph.ids, vectorAt, Graph.value?, hid, hlt]
  have hall : (UInt32.ofNat g.numVertices).toNat = g.data.toList.length := by
    rw [UInt32.toNat_ofNat_of_lt' hn, Array.length_toList, Graph.numVertices]
  have htake : g.data.toList.take (UInt32.ofNat g.numVertices).toNat = g.data.toList := by
    rw [hall, List.take_length]
  show ((g.data.toList.take (UInt32.ofNat g.numVertices).toNat).mapIdx _).filterMap id = _
  rw [htake, hlines, List.filterMap_map, Function.id_comp, answered, ← List.filterMap_eq_map,
    List.filterMap_filter]
  exact List.filterMap_congr fun v _ => formatVertex?_eq v (vectorAt g v) k

/-- **What is read back** from the lines of a graph. -/
theorem numbers?_resultLines {g : Graph (VertexState Binary64)} (hn : g.numVertices < UInt32.size)
    (k : Nat) :
    (Text.lines (Text.encode (textOfLines (resultLines g k)))).map Text.numbers? =
      (answered g).map fun v => some (record g k v) := by
  have hbytes : Text.encode (textOfLines (resultLines g k)) =
      ((answered g).map fun v => Text.utf8 (lineOf (record g k v))).flatMap (· ++ [10]) := by
    rw [textOfLines, Text.encode_ofList, resultLines_eq hn, List.flatMap_map, Text.utf8,
      List.flatMap_assoc, List.flatMap_map]
    refine List.flatMap_congr fun v _ => ?_
    exact Text.utf8_append _ _
  rw [hbytes, Text.lines_flatMap, List.map_map]
  · refine List.map_congr_left fun v _ => ?_
    exact numbers?_utf8_lineOf (List.cons_ne_nil _ _) fun n hn => lt_of_mem_record hn
  · intro line hline b hb
    obtain ⟨v, -, rfl⟩ := List.mem_map.1 hline
    exact Text.le_of_mem_utf8 (fun c => le_of_mem_lineOf) hb

/-- What is written, and the number of lines in answer if it can be. -/
theorem writeResults_eq {m : Type → Type} [Monad m] [LawfulMonad m] [Files m]
    (g : Graph (VertexState Binary64)) (k : Nat) (path : String) :
    (Query.writeResults g k path : m (Except Error Nat)) =
      (fun written => (written.mapError (Error.io path)).map fun () => (resultLines g k).length) <$>
        Files.write path (Text.encode (textOfLines (resultLines g k))) := by
  rw [Query.writeResults, Query.writePath]
  simp

/-- **What is written is the rankings, and nothing else.** The text of a graph goes into the file,
and the answer is the number of vertices with a vector that is not empty. Its lines, read as natural
numbers between spaces, are for those vertices, ascending: the vertex, how many follow, and the
first `k` keys of its vector by rank. The ranking does not depend on the order in which the entries
of a vector come up, and another `k` makes it longer or shorter at its end only. -/
theorem writeResults_ranks {g : Graph (VertexState Binary64)} (hn : g.numVertices < UInt32.size)
    (k : Nat) :
    (∀ (m : Type → Type) [Monad m] [LawfulMonad m] [Files m] (path : String),
      (Query.writeResults g k path : m (Except Error Nat)) =
        (fun written => (written.mapError (Error.io path)).map fun () => (answered g).length) <$>
          Files.write path (Text.encode (textOfLines (resultLines g k)))) ∧
    (Text.lines (Text.encode (textOfLines (resultLines g k)))).map Text.numbers? =
      (answered g).map (fun v => some (record g k v)) ∧
    (answered g).Pairwise (· < ·) ∧
    (∀ v, v ∈ answered g ↔ v.toNat < g.numVertices ∧ (vectorAt g v).isEmpty = false) ∧
    (∀ v, Ranks (vectorAt g v) k (rankedIds (vectorAt g v) k)) ∧
    (∀ v (entries : List (VertexId × Binary64)), entries.Perm (vectorAt g v).entries →
      ((entries.mergeSort outranks).take k).map Prod.fst = rankedIds (vectorAt g v) k) ∧
    ∀ v, rankedIds (vectorAt g v) k <+: rankedIds (vectorAt g v) (k + 1) := by
  refine ⟨fun m _ _ _ path => ?_, numbers?_resultLines hn k, (g.pairwise_ids).filter _,
    fun v => ?_, fun v => ranks_topK _ k, fun v entries h => ?_, fun v => rankedIds_prefix _ k⟩
  · rw [writeResults_eq, resultLines_eq hn, List.length_map]
  · rw [answered, List.mem_filter, Graph.mem_ids, Bool.not_eq_true']
  · rw [mergeSort_outranks_eq h]
    rfl

/-- A vector with words of all kinds: NaNs of both signs, both zeros, and a number twice. -/
def mixed : Sparse Binary64 :=
  VertexMap.ofList [(1, Binary64.invalid), (2, Binary64.signedZero true), (3, 0), (4, 1), (5, 1),
    (6, Binary64.positiveNaN)]

theorem mergeSort_mixed :
    mixed.entries.mergeSort outranks =
      [(6, Binary64.positiveNaN), (4, 1), (5, 1), (3, 0), (2, Binary64.signedZero true),
        (1, Binary64.invalid)] := by
  have hperm : List.Perm [(6, Binary64.positiveNaN), (4, 1), (5, 1), (3, 0),
      (2, Binary64.signedZero true), (1, Binary64.invalid)] mixed.entries := by decide
  rw [← mergeSort_outranks_eq hperm]
  exact List.mergeSort_of_pairwise (by decide)

/-- Four of six entries are written. The other vertex has no line. -/
theorem writeResults_ranks_mixed :
    let g : Graph (VertexState Binary64) := Graph.twoCycle { ppr := mixed } {}
    g.numVertices < UInt32.size ∧ answered g = [0] ∧
      (Text.lines (Text.encode (textOfLines (resultLines g 4)))).map Text.numbers? =
        [some [0, 4, 6, 4, 5, 3]] := by
  intro g
  have hn : g.numVertices < UInt32.size := by decide
  have hanswered : answered g = [0] := by decide
  have hids : rankedIds (vectorAt g 0) 4 = [6, 4, 5, 3] := by
    show ((mixed.entries.mergeSort outranks).take 4).map Prod.fst = _
    rw [mergeSort_mixed]
    rfl
  obtain ⟨-, hread, -⟩ := writeResults_ranks hn 4
  refine ⟨hn, hanswered, hread.trans ?_⟩
  rw [hanswered, List.map_cons, record, hids]
  rfl

end PageRank

end Superstep
