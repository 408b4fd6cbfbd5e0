import Mathlib.Data.List.TakeWhile
import Superstep.Proofs.Text.Lines
import Superstep.Text.Blank

/-!
# Words and where they stand

A word is a longest run of characters that are not blank, and it stands on the line that the line
feeds before it lead to. `Located` says this of a whole text, from its front: blanks, a word, and a
rest that the word does not go on into. A text has one list of located words, and it does not
matter whether they are looked for in the whole text or in each of its lines, because a line feed is
a blank and ends every word.

Trimming is described in the same way, by what was taken off.

## Main definitions

* `Trims`: a line and what is left of it between its blanks
* `Located`, `Separated`: the words of a text, with and without the numbers of their lines

## Main results

* `trim_eq_iff`, `separated_iff`: what `trim` and `fields` find
* `Located.unique`, `exists_located`: every text has one list of located words
* `located_of_lined`: the words of the lines are the words of the text
-/

namespace Superstep.Text

/-- There is nothing but blanks. -/
def AllBlank (text : List Char) : Prop := ∀ c ∈ text, isBlank c = true

/-! ### Trimming -/

/-- The line is blanks, what is left, and blanks, and what is left has no blank at its ends. -/
def Trims (line core : List Char) : Prop :=
  ∃ front back, line = front ++ (core ++ back) ∧ AllBlank front ∧ AllBlank back ∧
    (∀ c ∈ core.head?, isBlank c = false) ∧ ∀ c ∈ core.getLast?, isBlank c = false

theorem Trims.head? {line core : List Char} (h : Trims line core) :
    ∀ c ∈ core.head?, isBlank c = false := by
  obtain ⟨front, back, -, -, -, hhead, -⟩ := h
  exact hhead

theorem AllBlank.dropWhile_append {front : List Char} (h : AllBlank front) (rest : List Char) :
    (front ++ rest).dropWhile isBlank = rest.dropWhile isBlank :=
  List.dropWhile_append_of_pos h

theorem dropWhile_of_head? {text : List Char} (h : ∀ c ∈ text.head?, isBlank c = false) :
    text.dropWhile isBlank = text := by
  cases text with
  | nil => rfl
  | cons c text => exact List.dropWhile_cons_of_neg (by simp [h c rfl])

theorem head?_dropWhile (text : List Char) :
    ∀ c ∈ (text.dropWhile isBlank).head?, isBlank c = false := by
  intro c hc
  have hnot := List.head?_dropWhile_not isBlank text
  rwa [Option.mem_def.1 hc] at hnot

theorem allBlank_takeWhile (text : List Char) : AllBlank (text.takeWhile isBlank) :=
  fun _ => List.mem_takeWhile_imp

theorem trims_trim (line : List Char) : Trims line (trim line) := by
  let inner := line.dropWhile isBlank
  have hinner : inner = trim line ++ (inner.reverse.takeWhile isBlank).reverse := by
    rw [trim, ← List.reverse_append, List.takeWhile_append_dropWhile, List.reverse_reverse]
  refine ⟨line.takeWhile isBlank, (inner.reverse.takeWhile isBlank).reverse, ?_,
    allBlank_takeWhile line, ?_, ?_, ?_⟩
  · rw [← hinner, List.takeWhile_append_dropWhile]
  · intro c hc
    exact allBlank_takeWhile _ c (List.mem_reverse.1 hc)
  · intro c hc
    refine head?_dropWhile line c ?_
    show c ∈ inner.head?
    rw [hinner, List.head?_append, Option.mem_def.1 hc]
    rfl
  · intro c hc
    rw [trim, List.getLast?_reverse] at hc
    exact head?_dropWhile _ c hc

/-- **What `trim` leaves.** -/
theorem trim_eq_iff {line core : List Char} : trim line = core ↔ Trims line core := by
  constructor
  · rintro rfl
    exact trims_trim line
  · rintro ⟨front, back, rfl, hfront, hback, hhead, hlast⟩
    have hinner : (front ++ (core ++ back)).dropWhile isBlank =
        if core = [] then [] else core ++ back := by
      rw [hfront.dropWhile_append]
      split
      · rename_i hnil
        rw [hnil, List.nil_append]
        exact List.dropWhile_eq_nil_iff.2 hback
      · rename_i hne
        refine dropWhile_of_head? fun c hc => hhead c ?_
        rwa [List.head?_append_of_ne_nil _ hne] at hc
    rw [trim, hinner]
    split
    · rename_i hnil
      rw [hnil]
      rfl
    · have hback' : AllBlank back.reverse := fun c hc => hback c (List.mem_reverse.1 hc)
      rw [List.reverse_append, hback'.dropWhile_append, dropWhile_of_head?, List.reverse_reverse]
      rwa [List.head?_reverse]

/-! ### One word -/

/-- The text opens with blanks and a word, which does not go on in what is left. -/
structure Opens (text front word rest : List Char) : Prop where
  text_eq : text = front ++ (word ++ rest)
  leading : AllBlank front
  nonempty : word ≠ []
  unbroken : ∀ c ∈ word, isBlank c = false
  ended : ∀ c ∈ rest.head?, isBlank c = true

namespace Opens

variable {text front word rest : List Char}

theorem takeWhile_eq (h : Opens text front word rest) : text.takeWhile isBlank = front := by
  obtain ⟨c, others, rfl⟩ := List.exists_cons_of_ne_nil h.nonempty
  have hc := h.unbroken c List.mem_cons_self
  rw [h.text_eq, List.takeWhile_append_of_pos h.leading, List.cons_append,
    List.takeWhile_cons_of_neg (by simp [hc]), List.append_nil]

theorem dropWhile_eq (h : Opens text front word rest) : text.dropWhile isBlank = word ++ rest := by
  obtain ⟨c, others, rfl⟩ := List.exists_cons_of_ne_nil h.nonempty
  have hc := h.unbroken c List.mem_cons_self
  rw [h.text_eq, h.leading.dropWhile_append, List.cons_append,
    List.dropWhile_cons_of_neg (by simp [hc])]

theorem takeWhile_word (h : Opens text front word rest) :
    (word ++ rest).takeWhile (fun c => !isBlank c) = word := by
  rw [List.takeWhile_append_of_pos fun c hc => by simp [h.unbroken c hc]]
  have hrest : rest.takeWhile (fun c => !isBlank c) = [] := by
    cases rest with
    | nil => rfl
    | cons c rest => exact List.takeWhile_cons_of_neg (by simp [h.ended c rfl])
  rw [hrest, List.append_nil]

/-- A text opens with one word only. -/
theorem unique {front' word' rest' : List Char} (h : Opens text front word rest)
    (h' : Opens text front' word' rest') : front = front' ∧ word = word' ∧ rest = rest' := by
  have hsame : word ++ rest = word' ++ rest' := h.dropWhile_eq.symm.trans h'.dropWhile_eq
  have hword : word = word' := by
    rw [← h.takeWhile_word, hsame, h'.takeWhile_word]
  subst hword
  exact ⟨h.takeWhile_eq.symm.trans h'.takeWhile_eq, rfl, List.append_cancel_left hsame⟩

theorem not_allBlank (h : Opens text front word rest) : ¬ AllBlank text := by
  intro hblank
  obtain ⟨c, others, rfl⟩ := List.exists_cons_of_ne_nil h.nonempty
  have hc := hblank c (by rw [h.text_eq]; simp)
  rw [h.unbroken c List.mem_cons_self] at hc
  cases hc

theorem blank_append {blanks : List Char} (h : Opens text front word rest)
    (hblanks : AllBlank blanks) : Opens (blanks ++ text) (blanks ++ front) word rest where
  text_eq := by rw [h.text_eq, List.append_assoc]
  leading := List.forall_mem_append.2 ⟨hblanks, h.leading⟩
  nonempty := h.nonempty
  unbroken := h.unbroken
  ended := h.ended

theorem append {other : List Char} (h : Opens text front word rest)
    (hother : ∀ c ∈ other.head?, isBlank c = true) :
    Opens (text ++ other) front word (rest ++ other) where
  text_eq := by rw [h.text_eq, List.append_assoc, List.append_assoc]
  leading := h.leading
  nonempty := h.nonempty
  unbroken := h.unbroken
  ended := by
    cases rest with
    | nil => exact hother
    | cons c rest => exact h.ended

/-- No line feed stands in a word. -/
theorem count_feed (h : Opens text front word rest) :
    text.count '\n' = front.count '\n' + rest.count '\n' := by
  have hword : word.count '\n' = 0 := by
    refine List.count_eq_zero.2 fun hm => ?_
    cases h.unbroken '\n' hm
  rw [h.text_eq, List.count_append, List.count_append, hword, Nat.zero_add]

end Opens

/-! ### All words -/

/-- The words of a text that begins on line `line`, with the numbers of their lines. -/
inductive Located : Nat → List Char → List (Nat × List Char) → Prop where
  | blank {line : Nat} {text : List Char} (h : AllBlank text) : Located line text []
  | word {line : Nat} {text front word rest : List Char} {words : List (Nat × List Char)}
      (opens : Opens text front word rest)
      (behind : Located (line + front.count '\n') rest words) :
      Located line text ((line + front.count '\n', word) :: words)

/-- The words of a text, wherever they stand. -/
def Separated (text : List Char) (words : List (List Char)) : Prop :=
  ∃ located, Located 1 text located ∧ located.map Prod.snd = words

namespace Located

variable {line : Nat} {text : List Char} {words words' : List (Nat × List Char)}

/-- **A text has one list of located words.** -/
theorem unique (h : Located line text words) (h' : Located line text words') : words = words' := by
  induction h generalizing words' with
  | blank hblank =>
    cases h' with
    | blank => rfl
    | word opens => exact absurd hblank opens.not_allBlank
  | word opens _ ih =>
    cases h' with
    | blank hblank => exact absurd hblank opens.not_allBlank
    | word opens' behind' =>
      obtain ⟨rfl, rfl, rfl⟩ := opens.unique opens'
      rw [ih behind']

theorem blank_append {blanks : List Char} (hblanks : AllBlank blanks)
    (h : Located (line + blanks.count '\n') text words) :
    Located line (blanks ++ text) words := by
  cases h with
  | blank h => exact .blank (List.forall_mem_append.2 ⟨hblanks, h⟩)
  | word opens behind =>
    rw [Nat.add_assoc, ← List.count_append] at behind ⊢
    exact .word (opens.blank_append hblanks) behind

/-- A text goes on behind a blank. -/
theorem append {other : List Char} (hother : ∀ c ∈ other.head?, isBlank c = true)
    (h : Located line text words) (h' : Located (line + text.count '\n') other words') :
    Located line (text ++ other) (words ++ words') := by
  induction h with
  | blank hblank => exact blank_append hblank h'
  | word opens _ ih =>
    rw [opens.count_feed, ← Nat.add_assoc] at h'
    exact .word (opens.append hother) (ih h')

/-- All words of one line stand on it. -/
theorem eq_map (h : Located line text words) (oneLine : '\n' ∉ text) :
    words = (words.map Prod.snd).map (line, ·) := by
  induction h with
  | blank => rfl
  | word opens _ ih =>
    have hzero := List.count_eq_zero.2 oneLine
    rw [opens.count_feed] at hzero
    obtain ⟨hfront, hrest⟩ := Nat.add_eq_zero_iff.1 hzero
    rw [hfront, Nat.add_zero] at ih ⊢
    exact congrArg (_ :: ·) (ih (List.count_eq_zero.1 hrest))

end Located

/-- Every text has located words: another character in front is a blank before them, or joins the
first one, or is a word of its own. -/
theorem exists_located (line : Nat) (text : List Char) : ∃ words, Located line text words := by
  induction text generalizing line with
  | nil => exact ⟨[], .blank fun _ => nofun⟩
  | cons c text ih =>
    by_cases hc : isBlank c = true
    · obtain ⟨words, h⟩ := ih (line + [c].count '\n')
      exact ⟨words, Located.blank_append (List.forall_mem_singleton.2 hc) h⟩
    · obtain ⟨words, h⟩ := ih line
      have hunbroken : isBlank c = false := Bool.not_eq_true _ ▸ hc
      have alone (hended : ∀ d ∈ text.head?, isBlank d = true) : Opens (c :: text) [] [c] text :=
        ⟨rfl, fun _ => nofun, List.cons_ne_nil _ _, List.forall_mem_singleton.2 hunbroken, hended⟩
      cases h with
      | blank hblank =>
        exact ⟨_, .word (alone fun d hd => hblank d (List.mem_of_mem_head? hd)) (.blank hblank)⟩
      | @word _ _ front word rest words opens behind =>
        cases front with
        | nil =>
          have hopens : Opens (c :: text) [] (c :: word) rest :=
            ⟨congrArg (c :: ·) opens.text_eq, opens.leading, List.cons_ne_nil _ _,
              List.forall_mem_cons.2 ⟨hunbroken, opens.unbroken⟩, opens.ended⟩
          exact ⟨_, .word hopens behind⟩
        | cons b front =>
          refine ⟨_, .word (alone fun d hd => ?_) (.word opens behind)⟩
          rw [opens.text_eq] at hd
          obtain rfl : b = d := Option.some_inj.1 hd
          exact opens.leading b List.mem_cons_self

/-! ### What `fields` finds -/

/-- What `fieldStep` makes of a text: its words, and whether it opens with one. -/
def scan (text : List Char) : List (List Char) × Bool := text.foldr fieldStep ([], false)

theorem scan_cons (c : Char) (text : List Char) : scan (c :: text) = fieldStep c (scan text) :=
  List.foldr_cons

theorem fieldStep_of_blank {c : Char} (hc : isBlank c = true) (found : List (List Char) × Bool) :
    fieldStep c found = (found.1, false) := by
  obtain ⟨words, joins⟩ := found
  exact if_pos hc

/-- A character opens a word in front of a text that opens with none. -/
theorem fieldStep_opens {c : Char} (hc : isBlank c = false) (words : List (List Char)) :
    fieldStep c (words, false) = ([c] :: words, true) := by
  have hnot : ¬ isBlank c = true := by simp [hc]
  refine (if_neg hnot).trans ?_
  cases words <;> rfl

theorem fieldStep_joins {c : Char} (hc : isBlank c = false) (word : List Char)
    (words : List (List Char)) :
    fieldStep c (word :: words, true) = ((c :: word) :: words, true) := by
  have hnot : ¬ isBlank c = true := by simp [hc]
  exact if_neg hnot

theorem scan_cons_of_blank {c : Char} (hc : isBlank c = true) (text : List Char) :
    scan (c :: text) = (fields text, false) :=
  (scan_cons c text).trans (fieldStep_of_blank hc (scan text))

theorem fields_cons_of_blank {c : Char} (hc : isBlank c = true) (text : List Char) :
    fields (c :: text) = fields text := by
  show (scan (c :: text)).1 = _
  rw [scan_cons_of_blank hc]

theorem fields_blank_append {blanks : List Char} (h : AllBlank blanks) (text : List Char) :
    fields (blanks ++ text) = fields text := by
  induction blanks with
  | nil => rfl
  | cons c blanks ih =>
    obtain ⟨hc, hblanks⟩ := List.forall_mem_cons.1 h
    rw [List.cons_append, fields_cons_of_blank hc, ih hblanks]

theorem scan_word_append {word rest : List Char} (hne : word ≠ [])
    (hword : ∀ c ∈ word, isBlank c = false) (hrest : ∀ c ∈ rest.head?, isBlank c = true) :
    scan (word ++ rest) = (word :: fields rest, true) := by
  have hends : scan rest = (fields rest, false) := by
    cases rest with
    | nil => rfl
    | cons c rest => rw [scan_cons_of_blank (hrest c rfl), fields_cons_of_blank (hrest c rfl)]
  induction word with
  | nil => exact absurd rfl hne
  | cons c word ih =>
    obtain ⟨hc, hword⟩ := List.forall_mem_cons.1 hword
    rw [List.cons_append, scan_cons]
    cases word with
    | nil => rw [List.nil_append, hends, fieldStep_opens hc]
    | cons d word => rw [ih (List.cons_ne_nil _ _) hword, fieldStep_joins hc]

theorem Opens.fields_eq {text front word rest : List Char} (h : Opens text front word rest) :
    fields text = word :: fields rest := by
  rw [h.text_eq, fields_blank_append h.leading]
  exact congrArg Prod.fst (scan_word_append h.nonempty h.unbroken h.ended)

theorem Located.map_snd_eq {line : Nat} {text : List Char} {words : List (Nat × List Char)}
    (h : Located line text words) : words.map Prod.snd = fields text := by
  induction h with
  | @blank _ text hblank =>
    have hfields := fields_blank_append hblank []
    rw [List.append_nil] at hfields
    exact hfields.symm
  | word opens _ ih => rw [opens.fields_eq, List.map_cons, ih]

/-- **What `fields` finds** are the words of a line. -/
theorem separated_iff {text : List Char} {words : List (List Char)} :
    Separated text words ↔ fields text = words := by
  constructor
  · rintro ⟨located, h, rfl⟩
    exact h.map_snd_eq.symm
  · rintro rfl
    obtain ⟨located, h⟩ := exists_located 1 text
    exact ⟨located, h, h.map_snd_eq⟩

/-- A text without blanks in front opens with its first word. -/
theorem Separated.head?_eq {text word : List Char} {words : List (List Char)}
    (h : Separated text (word :: words)) (hhead : ∀ c ∈ text.head?, isBlank c = false) :
    text.head? = word.head? ∧ word ≠ [] := by
  obtain ⟨located, h, hwords⟩ := h
  cases h with
  | blank => cases hwords
  | @word _ _ front found rest _ opens _ =>
    obtain ⟨rfl, -⟩ := List.cons.inj hwords
    have hfront : front = [] := by
      rw [← opens.takeWhile_eq]
      cases text with
      | nil => rfl
      | cons c text => exact List.takeWhile_cons_of_neg (by simp [hhead c rfl])
    refine ⟨?_, opens.nonempty⟩
    rw [opens.text_eq, hfront, List.nil_append, List.head?_append_of_ne_nil _ opens.nonempty]

/-! ### Words line by line -/

/-- The words of lines, with the numbers of the lines from `line` on. -/
def wordsFrom (line : Nat) (lines : List (List Char)) : List (Nat × List Char) :=
  (lines.mapIdx fun i text => (fields text).map (line + i, ·)).flatten

theorem wordsFrom_cons (line : Nat) (text : List Char) (lines : List (List Char)) :
    wordsFrom line (text :: lines) = (fields text).map (line, ·) ++ wordsFrom (line + 1) lines := by
  rw [wordsFrom, List.mapIdx_cons, List.flatten_cons, wordsFrom]
  congr 3
  funext i text
  rw [Nat.add_right_comm, Nat.add_assoc]

theorem located_of_oneLine {text : List Char} (oneLine : '\n' ∉ text) (line : Nat) :
    Located line text ((fields text).map (line, ·)) := by
  obtain ⟨words, h⟩ := exists_located line text
  rwa [← h.map_snd_eq, ← h.eq_map oneLine]

/-- A line in front of a line feed or of a carriage return and a line feed. -/
theorem located_line_append (ending : List Char) {front rest : List Char}
    {lines : List (List Char)} {line : Nat} (oneLine : '\n' ∉ front)
    (hending : ending = ['\n'] ∨ ending = ['\r', '\n'])
    (h : Located (line + 1) rest (wordsFrom (line + 1) lines)) :
    Located line (front ++ (ending ++ rest)) (wordsFrom line (front :: lines)) := by
  rw [wordsFrom_cons]
  have hcount : ending.count '\n' = 1 := by rcases hending with rfl | rfl <;> rfl
  have hblank : AllBlank ending := by
    rcases hending with rfl | rfl
    · exact List.forall_mem_singleton.2 rfl
    · exact List.forall_mem_cons.2 ⟨rfl, List.forall_mem_singleton.2 rfl⟩
  refine (located_of_oneLine oneLine line).append ?_ (Located.blank_append hblank ?_)
  · intro c hc
    refine hblank c (List.mem_of_mem_head? ?_)
    rcases hending with rfl | rfl <;> exact hc
  · rwa [List.count_eq_zero.2 oneLine, hcount]

/-- **The words of the lines are the words of the text.** -/
theorem located_of_lined {text : List Char} {found : List (List UInt8)}
    (h : Lined (utf8 text) found) (line : Nat) :
    ∃ lines, found = lines.map utf8 ∧ Located line text (wordsFrom line lines) := by
  have feed_of_toNat {c : Char} (hc : c.toNat = 10) : c = '\n' := Char.toNat_inj.1 hc
  have oneLine_of {chars : List Char} {bytes : List UInt8} (hchars : utf8 chars = bytes)
      (hbytes : 10 ∉ bytes) : '\n' ∉ chars := by
    intro hm
    refine hbytes (hchars ▸ List.mem_flatMap.2 ⟨'\n', hm, ?_⟩)
    decide
  generalize hbytes : utf8 text = bytes at h
  induction h generalizing text line with
  | nil =>
    obtain rfl : text = [] := utf8_injective hbytes
    exact ⟨[], rfl, .blank fun _ => nofun⟩
  | last _ oneLine =>
    refine ⟨[text], by rw [List.map_singleton, hbytes], ?_⟩
    rw [wordsFrom_cons]
    have hlast := located_of_oneLine (oneLine_of hbytes oneLine) line
    rwa [← List.append_nil (List.map _ _)] at hlast
  | feed oneLine _ _ ih =>
    obtain ⟨chars, c, others, rfl, rfl, hc, hothers⟩ := exists_of_utf8_eq (by decide) hbytes
    obtain rfl := feed_of_toNat hc
    obtain ⟨lines, rfl, hrest⟩ := ih (line + 1) hothers
    exact ⟨chars :: lines, rfl,
      located_line_append ['\n'] (oneLine_of rfl oneLine) (.inl rfl) hrest⟩
  | returnFeed oneLine _ ih =>
    obtain ⟨chars, c, others, rfl, rfl, hc, hothers⟩ := exists_of_utf8_eq (by decide) hbytes
    -- Nothing stands between the carriage return and the line feed.
    have hnothing : utf8 _ = [] ++ 10 :: _ := hothers
    obtain ⟨between, d, others, rfl, hbetween, hd, hrest⟩ :=
      exists_of_utf8_eq (by decide) hnothing
    obtain rfl : between = [] := utf8_injective hbetween
    obtain rfl : c = '\r' := Char.toNat_inj.1 hc
    obtain rfl := feed_of_toNat hd
    obtain ⟨lines, rfl, hrest⟩ := ih (line + 1) hrest
    exact ⟨chars :: lines, rfl,
      located_line_append ['\r', '\n'] (oneLine_of rfl oneLine) (.inr rfl) hrest⟩

end Superstep.Text
