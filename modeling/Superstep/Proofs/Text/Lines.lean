import Superstep.Proofs.Text.Bytes

/-!
# A text is its lines

`Lined` says what the lines of a text are without saying how to find them: a line ends with a line
feed, with a carriage return and a line feed, or with the text, and has no line feed in it. A line
that a bare line feed ends has no carriage return before it, because that would belong to the end.
Every text is lined in one way, and `lines` finds it.

The walk of `lines` goes from the back and carries one flag, whether the text behind a byte opens
with a line feed. A carriage return in front of other bytes is content, so a line goes through the
walk unchanged as long as it does not put a carriage return against the line feed that ends it.

## Main results

* `lines_eq_iff`: the lines of a text
* `decode?_eq_some_iff`: the bytes of a text
* `exists_of_utf8_eq`: a byte of ASCII stands between characters
-/

namespace Superstep.Text

/-! ### Lines -/

/-- The text is the lines in order, each with what ends it. -/
inductive Lined : List UInt8 → List (List UInt8) → Prop where
  | nil : Lined [] []
  /-- A line that ends with the text. -/
  | last {line : List UInt8} (nonempty : line ≠ []) (oneLine : 10 ∉ line) : Lined line [line]
  /-- A line that a line feed ends. -/
  | feed {line rest : List UInt8} {lines : List (List UInt8)} (oneLine : 10 ∉ line)
      (bare : line.getLast? ≠ some 13) (behind : Lined rest lines) :
      Lined (line ++ 10 :: rest) (line :: lines)
  /-- A line that a carriage return and a line feed end. -/
  | returnFeed {line rest : List UInt8} {lines : List (List UInt8)} (oneLine : 10 ∉ line)
      (behind : Lined rest lines) : Lined (line ++ 13 :: 10 :: rest) (line :: lines)

/-- What `lineStep` makes of a text: its lines, and whether it opens with a line feed. -/
def walk (text : List UInt8) : List (List UInt8) × Bool := text.foldr lineStep ([], false)

theorem walk_cons (b : UInt8) (text : List UInt8) : walk (b :: text) = lineStep b (walk text) := rfl

/-- A byte that neither feeds nor returns against a line feed joins the line behind it. -/
theorem walk_cons_of_content {b : UInt8} {text first : List UInt8} {others : List (List UInt8)}
    {beforeFeed : Bool} (hfeed : b ≠ 10) (hreturn : b = 13 → beforeFeed = false)
    (h : walk text = (first :: others, beforeFeed)) :
    walk (b :: text) = ((b :: first) :: others, false) := by
  have hjoin : (b = 13 && beforeFeed) = false := by
    by_cases hb : b = 13
    · simp [hreturn hb]
    · simp [hb]
  rw [walk_cons, h, lineStep, if_neg hfeed, if_neg (by simp [hjoin])]

/-- A line goes through the walk unchanged in front of a text that has a line already. -/
theorem walk_append {line text first : List UInt8} {others : List (List UInt8)} {beforeFeed : Bool}
    (hline : 10 ∉ line) (hreturn : line.getLast? = some 13 → beforeFeed = false)
    (h : walk text = (first :: others, beforeFeed)) :
    (walk (line ++ text)).1 = (line ++ first) :: others := by
  suffices hwalk : ∃ flag, walk (line ++ text) = ((line ++ first) :: others, flag) ∧
      (line ≠ [] → flag = false) by
    obtain ⟨flag, hwalk, -⟩ := hwalk
    rw [hwalk]
  induction line with
  | nil => exact ⟨beforeFeed, h, fun hne => absurd rfl hne⟩
  | cons b line ih =>
    obtain ⟨hb, hline⟩ := not_or.1 (mt List.mem_cons.2 hline)
    have hlast : line.getLast? = some 13 → beforeFeed = false := by
      intro hlast
      refine hreturn ?_
      rw [List.getLast?_cons, hlast]
      rfl
    obtain ⟨flag, hwalk, hflag⟩ := ih hline hlast
    refine ⟨false, walk_cons_of_content (Ne.symm hb) ?_ hwalk, fun _ => rfl⟩
    intro hb
    cases line with
    | nil =>
      obtain rfl : beforeFeed = flag := congrArg Prod.snd (h.symm.trans hwalk)
      exact hreturn (congrArg some hb)
    | cons c line => exact hflag (List.cons_ne_nil c line)

theorem walk_feed (rest : List UInt8) : walk (10 :: rest) = ([] :: lines rest, true) := rfl

theorem lines_eq_singleton {line : List UInt8} (hne : line ≠ []) (hline : 10 ∉ line) :
    lines line = [line] := by
  -- The last byte opens the line, and the others join it.
  obtain ⟨front, b, rfl⟩ := (List.eq_nil_or_concat' line).resolve_left hne
  obtain ⟨hfront, hb⟩ := not_or.1 (mt List.mem_append.2 hline)
  have hwalk : walk [b] = ([[b]], false) := by
    have hfeed : b ≠ 10 := fun he => hb (he ▸ List.mem_singleton_self _)
    rw [walk_cons]
    simp [walk, lineStep, hfeed]
  exact walk_append hfront (fun _ => rfl) hwalk

theorem lines_feed {line : List UInt8} (hline : 10 ∉ line) (hbare : line.getLast? ≠ some 13)
    (rest : List UInt8) : lines (line ++ 10 :: rest) = line :: lines rest := by
  have hlines := walk_append hline (fun hlast => absurd hlast hbare) (walk_feed rest)
  rwa [List.append_nil] at hlines

theorem lines_returnFeed {line : List UInt8} (hline : 10 ∉ line) (rest : List UInt8) :
    lines (line ++ 13 :: 10 :: rest) = line :: lines rest := by
  have hwalk : walk (13 :: 10 :: rest) = ([] :: lines rest, false) := rfl
  have hlines := walk_append hline (fun _ => rfl) hwalk
  rwa [List.append_nil] at hlines

theorem Lined.lines_eq {text : List UInt8} {found : List (List UInt8)} (h : Lined text found) :
    lines text = found := by
  induction h with
  | nil => rfl
  | last nonempty oneLine => exact lines_eq_singleton nonempty oneLine
  | feed oneLine bare _ ih => rw [lines_feed oneLine bare, ih]
  | returnFeed oneLine _ ih => rw [lines_returnFeed oneLine, ih]

/-- Every text is lined: another byte in front opens a line, or joins the first one, or is the
carriage return of its end. -/
theorem exists_lined (text : List UInt8) : ∃ found, Lined text found := by
  induction text with
  | nil => exact ⟨[], .nil⟩
  | cons b text ih =>
    obtain ⟨found, h⟩ := ih
    by_cases hb : b = 10
    · subst hb
      exact ⟨[] :: found, .feed List.not_mem_nil (by simp) h⟩
    · have hjoin : ∀ {line : List UInt8}, 10 ∉ line → 10 ∉ b :: line := by
        intro line hline
        exact mt List.mem_cons.1 (not_or.2 ⟨Ne.symm hb, hline⟩)
      cases h with
      | nil => exact ⟨[[b]], .last (List.cons_ne_nil _ _) (hjoin List.not_mem_nil)⟩
      | last _ oneLine => exact ⟨[b :: text], .last (List.cons_ne_nil _ _) (hjoin oneLine)⟩
      | @feed line rest lines oneLine bare behind =>
        by_cases hreturn : (b :: line).getLast? = some 13
        · -- The carriage return stands against the feed, so the line was empty.
          obtain rfl : line = [] := by
            cases line with
            | nil => rfl
            | cons c line => exact absurd (List.getLast?_cons_cons ▸ hreturn) bare
          obtain rfl := Option.some_inj.1 hreturn
          exact ⟨[] :: lines, .returnFeed List.not_mem_nil behind⟩
        · exact ⟨(b :: line) :: lines, .feed (hjoin oneLine) hreturn behind⟩
      | @returnFeed line rest lines oneLine behind =>
        exact ⟨(b :: line) :: lines, .returnFeed (hjoin oneLine) behind⟩

/-- **The lines of a text** are those that it is lined in. -/
theorem lines_eq_iff {text : List UInt8} {found : List (List UInt8)} :
    lines text = found ↔ Lined text found := by
  constructor
  · rintro rfl
    obtain ⟨found, h⟩ := exists_lined text
    rwa [h.lines_eq]
  · exact Lined.lines_eq

/-! ### Bytes and characters -/

/-- **The bytes of a text** are what is decoded to it. -/
theorem decode?_eq_some_iff {bytes : List UInt8} {chars : List Char} :
    decode? bytes = some chars ↔ utf8 chars = bytes := by
  constructor
  · intro h
    obtain ⟨text, htext, rfl⟩ := Option.map_eq_some_iff.1 h
    rw [String.fromUTF8?] at htext
    split at htext
    · rename_i hvalid
      obtain rfl := Option.some_inj.1 htext
      rw [← encode_ofList, String.ofList_toList, encode, toList_byteArray]
      rfl
    · cases htext
  · rintro rfl
    exact decode?_utf8 chars

theorem utf8_injective : Function.Injective utf8 := by
  intro chars chars' h
  have hdecode := decode?_utf8 chars
  rw [h, decode?_utf8] at hdecode
  exact (Option.some_inj.1 hdecode).symm

/-- **A byte of ASCII stands between characters.** -/
theorem exists_of_utf8_eq {text : List Char} {front rest : List UInt8} {b : UInt8}
    (hb : b.toNat < 128) (h : utf8 text = front ++ b :: rest) :
    ∃ chars c others, text = chars ++ c :: others ∧ utf8 chars = front ∧ c.toNat = b.toNat ∧
      utf8 others = rest := by
  induction text generalizing front with
  | nil => cases front <;> cases h
  | cons c text ih =>
    rw [utf8_cons] at h
    rcases List.append_eq_append_iff.1 h with ⟨between, hfront, htext⟩ | ⟨between, hchar, hrest⟩
    · obtain ⟨chars, d, others, rfl, rfl, hd, hothers⟩ := ih htext
      exact ⟨c :: chars, d, others, rfl, hfront.symm, hd, hothers⟩
    · -- The byte is among those of the first character, or the first one behind them.
      cases between with
      | nil =>
        rw [List.append_nil] at hchar
        have hnothing : utf8 text = [] ++ b :: rest := hrest.symm
        obtain ⟨chars, d, others, rfl, hchars, hd, hothers⟩ := ih hnothing
        refine ⟨c :: chars, d, others, rfl, ?_, hd, hothers⟩
        rw [utf8_cons, hchars, List.append_nil, hchar]
      | cons b' between =>
        obtain ⟨rfl, rfl⟩ := List.cons.inj hrest
        have hmem : b ∈ String.utf8EncodeChar c := hchar ▸ by simp
        have hlt : c.toNat < 128 := by
          refine Nat.lt_of_not_le fun hge => ?_
          exact absurd (le_of_mem_utf8EncodeChar hge hmem) (Nat.not_le.2 hb)
        rw [utf8EncodeChar_of_lt hlt] at hchar
        have hsplit : front = [] ∧ between = [] ∧ UInt8.ofNat c.toNat = b := by
          cases front with
          | nil =>
            obtain ⟨hc, hnil⟩ := List.cons.inj hchar
            exact ⟨rfl, hnil.symm, hc⟩
          | cons _ front => cases front <;> cases (List.cons.inj hchar).2
        obtain ⟨rfl, rfl, rfl⟩ := hsplit
        refine ⟨[], c, text, rfl, rfl, ?_, rfl⟩
        rw [UInt8.toNat_ofNat']
        omega

end Superstep.Text
