import Mathlib.Data.List.Basic
import Superstep.Text.Lines

/-!
# Texts as bytes

What is written is characters, and what is read is bytes. `utf8` stands between the two: it takes
appended texts to appended byte sequences and a character below `128` to the byte with its number,
so what is read of a text can be followed character by character. The bytes of any other character
are at least `128`, and are neither a control nor a mark of any grammar in this library.

## Main results

* `decode?_utf8`: every text is decoded
* `lines_flatMap`: lines that were ended one by one are read back
-/

namespace Superstep.Text

/-- The UTF-8 bytes of characters. -/
def utf8 (chars : List Char) : List UInt8 := chars.flatMap String.utf8EncodeChar

theorem utf8_cons (c : Char) (rest : List Char) :
    utf8 (c :: rest) = String.utf8EncodeChar c ++ utf8 rest := rfl

@[simp] theorem utf8_append (front rest : List Char) :
    utf8 (front ++ rest) = utf8 front ++ utf8 rest := List.flatMap_append

theorem utf8EncodeChar_of_lt {c : Char} (h : c.toNat < 128) :
    String.utf8EncodeChar c = [UInt8.ofNat c.toNat] := if_pos (Nat.le_of_lt_succ h)

/-- A character of ASCII is a byte. -/
theorem utf8_cons_of_lt {c : Char} (h : c.toNat < 128) (rest : List Char) :
    utf8 (c :: rest) = UInt8.ofNat c.toNat :: utf8 rest := by
  rw [utf8_cons, utf8EncodeChar_of_lt h, List.singleton_append]

theorem utf8_eq_map {chars : List Char} (h : ∀ c ∈ chars, c.toNat < 128) :
    utf8 chars = chars.map fun c => UInt8.ofNat c.toNat := by
  induction chars with
  | nil => rfl
  | cons c rest ih =>
    rw [utf8_cons_of_lt (h c List.mem_cons_self), List.map_cons,
      ih fun c hc => h c (List.mem_cons_of_mem _ hc)]

/-- All bytes of another character have their top bit set. -/
theorem le_of_mem_utf8EncodeChar {c : Char} (h : 128 ≤ c.toNat) {b : UInt8}
    (hb : b ∈ String.utf8EncodeChar c) : 128 ≤ b.toNat := by
  have hne : ¬ c.val.toNat ≤ 0x7f := Nat.not_le.2 h
  rw [String.utf8EncodeChar, if_neg hne] at hb
  split at hb
  · simp only [List.mem_cons, List.not_mem_nil, or_false] at hb
    rcases hb with rfl | rfl <;> rw [UInt8.toNat_ofNat'] <;> omega
  · split at hb
    · simp only [List.mem_cons, List.not_mem_nil, or_false] at hb
      rcases hb with rfl | rfl | rfl <;> rw [UInt8.toNat_ofNat'] <;> omega
    · simp only [List.mem_cons, List.not_mem_nil, or_false] at hb
      rcases hb with rfl | rfl | rfl | rfl <;> rw [UInt8.toNat_ofNat'] <;> omega

/-- A text without controls has no control among its bytes. -/
theorem le_of_mem_utf8 {chars : List Char} (h : ∀ c ∈ chars, 32 ≤ c.toNat) {b : UInt8}
    (hb : b ∈ utf8 chars) : 32 ≤ b.toNat := by
  obtain ⟨c, hc, hb⟩ := List.mem_flatMap.1 hb
  rcases Nat.lt_or_ge c.toNat 128 with hlt | hge
  · rw [utf8EncodeChar_of_lt hlt, List.mem_singleton] at hb
    have := h c hc
    rw [hb, UInt8.toNat_ofNat']
    omega
  · exact Nat.le_trans (by decide) (le_of_mem_utf8EncodeChar hge hb)

theorem length_le_length_utf8 (chars : List Char) : chars.length ≤ (utf8 chars).length := by
  induction chars with
  | nil => exact Nat.le_refl 0
  | cons c rest ih =>
    have := List.length_pos_iff.2 (String.utf8EncodeChar_ne_nil (c := c))
    rw [utf8_cons, List.length_append, List.length_cons]
    omega

/-! ### Encoding and decoding -/

theorem toList_loop (bytes : ByteArray) (i : Nat) (found : List UInt8) :
    ByteArray.toList.loop bytes i found = found.reverse ++ bytes.data.toList.drop i := by
  fun_induction ByteArray.toList.loop bytes i found with
  | case1 i found hlt ih =>
    have hget : bytes.get! i = bytes.data.toList[i] := by
      obtain ⟨data⟩ := bytes
      exact getElem!_pos data i hlt
    rw [ih, List.reverse_cons, List.append_assoc, List.singleton_append, hget,
      ← List.drop_eq_getElem_cons]
  | case2 i found hge =>
    rw [List.drop_eq_nil_of_le (Nat.le_of_not_lt hge), List.append_nil]

theorem toList_byteArray (bytes : ByteArray) : bytes.toList = bytes.data.toList :=
  toList_loop bytes 0 []

theorem encode_ofList (chars : List Char) : encode (String.ofList chars) = utf8 chars := by
  rw [encode, toList_byteArray, String.toUTF8_eq_toByteArray, String.toByteArray_ofList]
  exact List.toList_data_toByteArray

/-- **Every text is decoded.** -/
theorem decode?_utf8 (chars : List Char) : decode? (utf8 chars) = some chars := by
  have hbytes : (⟨(utf8 chars).toArray⟩ : ByteArray) = chars.utf8Encode := by
    refine ByteArray.ext (Array.toList_inj.1 ?_)
    exact List.toList_data_toByteArray.symm
  have hvalid : (⟨(utf8 chars).toArray⟩ : ByteArray).IsValidUTF8 := ⟨chars, hbytes⟩
  rw [decode?, String.fromUTF8?, dif_pos hvalid, Option.map_some]
  have hstring : String.fromUTF8 _ hvalid = String.ofList chars := by
    rw [← String.toByteArray_inj, String.toByteArray_ofList]
    exact hbytes
  rw [hstring, String.toList_ofList]

/-! ### Lines -/

/-- A line without controls, and the line feed behind it. -/
theorem lines_append {line : List UInt8} (h : ∀ b ∈ line, 32 ≤ b.toNat) (rest : List UInt8) :
    lines (line ++ 10 :: rest) = line :: lines rest := by
  have hline : ((line ++ 10 :: rest).foldr lineStep ([], false)).1 =
      line :: (rest.foldr lineStep ([], false)).1 := by
    induction line with
    | nil => rfl
    | cons b line ih =>
      have hb := h b List.mem_cons_self
      have hfeed : b ≠ 10 := by
        rintro rfl
        exact absurd hb (by decide)
      have hreturn : b ≠ 13 := by
        rintro rfl
        exact absurd hb (by decide)
      have ih := ih fun b hb => h b (List.mem_cons_of_mem _ hb)
      rw [List.cons_append, List.foldr_cons]
      generalize (line ++ 10 :: rest).foldr lineStep ([], false) = state at ih ⊢
      obtain ⟨found, beforeFeed⟩ := state
      obtain rfl : found = _ := ih
      simp [lineStep, hfeed, hreturn]
  exact hline

/-- **Lines that were ended one by one are read back.** -/
theorem lines_flatMap {texts : List (List UInt8)} (h : ∀ line ∈ texts, ∀ b ∈ line, 32 ≤ b.toNat) :
    lines (texts.flatMap (· ++ [10])) = texts := by
  induction texts with
  | nil => rfl
  | cons line texts ih =>
    rw [List.flatMap_cons, List.append_assoc, List.singleton_append,
      lines_append (h line List.mem_cons_self),
      ih fun other hm => h other (List.mem_cons_of_mem _ hm)]

end Superstep.Text
