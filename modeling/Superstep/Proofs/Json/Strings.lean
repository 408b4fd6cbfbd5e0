import Superstep.Json.Basic
import Superstep.Json.Scanner
import Superstep.Proofs.Text.Bytes

/-!
# Strings read back

Every string can be written, whatever its characters. A character is written either as it is, and
then none of its bytes means anything to the reader, or as a backslash and letters, from which the
reader makes the character again.

## Main results

* `readString_render`: a string that is written reads back
-/

namespace Superstep.Json

open Text (utf8 utf8_append utf8_cons utf8_cons_of_lt utf8EncodeChar_of_lt
  le_of_mem_utf8EncodeChar)

/-- A byte that stands for itself inside a string. -/
def IsPlain (b : UInt8) : Prop := b ≠ 34 ∧ b ≠ 92 ∧ 32 ≤ b.toNat

theorem isPlain_of_mem {c : Char} (hquote : c ≠ '"') (hslash : c ≠ '\\') (hcontrol : 32 ≤ c.toNat)
    {b : UInt8} (hb : b ∈ String.utf8EncodeChar c) : IsPlain b := by
  rcases Nat.lt_or_ge c.toNat 128 with hlt | hge
  · rw [utf8EncodeChar_of_lt hlt, List.mem_singleton] at hb
    have hnat : b.toNat = c.toNat := by
      rw [hb, UInt8.toNat_ofNat']
      omega
    refine ⟨?_, ?_, by omega⟩
    · rintro rfl
      exact hquote (Char.toNat_inj.1 hnat.symm)
    · rintro rfl
      exact hslash (Char.toNat_inj.1 hnat.symm)
  · have hle := le_of_mem_utf8EncodeChar hge hb
    refine ⟨?_, ?_, by omega⟩
    · rintro rfl
      exact absurd hle (by decide)
    · rintro rfl
      exact absurd hle (by decide)

/-! ### Escapes -/

/-- A control without an escape of its own is written by its number. -/
theorem readEscape_hexPair {n : Nat} (h : n < 32) (s : Bytes) :
    readEscape (utf8 (['u', '0', '0'] ++ hexPair n) ++ s) = .ok (Char.ofNat n, s) := by
  have hall : ∀ n < 32, ∃ high low, utf8 (hexPair n) = [high, low] ∧
      hexValue? high = some (n / 16) ∧ hexValue? low = some (n % 16) := by
    intro n hn
    refine ⟨UInt8.ofNat (Nat.digitChar (n / 16)).toNat, UInt8.ofNat (Nat.digitChar (n % 16)).toNat,
      ?_, ?_, ?_⟩ <;> revert n <;> decide
  obtain ⟨high, low, hbytes, hhigh, hlow⟩ := hall n h
  have hzero : hexValue? 48 = some 0 := rfl
  have hhex : readHex4 (48 :: 48 :: high :: low :: s) = .ok (n, s) := by
    rw [readHex4, hzero, hhigh, hlow]
    show Except.ok (((0 * 16 + 0) * 16 + n / 16) * 16 + n % 16, s) = _
    rw [show ((0 * 16 + 0) * 16 + n / 16) * 16 + n % 16 = n by omega]
  rw [utf8_append, hbytes]
  show readCodePoint (48 :: 48 :: high :: low :: s) = _
  show (readHex4 _ >>= _) = _
  rw [hhex]
  show (if _ then _ else _) = _
  rw [if_neg (by simp; omega), if_neg (by simp; omega)]

/-- A character stands for itself, or an escape stands for it. -/
theorem escape_cases (c : Char) :
    (escape c = [c] ∧ c ≠ '"' ∧ c ≠ '\\' ∧ 32 ≤ c.toNat) ∨
      ∃ letters, escape c = '\\' :: letters ∧ (∀ d ∈ letters, 32 ≤ d.toNat) ∧
        ∀ s, readEscape (utf8 letters ++ s) = .ok (c, s) := by
  unfold escape
  split_ifs with hquote hslash hback hform hfeed hreturn htab hcontrol
  · subst hquote
    exact .inr ⟨['"'], rfl, List.forall_mem_singleton.2 (by decide), fun _ => rfl⟩
  · subst hslash
    exact .inr ⟨['\\'], rfl, List.forall_mem_singleton.2 (by decide), fun _ => rfl⟩
  · subst hback
    exact .inr ⟨['b'], rfl, List.forall_mem_singleton.2 (by decide), fun _ => rfl⟩
  · subst hform
    exact .inr ⟨['f'], rfl, List.forall_mem_singleton.2 (by decide), fun _ => rfl⟩
  · subst hfeed
    exact .inr ⟨['n'], rfl, List.forall_mem_singleton.2 (by decide), fun _ => rfl⟩
  · subst hreturn
    exact .inr ⟨['r'], rfl, List.forall_mem_singleton.2 (by decide), fun _ => rfl⟩
  · subst htab
    exact .inr ⟨['t'], rfl, List.forall_mem_singleton.2 (by decide), fun _ => rfl⟩
  · refine .inr ⟨['u', '0', '0'] ++ hexPair c.toNat, rfl, ?_, fun s => ?_⟩
    · have hall : ∀ n < 32, (['u', '0', '0'] ++ hexPair n).all (32 ≤ ·.toNat) = true := by decide
      intro d hd
      exact of_decide_eq_true (List.all_eq_true.1 (hall c.toNat hcontrol) d hd)
    · rw [readEscape_hexPair hcontrol, Char.ofNat_toNat]
  · exact .inl ⟨rfl, hquote, hslash, by omega⟩

theorem escape_of_plain {c : Char} (hquote : c ≠ '"') (hslash : c ≠ '\\')
    (hcontrol : 32 ≤ c.toNat) : escape c = [c] := by
  have hne : ∀ d : Char, d.toNat < 32 → c ≠ d := by
    rintro d hd rfl
    omega
  rw [escape, if_neg hquote, if_neg hslash, if_neg (hne _ (by decide)), if_neg (hne _ (by decide)),
    if_neg (hne _ (by decide)), if_neg (hne _ (by decide)), if_neg (hne _ (by decide)),
    if_neg (by omega)]

/-- What is written of a string has no controls. -/
theorem le_of_mem_escape {c d : Char} (h : d ∈ escape c) : 32 ≤ d.toNat := by
  obtain ⟨hself, -, -, hle⟩ | ⟨letters, hletters, hle, -⟩ := escape_cases c
  · rw [hself, List.mem_singleton] at h
    rwa [h]
  · rw [hletters] at h
    rcases List.mem_cons.1 h with rfl | h
    · decide
    · exact hle d h

/-! ### Strings -/

theorem readStringBytes_plain {bytes : Bytes} (h : ∀ b ∈ bytes, IsPlain b) {fuel : Nat}
    {text rest : Bytes} {s : Bytes} (hs : readStringBytes fuel s = .ok (text, rest)) :
    readStringBytes (bytes.length + fuel) (bytes ++ s) = .ok (bytes ++ text, rest) := by
  induction bytes with
  | nil => rwa [List.length_nil, Nat.zero_add]
  | cons b bytes ih =>
    obtain ⟨hquote, hslash, hcontrol⟩ := h b List.mem_cons_self
    have hlt : ¬ b < 32 := by
      rw [UInt8.lt_iff_toNat_lt]
      exact Nat.not_lt.2 hcontrol
    have ih := ih fun b hb => h b (List.mem_cons_of_mem _ hb)
    rw [List.length_cons, Nat.add_right_comm, List.cons_append, readStringBytes]
    simp only [beq_iff_eq, if_neg hquote, if_neg hslash, if_neg hlt, ih]
    rfl

theorem readStringBytes_escape {c : Char} {letters : List Char}
    (h : ∀ s, readEscape (utf8 letters ++ s) = .ok (c, s)) {fuel : Nat} {text rest s : Bytes}
    (hs : readStringBytes fuel s = .ok (text, rest)) :
    readStringBytes (fuel + 1) (utf8 ('\\' :: letters) ++ s) =
      .ok (String.utf8EncodeChar c ++ text, rest) := by
  have hchar : Text.encode (String.singleton c) = String.utf8EncodeChar c := by
    rw [String.singleton_eq_ofList, Text.encode_ofList]
    exact List.append_nil _
  show (readEscape (utf8 letters ++ s) >>= _) = _
  rw [h s]
  show (readStringBytes fuel s >>= _) = _
  rw [hs, hchar]
  rfl

theorem readStringBytes_render (chars : List Char) (rest : Bytes) {fuel : Nat}
    (hfuel : (utf8 (chars.flatMap escape)).length < fuel) :
    readStringBytes fuel (utf8 (chars.flatMap escape) ++ 34 :: rest) = .ok (utf8 chars, rest) := by
  induction chars generalizing fuel with
  | nil =>
    obtain ⟨fuel, rfl⟩ : ∃ n, fuel = n + 1 := ⟨fuel - 1, by omega⟩
    rfl
  | cons c chars ih =>
    rw [List.flatMap_cons, utf8_append, List.length_append] at hfuel
    rw [List.flatMap_cons, utf8_append, List.append_assoc, utf8_cons]
    obtain ⟨hself, hquote, hslash, hle⟩ | ⟨letters, hletters, -, hread⟩ := escape_cases c
    · have hbytes : utf8 (escape c) = String.utf8EncodeChar c := by
        rw [hself]
        exact List.append_nil _
      rw [hbytes] at hfuel ⊢
      obtain ⟨more, rfl⟩ : ∃ n, fuel = (String.utf8EncodeChar c).length + n :=
        ⟨fuel - (String.utf8EncodeChar c).length, by omega⟩
      exact readStringBytes_plain (fun b hb => isPlain_of_mem hquote hslash hle hb)
        (ih (by omega))
    · rw [hletters] at hfuel ⊢
      have hlength : 0 < (utf8 ('\\' :: letters)).length := Nat.succ_pos _
      obtain ⟨more, rfl⟩ : ∃ n, fuel = n + 1 := ⟨fuel - 1, by omega⟩
      exact readStringBytes_escape hread (ih (by omega))

/-- **A string that is written reads back.** -/
theorem readString_render (s : String) (rest : Bytes) :
    readString (utf8 (s.toList.flatMap escape) ++ 34 :: rest) = .ok (s, rest) := by
  have hfuel : (utf8 (s.toList.flatMap escape)).length <
      (utf8 (s.toList.flatMap escape) ++ 34 :: rest).length := by
    rw [List.length_append, List.length_cons]
    omega
  show (readStringBytes _ _ >>= _) = _
  rw [readStringBytes_render s.toList rest hfuel]
  simp only [bind, Except.bind, Text.decode?_utf8]
  show Except.ok (String.ofList s.toList, rest) = _
  rw [String.ofList_toList]

theorem utf8_renderString (s : String) (rest : Bytes) :
    utf8 (renderString s) ++ rest = 34 :: (utf8 (s.toList.flatMap escape) ++ 34 :: rest) := by
  show 34 :: (utf8 (s.toList.flatMap escape ++ ['"']) ++ rest) = _
  rw [utf8_append, List.append_assoc]
  rfl

theorem le_of_mem_renderString {s : String} {c : Char} (h : c ∈ renderString s) :
    32 ≤ c.toNat := by
  rw [renderString, List.cons_append, List.mem_cons, List.mem_append] at h
  rcases h with rfl | h | h
  · decide
  · obtain ⟨d, -, hd⟩ := List.mem_flatMap.1 h
    exact le_of_mem_escape hd
  · rw [List.mem_singleton.1 h]
    decide

end Superstep.Json
