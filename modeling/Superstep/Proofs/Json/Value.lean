import Superstep.Json.Reader
import Superstep.Proofs.Json.Number
import Superstep.Proofs.Json.Strings

/-!
# Values read back

`Json.render` writes any value, but a reader gives only some: whole numbers have at most sixty-four
bits, other numbers are finite, an object has its fields in the strict order of their keys, and
containers are not nested too deeply. These values are canonical, and each of them reads back.

Readers of containers are functions of the readers for what is inside. So are the lemmas about
them: what an item reader makes of one item, the array reader makes of all, and what a field does to
a state, the fields of an object do one after the other.

## Main definitions

* `Canonical`: the values that a reader can give
* `Starts`: how a value may begin

## Main results

* `readArray_render`, `readObject_render`: containers, given what is inside
* `readValue_render`: a canonical value that is written reads back
-/

namespace Superstep

/-! ### Steps that succeed -/

section Except

variable {ε ε' α β : Type}

theorem bind_eq_ok {x : Except ε α} {f : α → Except ε β} {b : β} :
    x >>= f = .ok b ↔ ∃ a, x = .ok a ∧ f a = .ok b := by
  constructor
  · intro h
    cases x with
    | ok a => exact ⟨a, rfl, h⟩
    | error e => cases h
  · rintro ⟨a, rfl, h⟩
    exact h

theorem map_eq_ok {x : Except ε α} {f : α → β} {b : β} :
    x.map f = .ok b ↔ ∃ a, x = .ok a ∧ f a = b := by
  cases x <;> simp [Except.map]

theorem map_eq_error {x : Except ε α} {f : α → β} {e : ε} :
    x.map f = .error e ↔ x = .error e := by
  cases x <;> simp [Except.map]

theorem mapError_eq_ok {x : Except ε α} {f : ε → ε'} {a : α} :
    x.mapError f = .ok a ↔ x = .ok a := by
  cases x <;> simp [Except.mapError]

end Except

end Superstep

namespace Superstep.Json

open Text (utf8 utf8_append)

/-! ### Between values -/

/-- A text that begins with the first byte of a value. -/
def Starts (s : Bytes) : Prop := ∃ b rest, s = b :: rest ∧ isBlankByte b = false ∧ b ≠ 93

theorem Starts.append {s : Bytes} (h : Starts s) (rest : Bytes) : Starts (s ++ rest) := by
  obtain ⟨b, others, rfl, hb⟩ := h
  exact ⟨b, others ++ rest, rfl, hb⟩

theorem skipBlanks_cons {b : UInt8} (h : isBlankByte b = false) (rest : Bytes) :
    skipBlanks (b :: rest) = b :: rest := List.dropWhile_cons_of_neg (by simp [h])

theorem Starts.skipBlanks {s : Bytes} (h : Starts s) : skipBlanks s = s := by
  obtain ⟨b, rest, rfl, hb, -⟩ := h
  exact skipBlanks_cons hb rest

theorem EndsNumber.cons {b : UInt8} (hdigit : isDigitByte b = false)
    (hmark : b ≠ 46 ∧ b ≠ 101 ∧ b ≠ 69) (rest : Bytes) : EndsNumber (b :: rest) where
  noDigit := NoDigit.cons hdigit rest
  noPoint := fun h => hmark.1 (Option.some.inj h)
  noExponent := ⟨fun h => hmark.2.1 (Option.some.inj h), fun h => hmark.2.2 (Option.some.inj h)⟩

theorem endsNumber_nil : EndsNumber [] where
  noDigit := by rintro _ ⟨⟩
  noPoint := nofun
  noExponent := ⟨nofun, nofun⟩

theorem starts_number {n : Number} (h : n.Canonical) (rest : Bytes) :
    Starts (utf8 n.render ++ rest) := by
  have hstarts := startsNumber_render h rest
  generalize utf8 n.render ++ rest = s at hstarts
  match s, hstarts with
  | b :: others, hb =>
    refine ⟨b, others, rfl, ?_, ?_⟩
    · by_contra hblank
      rw [Bool.not_eq_false] at hblank
      simp only [isBlankByte, Bool.or_eq_true, beq_iff_eq] at hblank
      rcases hblank with ((rfl | rfl) | rfl) | rfl <;> exact Bool.false_ne_true hb
    · rintro rfl
      exact Bool.false_ne_true hb

/-- The reader makes `a` of the text of a value, wherever that stands. -/
def Reads {α : Type} (read : Reader α) (value : Json) (a : α) : Prop :=
  ∀ rest, EndsNumber rest → read (utf8 value.renderChars ++ rest) = .ok (a, rest)

/-! ### Arrays -/

section Arrays

variable {α : Type} {item : Reader α} {render : α → Json}

/-- What is left of an array when its next item is the first, or is not. -/
def itemsText (first : Bool) (items : List Json) : List Char :=
  if first || items.isEmpty then renderItems items else ',' :: renderItems items

theorem renderItems_cons (value : Json) (items : List Json) :
    renderItems (value :: items) = value.renderChars ++ itemsText false items := by
  cases items with
  | nil => rfl
  | cons next items =>
    rw [renderItems]
    · rfl
    · simp

theorem endsNumber_itemsText (items : List Json) (rest : Bytes) :
    EndsNumber (utf8 (itemsText false items) ++ rest) := by
  cases items with
  | nil => exact EndsNumber.cons rfl (by decide) rest
  | cons value items => exact EndsNumber.cons rfl (by decide) _

theorem nextItem_nil (first : Bool) (rest : Bytes) :
    nextItem first (utf8 (itemsText first []) ++ rest) = .ok none := by
  cases first <;> rfl

theorem nextItem_cons (first : Bool) {value : Json} (h : Starts (utf8 value.renderChars))
    (items : List Json) (rest : Bytes) :
    nextItem first (utf8 (itemsText first (value :: items)) ++ rest) =
      .ok (some (utf8 value.renderChars ++ (utf8 (itemsText false items) ++ rest))) := by
  have htext : utf8 (renderItems (value :: items)) ++ rest =
      utf8 value.renderChars ++ (utf8 (itemsText false items) ++ rest) := by
    rw [renderItems_cons, utf8_append, List.append_assoc]
  obtain ⟨b, others, hb, hblank, hclose⟩ := h.append (utf8 (itemsText false items) ++ rest)
  cases first with
  | true =>
    show nextItem true (utf8 (renderItems (value :: items)) ++ rest) = _
    rw [htext, hb, nextItem, skipBlanks_cons hblank]
    simp [hclose]
  | false =>
    show nextItem false (44 :: (utf8 (renderItems (value :: items)) ++ rest)) = _
    rw [htext, hb, nextItem, skipBlanks_cons rfl]
    simp [skipBlanks_cons hblank, hclose]

/-- What reads each of the items reads all of them. -/
theorem readItems_render {items : List α}
    (h : ∀ a ∈ items, Starts (utf8 (render a).renderChars) ∧ Reads item (render a) a)
    {fuel : Nat} (hfuel : items.length < fuel) (first : Bool) (rest : Bytes) :
    readItems item fuel first (utf8 (itemsText first (items.map render)) ++ rest) =
      .ok (items, 93 :: rest) := by
  induction items generalizing fuel first with
  | nil =>
    obtain ⟨fuel, rfl⟩ : ∃ n, fuel = n + 1 := ⟨fuel - 1, by omega⟩
    show (nextItem first _ >>= _) = _
    rw [List.map_nil, nextItem_nil]
    cases first <;> rfl
  | cons a items ih =>
    obtain ⟨hstarts, hread⟩ := h a List.mem_cons_self
    rw [List.length_cons] at hfuel
    obtain ⟨fuel, rfl⟩ : ∃ n, fuel = n + 1 := ⟨fuel - 1, by omega⟩
    show (nextItem first _ >>= _) = _
    rw [List.map_cons, nextItem_cons first hstarts]
    show (item _ >>= _) = _
    rw [hread _ (endsNumber_itemsText _ _)]
    show (readItems item fuel false _ >>= _) = _
    rw [ih (fun b hb => h b (List.mem_cons_of_mem _ hb)) (by omega)]
    rfl

theorem length_le_length_renderItems (items : List Json) :
    items.length ≤ (renderItems items).length := by
  induction items with
  | nil => exact Nat.zero_le _
  | cons value items ih =>
    rw [renderItems_cons, List.length_append, List.length_cons, itemsText]
    cases items with
    | nil => exact Nat.le_add_left ..
    | cons next items =>
      show _ ≤ _ + ((renderItems (next :: items)).length + 1)
      omega

theorem readArray_render {items : List α}
    (h : ∀ a ∈ items, Starts (utf8 (render a).renderChars) ∧ Reads item (render a) a)
    (rest : Bytes) :
    readArray item (utf8 (renderItems (items.map render)) ++ rest) = .ok (items, rest) := by
  have hlength := length_le_length_renderItems (items.map render)
  have hbytes := Text.length_le_length_utf8 (renderItems (items.map render))
  rw [List.length_map] at hlength
  have hfuel : items.length <
      (utf8 (renderItems (items.map render)) ++ rest).length + 1 := by
    rw [List.length_append]
    omega
  show (readItems item _ true (utf8 (itemsText true (items.map render)) ++ rest) >>= _) = _
  rw [readItems_render h hfuel true]
  rfl

end Arrays

/-! ### Objects -/

section Objects

variable {κ σ : Type} {key : Reader κ} {field : κ → σ → Reader σ}

/-- What is left of an object when its next field is the first, or is not. -/
def fieldsText (first : Bool) (fields : List (String × Json)) : List Char :=
  if first || fields.isEmpty then renderFields fields else ',' :: renderFields fields

theorem renderFields_cons (name : String) (value : Json) (fields : List (String × Json)) :
    renderFields ((name, value) :: fields) =
      renderString name ++ ':' :: (value.renderChars ++ fieldsText false fields) := by
  cases fields with
  | nil => rfl
  | cons next fields =>
    rw [renderFields]
    · rfl
    · simp

theorem endsNumber_fieldsText (fields : List (String × Json)) (rest : Bytes) :
    EndsNumber (utf8 (fieldsText false fields) ++ rest) := by
  cases fields with
  | nil => exact EndsNumber.cons rfl (by decide) rest
  | cons next fields => exact EndsNumber.cons rfl (by decide) _

theorem nextKey_nil (first : Bool) (rest : Bytes) :
    nextKey first (utf8 (fieldsText first []) ++ rest) = .ok none := by
  cases first <;> rfl

theorem nextKey_cons (first : Bool) (name : String) (value : Json)
    (fields : List (String × Json)) (rest : Bytes) :
    nextKey first (utf8 (fieldsText first ((name, value) :: fields)) ++ rest) =
      .ok (some (utf8 (name.toList.flatMap escape) ++ 34 :: 58 ::
        (utf8 value.renderChars ++ (utf8 (fieldsText false fields) ++ rest)))) := by
  have htext : utf8 (renderFields ((name, value) :: fields)) ++ rest =
      34 :: (utf8 (name.toList.flatMap escape) ++ 34 :: 58 ::
        (utf8 value.renderChars ++ (utf8 (fieldsText false fields) ++ rest))) := by
    rw [renderFields_cons, utf8_append, List.append_assoc, utf8_renderString]
    show _ :: (_ ++ _ :: (58 :: utf8 (value.renderChars ++ fieldsText false fields) ++ rest)) = _
    rw [utf8_append, List.cons_append, List.append_assoc]
  cases first with
  | true =>
    show nextKey true (utf8 (renderFields ((name, value) :: fields)) ++ rest) = _
    rw [htext]
    rfl
  | false =>
    show nextKey false (44 :: (utf8 (renderFields ((name, value) :: fields)) ++ rest)) = _
    rw [htext]
    rfl

/-- The reader makes `k` of the text of a name, behind the quote that opens it. -/
def ReadsKey (key : Reader κ) (name : String) (k : κ) : Prop :=
  ∀ rest, key (utf8 (name.toList.flatMap escape) ++ 34 :: rest) = .ok (k, rest)

/-- Fields that are read one after the other take the first state to the second. -/
inductive ReadsFields (key : Reader κ) (field : κ → σ → Reader σ) :
    σ → List (String × Json) → σ → Prop
  | nil (state : σ) : ReadsFields key field state [] state
  | cons {name : String} {value : Json} {fields : List (String × Json)} {k : κ}
      {state next last : σ} (hkey : ReadsKey key name k)
      (hfield : ∀ rest, EndsNumber rest →
        field k state (58 :: (utf8 value.renderChars ++ rest)) = .ok (next, rest))
      (hrest : ReadsFields key field next fields last) :
      ReadsFields key field state ((name, value) :: fields) last

/-- A step for each field makes a fold over all of them. -/
theorem readsFields_map {β : Type} {entries : List β} {render : β → String × Json} {k : β → κ}
    (step : σ → β → σ) (hkey : ∀ e ∈ entries, ReadsKey key (render e).1 (k e))
    (hfield : ∀ e ∈ entries, ∀ state rest, EndsNumber rest →
      field (k e) state (58 :: (utf8 (render e).2.renderChars ++ rest)) =
        .ok (step state e, rest)) {state last : σ} (hlast : entries.foldl step state = last) :
    ReadsFields key field state (entries.map render) last := by
  induction entries generalizing state with
  | nil => exact hlast ▸ .nil state
  | cons e entries ih =>
    refine .cons (hkey e List.mem_cons_self) (hfield e List.mem_cons_self state) ?_
    exact ih (fun d hd => hkey d (List.mem_cons_of_mem _ hd))
      (fun d hd => hfield d (List.mem_cons_of_mem _ hd)) hlast

theorem readFieldsFrom_render {state last : σ} {fields : List (String × Json)}
    (h : ReadsFields key field state fields last) {fuel : Nat} (hfuel : fields.length < fuel)
    (first : Bool) (rest : Bytes) :
    readFieldsFrom key field fuel first state (utf8 (fieldsText first fields) ++ rest) =
      .ok (last, 125 :: rest) := by
  induction h generalizing fuel first with
  | nil state =>
    obtain ⟨fuel, rfl⟩ : ∃ n, fuel = n + 1 := ⟨fuel - 1, by omega⟩
    show (nextKey first _ >>= _) = _
    rw [nextKey_nil]
    cases first <;> rfl
  | cons hkey hfield _ ih =>
    rw [List.length_cons] at hfuel
    obtain ⟨fuel, rfl⟩ : ∃ n, fuel = n + 1 := ⟨fuel - 1, by omega⟩
    show (nextKey first _ >>= _) = _
    rw [nextKey_cons]
    show (key _ >>= _) = _
    rw [hkey]
    show (field _ _ _ >>= _) = _
    rw [hfield _ (endsNumber_fieldsText _ _)]
    exact ih (by omega) false

/-- What every field preserves holds behind all of them. -/
theorem preserves_readFieldsFrom {P : σ → Prop}
    (hfield : ∀ k state s next after, P state → field k state s = .ok (next, after) → P next)
    {fuel : Nat} {first : Bool} {state last : σ} {s after : Bytes} (start : P state)
    (h : readFieldsFrom key field fuel first state s = .ok (last, after)) : P last := by
  induction fuel generalizing first state s with
  | zero => cases h
  | succ fuel ih =>
    obtain ⟨behind, -, h⟩ := bind_eq_ok.1 h
    cases behind with
    | none =>
      obtain ⟨rfl, -⟩ := Prod.mk.inj (Except.ok.inj h)
      exact start
    | some behind =>
      obtain ⟨⟨k, rest⟩, -, h⟩ := bind_eq_ok.1 h
      obtain ⟨⟨next, behind⟩, hnext, h⟩ := bind_eq_ok.1 h
      exact ih (hfield _ _ _ _ _ start hnext) h

/-- Fields can only be read if every one of them can be. -/
theorem forall_of_readFieldsFrom {β : Type} {entries : List β} {render : β → String × Json}
    {k : β → κ} {good : β → Prop} (hkey : ∀ e ∈ entries, ReadsKey key (render e).1 (k e))
    (hfield : ∀ e ∈ entries, ∀ state rest next after, EndsNumber rest →
      field (k e) state (58 :: (utf8 (render e).2.renderChars ++ rest)) = .ok (next, after) →
        good e ∧ after = rest)
    {fuel : Nat} {first : Bool} {state last : σ} {rest after : Bytes}
    (h : readFieldsFrom key field fuel first state
      (utf8 (fieldsText first (entries.map render)) ++ rest) = .ok (last, after)) :
    ∀ e ∈ entries, good e := by
  induction entries generalizing fuel first state with
  | nil => simp
  | cons e entries ih =>
    cases fuel with
    | zero => cases h
    | succ fuel =>
      obtain ⟨start, hstart, h⟩ := bind_eq_ok.1 h
      rw [List.map_cons, nextKey_cons] at hstart
      obtain rfl := Except.ok.inj hstart
      obtain ⟨_, hk, h⟩ := bind_eq_ok.1 h
      rw [hkey e List.mem_cons_self] at hk
      obtain rfl := Except.ok.inj hk
      obtain ⟨⟨next, behind⟩, hf, h⟩ := bind_eq_ok.1 h
      obtain ⟨hgood, rfl⟩ := hfield e List.mem_cons_self _ _ _ _ (endsNumber_fieldsText _ _) hf
      have hrest := ih (fun d hd => hkey d (List.mem_cons_of_mem _ hd))
        (fun d hd => hfield d (List.mem_cons_of_mem _ hd)) h
      rintro d hd
      rcases List.mem_cons.1 hd with rfl | hd
      · exact hgood
      · exact hrest d hd

theorem length_le_length_renderFields (fields : List (String × Json)) :
    fields.length ≤ (renderFields fields).length := by
  induction fields with
  | nil => exact Nat.zero_le _
  | cons next fields ih =>
    obtain ⟨name, value⟩ := next
    rw [renderFields_cons, List.length_append, List.length_cons, List.length_cons,
      List.length_append, fieldsText]
    cases fields with
    | nil => exact Nat.le_trans (Nat.le_add_left 1 _) (Nat.le_add_left _ _)
    | cons next fields =>
      show _ ≤ _ + (_ + ((renderFields (next :: fields)).length + 1) + 1)
      omega

/-- The fields behind an opening brace, with as much fuel as there are bytes. -/
theorem readFieldsFrom_length {state last : σ} {fields : List (String × Json)}
    (h : ReadsFields key field state fields last) (rest : Bytes) :
    readFieldsFrom key field ((utf8 (renderFields fields) ++ rest).length + 1) true state
      (utf8 (renderFields fields) ++ rest) = .ok (last, 125 :: rest) := by
  have hlength := length_le_length_renderFields fields
  have hbytes := Text.length_le_length_utf8 (renderFields fields)
  refine readFieldsFrom_render h ?_ true rest
  rw [List.length_append]
  omega

theorem readObject_render {state last : σ} {fields : List (String × Json)}
    (h : ReadsFields key field state fields last) (rest : Bytes) :
    readObject key field state (utf8 (renderFields fields) ++ rest) = .ok (last, rest) := by
  show (readFieldsFrom key field _ true state _ >>= _) = _
  rw [readFieldsFrom_length h]
  rfl

theorem forall_of_readObject {β : Type} {entries : List β} {render : β → String × Json}
    {k : β → κ} {good : β → Prop} (hkey : ∀ e ∈ entries, ReadsKey key (render e).1 (k e))
    (hfield : ∀ e ∈ entries, ∀ state rest next after, EndsNumber rest →
      field (k e) state (58 :: (utf8 (render e).2.renderChars ++ rest)) = .ok (next, after) →
        good e ∧ after = rest)
    {state last : σ} {rest after : Bytes}
    (h : readObject key field state (utf8 (renderFields (entries.map render)) ++ rest) =
      .ok (last, after)) : ∀ e ∈ entries, good e := by
  obtain ⟨⟨last, behind⟩, hfields, -⟩ := bind_eq_ok.1 h
  exact forall_of_readFieldsFrom hkey hfield (show readFieldsFrom key field _ true _
    (utf8 (fieldsText true (entries.map render)) ++ rest) = _ from hfields)

end Objects

/-- The name of a field, read as a string. -/
theorem readsKey_readString (name : String) : ReadsKey readString name name :=
  fun rest => readString_render name rest

/-! ### Values of any shape -/

/-- The values that a reader can give, with containers nested at most `depth` deep. -/
inductive Canonical : Nat → Json → Prop
  | null {depth : Nat} : Canonical depth null
  | bool {depth : Nat} (b : Bool) : Canonical depth (bool b)
  | number {depth : Nat} {n : Number} (h : n.Canonical) : Canonical depth (number n)
  | string {depth : Nat} (s : String) : Canonical depth (string s)
  | array {depth : Nat} {items : List Json} (h : ∀ item ∈ items, Canonical depth item) :
      Canonical (depth + 1) (array items)
  | object {depth : Nat} {fields : List (String × Json)}
      (ascending : fields.Pairwise fun a b => a.1 < b.1)
      (h : ∀ field ∈ fields, Canonical depth field.2) : Canonical (depth + 1) (object fields)

theorem Canonical.starts {depth : Nat} {value : Json} (h : Canonical depth value) :
    Starts (utf8 value.renderChars) := by
  cases h with
  | null => exact ⟨110, _, rfl, rfl, by decide⟩
  | bool b =>
    cases b with
    | false => exact ⟨102, _, rfl, rfl, by decide⟩
    | true => exact ⟨116, _, rfl, rfl, by decide⟩
  | number h =>
    have hstarts := starts_number h []
    rwa [List.append_nil] at hstarts
  | string s => exact ⟨34, _, rfl, rfl, by decide⟩
  | array h => exact ⟨91, _, rfl, rfl, by decide⟩
  | object ascending h => exact ⟨123, _, rfl, rfl, by decide⟩

theorem readValueWith_number (inner : Option (Reader Json)) {n : Number} (h : n.Canonical) :
    Reads (readValueWith inner) (number n) (number n) := by
  intro rest hrest
  have hstarts := startsNumber_render h rest
  have hread := readNumber_render h hrest
  show readValueWith inner (utf8 n.render ++ rest) = _
  rw [readValueWith, (starts_number h rest).skipBlanks]
  generalize utf8 n.render ++ rest = s at hstarts hread ⊢
  match s, hstarts, hread with
  | b :: others, hb, hread =>
    have hletter : b ≠ 110 ∧ b ≠ 116 ∧ b ≠ 102 := by
      refine ⟨?_, ?_, ?_⟩ <;> (rintro rfl; exact Bool.false_ne_true hb)
    have hb : (b == 45 || isDigitByte b) = true := hb
    simp only [beq_iff_eq, hletter, hb, hread, if_true, if_false]
    rfl

/-- A field behind all others is added at the end. -/
theorem setField_append {found : List (String × Json)} {name : String}
    (h : ∀ field ∈ found, field.1 < name) (value : Json) :
    setField found name value = found ++ [(name, value)] := by
  induction found with
  | nil => rfl
  | cons field found ih =>
    have hlt := h field List.mem_cons_self
    have hne : name ≠ field.1 := by
      rintro rfl
      exact String.lt_irrefl _ hlt
    rw [setField, if_neg (String.lt_asymm hlt), if_neg hne,
      ih fun other hm => h other (List.mem_cons_of_mem _ hm), List.cons_append]

/-- Fields in the strict order of their keys are kept in that order. -/
theorem foldl_setField (found : List (String × Json)) {fields : List (String × Json)}
    (h : (found ++ fields).Pairwise fun a b => a.1 < b.1) :
    fields.foldl (fun found field => setField found field.1 field.2) found = found ++ fields := by
  induction fields generalizing found with
  | nil => rw [List.foldl_nil, List.append_nil]
  | cons field fields ih =>
    have hbefore : ∀ other ∈ found, other.1 < field.1 := fun other hm =>
      (List.pairwise_append.1 h).2.2 other hm field List.mem_cons_self
    rw [List.append_cons] at h
    rw [List.foldl_cons, setField_append hbefore, ih _ h, ← List.append_cons]

theorem readObject_fields {inner : Reader Json} {fields : List (String × Json)}
    (ascending : fields.Pairwise fun a b => a.1 < b.1)
    (h : ∀ field ∈ fields, Reads inner field.2 field.2) (rest : Bytes) :
    readObject readString (fun key fields s => do
      let s ← expectColon s
      let (value, s) ← inner s
      .ok (setField fields key value, s)) [] (utf8 (renderFields fields) ++ rest) =
        .ok (fields, rest) := by
  refine readObject_render ?_ rest
  suffices hmap : ReadsFields readString (fun key fields s => do
      let s ← expectColon s
      let (value, s) ← inner s
      .ok (setField fields key value, s)) [] (fields.map id) fields by
    rwa [List.map_id] at hmap
  have hkeys : ∀ field ∈ fields, ReadsKey readString (id field).1 field.1 :=
    fun field _ => readsKey_readString field.1
  have hfold : fields.foldl (fun found field => setField found field.1 field.2) [] = fields :=
    foldl_setField [] ascending
  refine readsFields_map _ hkeys ?_ hfold
  intro field hm state rest hrest
  show (inner _ >>= _) = _
  rw [show id field = field from rfl, h field hm rest hrest]
  rfl

/-- **A canonical value that is written reads back.** -/
theorem readValue_render {depth : Nat} {value : Json} (h : Canonical depth value) :
    Reads (readValue depth) value value := by
  have hwith : ∀ depth, ∃ inner, readValue depth = readValueWith inner := by
    rintro (_ | depth)
    · exact ⟨none, rfl⟩
    · exact ⟨_, rfl⟩
  induction h with
  | @null depth =>
    intro rest _
    obtain ⟨inner, hinner⟩ := hwith depth
    rw [hinner]
    rfl
  | @bool depth b =>
    intro rest _
    obtain ⟨inner, hinner⟩ := hwith depth
    rw [hinner]
    cases b <;> rfl
  | @number depth n hn =>
    obtain ⟨inner, hinner⟩ := hwith depth
    rw [hinner]
    exact readValueWith_number inner hn
  | @string depth s =>
    intro rest _
    obtain ⟨inner, hinner⟩ := hwith depth
    show readValue depth (utf8 (renderString s) ++ rest) = _
    rw [hinner, utf8_renderString]
    show (readString _).map _ = _
    rw [readString_render]
    rfl
  | @array depth items hitems ih =>
    intro rest _
    have hread : readArray (readValue depth) (utf8 (renderItems (items.map id)) ++ rest) =
        .ok (items, rest) :=
      readArray_render (fun item hm => ⟨(hitems item hm).starts, ih item hm⟩) rest
    rw [List.map_id] at hread
    show (readArray (readValue depth) (utf8 (renderItems items) ++ rest)).map _ = _
    rw [hread]
    rfl
  | @object depth fields ascending _ ih =>
    intro rest _
    show (readObject readString _ [] (utf8 (renderFields fields) ++ rest) >>= _) = _
    rw [readObject_fields ascending ih]
    rfl

/-! ### Values on a line -/

/-- Bytes without controls. -/
def Printable (s : Bytes) : Prop := ∀ b ∈ s, 32 ≤ b.toNat

instance (s : Bytes) : Decidable (Printable s) :=
  decidable_of_iff (s.all (32 ≤ ·.toNat) = true) (by simp [Printable])

theorem Printable.append {front rest : Bytes} (h : Printable front) (h' : Printable rest) :
    Printable (front ++ rest) := by
  intro b hb
  rcases List.mem_append.1 hb with hb | hb
  · exact h b hb
  · exact h' b hb

theorem Printable.cons {b : UInt8} (h : 32 ≤ b.toNat) {rest : Bytes} (h' : Printable rest) :
    Printable (b :: rest) := by
  intro c hc
  rcases List.mem_cons.1 hc with rfl | hc
  · exact h
  · exact h' c hc

theorem Digits.printable {digits : Bytes} (h : Digits digits) : Printable digits := by
  intro b hb
  have hdigit := h.all b hb
  simp only [isDigitByte, Bool.and_eq_true, decide_eq_true_eq, UInt8.le_iff_toNat_le] at hdigit
  have hle : 48 ≤ b.toNat := hdigit.1
  omega

theorem Spelling.WellFormed.printable {s : Spelling} (h : s.WellFormed) : Printable s.bytes := by
  have hsign : Printable (if s.negative then [45] else []) := by
    cases s.negative <;> decide
  have hfraction : Printable (Spelling.fractionBytes s.fraction) := by
    cases hf : s.fraction with
    | none => decide
    | some digits => exact Printable.cons (by decide) (h.fraction digits hf).printable
  have hexponent : Printable (Spelling.exponentBytes s.exponent) := by
    cases he : s.exponent with
    | none => decide
    | some exponent =>
      refine Printable.cons (by decide) (Printable.cons ?_ (h.exponent exponent he).printable)
      cases exponent.1 <;> decide
  exact hsign.append (h.whole.printable.append (hfraction.append hexponent))

theorem printable_renderString (s : String) : Printable (utf8 (renderString s)) :=
  fun _ hb => Text.le_of_mem_utf8 (fun _ hc => le_of_mem_renderString hc) hb

theorem printable_renderItems {items : List Json}
    (h : ∀ item ∈ items, Printable (utf8 item.renderChars)) :
    Printable (utf8 (renderItems items)) := by
  induction items with
  | nil => decide
  | cons item items ih =>
    have ih := ih fun other hm => h other (List.mem_cons_of_mem _ hm)
    rw [renderItems_cons, utf8_append]
    refine (h item List.mem_cons_self).append ?_
    cases items with
    | nil => exact ih
    | cons next items => exact Printable.cons (by decide) ih

theorem printable_renderFields {fields : List (String × Json)}
    (h : ∀ field ∈ fields, Printable (utf8 field.2.renderChars)) :
    Printable (utf8 (renderFields fields)) := by
  induction fields with
  | nil => decide
  | cons field fields ih =>
    have ih := ih fun other hm => h other (List.mem_cons_of_mem _ hm)
    have hfield := h field List.mem_cons_self
    obtain ⟨name, value⟩ := field
    rw [renderFields_cons, utf8_append]
    refine (printable_renderString name).append (Printable.cons (by decide) ?_)
    show Printable (utf8 (value.renderChars ++ fieldsText false fields))
    rw [utf8_append]
    refine hfield.append ?_
    cases fields with
    | nil => exact ih
    | cons next fields => exact Printable.cons (by decide) ih

/-- A value is written on one line. -/
theorem Canonical.printable {depth : Nat} {value : Json} (h : Canonical depth value) :
    Printable (utf8 value.renderChars) := by
  induction h with
  | null => decide
  | bool b => cases b <;> decide
  | number hn =>
    obtain ⟨s, hs, hbytes, -⟩ := hn.exists_spelling
    exact hbytes ▸ hs.printable
  | string s => exact printable_renderString s
  | array _ ih => exact Printable.cons (by decide) (printable_renderItems ih)
  | object _ _ ih => exact Printable.cons (by decide) (printable_renderFields ih)

end Superstep.Json
