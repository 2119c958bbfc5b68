/-
When the items of a sketch come back as they were.

A text is written with one byte for each code point and read as UTF-8, and
four bytes are written for its length of which three are read. Both agree
on ASCII characters up to a length of 2^24, and nowhere else: a code point
from 128 on is refused (from 256) or is no UTF-8 with the length given, and
a longer text is cut off. Numbers always come back.

# Chain

1. `toBytes_str`, `toBytes_int`, `toBytes_float`: what is written.
2. `decode_ordBytes_iff`: when code points written as bytes are UTF-8 of
   themselves.
3. `fromBytes_text`, `fromBytes_int`, `fromBytes_float`: what is read where
   an item was written.
4. `plain_of_readsBack`, `roundTrips_of_plain`: when that is the item.
5. `roundTrips_iff`, and `itemsRoundTrip_iff` by induction on the items,
   each of which is read from the end of the one before.
-/
import PrimiHub.FL.Serde
import PrimiHub.Lib.Traverse

namespace PrimiHub.FL.Sketch

open Lib (toLe ofLe utf8Decode bind_eq_ok_iff)

-- ================================================================ writing

theorem typeMap_int (type : IntType) : typeMap type.name = "int" := by
  cases type <;> decide

theorem typeMap_float (type : FloatType) : typeMap type.name = "float" := by
  cases type <;> decide

/-- The announced sizes. -/
theorem getSize_str (chars : List CodePoint) :
    getSize (.str chars) = 5 + chars.length :=
  if_pos (show typeMap "str" = "str" by decide)

theorem getSize_int (type : IntType) (z : Int) :
    getSize (.int type z) = 9 := by
  refine if_neg ?_
  rw [Item.typeName, typeMap_int]
  decide

theorem getSize_float (type : FloatType) (bits : BitVec 64) :
    getSize (.float type bits) = 9 := by
  refine if_neg ?_
  rw [Item.typeName, typeMap_float]
  decide

/-- The bytes of a text. -/
def textBytes (chars : List CodePoint) : Bytes :=
  tag 's' :: (toLe 4 chars.length ++ chars.map CodePoint.byte)

/-- The bytes of a number. -/
def numberBytes (letter : Char) (bits : BitVec 64) : Bytes :=
  tag letter :: toLe 8 bits.toNat

theorem length_textBytes (chars : List CodePoint) :
    (textBytes chars).length = 5 + chars.length := by
  rw [textBytes, List.length_cons, List.length_append, Lib.length_toLe,
    List.length_map]
  omega

theorem length_numberBytes (letter : Char) (bits : BitVec 64) :
    (numberBytes letter bits).length = 9 := by
  rw [numberBytes, List.length_cons, Lib.length_toLe]

/-- A text is written if all its code points are bytes. -/
theorem toBytes_str {chars : List CodePoint} (hlen : chars.length < 2 ^ 32)
    {bytes : Bytes} :
    toBytes (.str chars) = .ok bytes
      ↔ (∀ c ∈ chars, c.val < 256) ∧ bytes = textBytes chars := by
  have hstr : typeMap (Item.str chars).typeName = "str" := by
    show typeMap "str" = "str"
    decide
  have hfield : lengthField (Item.str chars).chars.length
      = .ok (toLe 4 chars.length) := if_pos hlen
  simp only [toBytes, hstr, if_true, hfield]
  by_cases hbytes : ∀ c ∈ chars, c.val < 256
  · have hord : ordBytes (Item.str chars).chars
        = .ok (chars.map CodePoint.byte) := if_pos hbytes
    rw [hord]
    constructor
    · intro h
      exact ⟨hbytes, (Except.ok.inj h).symm⟩
    · rintro ⟨-, rfl⟩
      rfl
  · have hord : ordBytes (Item.str chars).chars = .error .valueError :=
      if_neg hbytes
    rw [hord]
    constructor
    · intro h
      cases h
    · rintro ⟨h, -⟩
      exact absurd h hbytes

theorem toBytes_int (type : IntType) {z : Int}
    (hz : -2 ^ 63 ≤ z ∧ z < 2 ^ 63) :
    toBytes (.int type z) = .ok (numberBytes 'q' (BitVec.ofInt 64 z)) := by
  have hint : typeMap (Item.int type z).typeName = "int" := typeMap_int type
  have hstr : ("int" : String) ≠ "str" := by decide
  have hpack : packQ (.int type z)
      = .ok (toLe 8 (BitVec.ofInt 64 z).toNat) := if_pos hz
  simp only [toBytes, hint, if_neg hstr, if_true, hpack]
  rfl

theorem toBytes_float (type : FloatType) (bits : BitVec 64) :
    toBytes (.float type bits) = .ok (numberBytes 'd' bits) := by
  have hfloat : typeMap (Item.float type bits).typeName = "float" :=
    typeMap_float type
  have hstr : ("float" : String) ≠ "str" := by decide
  have hint : ("float" : String) ≠ "int" := by decide
  simp only [toBytes, hfloat, if_neg hstr, if_neg hint, if_true, packD]
  rfl

-- =============================================================== decoding

/-- What `decode` returns is a text with these bytes. -/
theorem decode_eq_ok_iff {bytes : Bytes} {chars : List CodePoint} :
    decode bytes = .ok chars ↔
      ∃ text, utf8Decode bytes = some text
        ∧ chars = text.map CodePoint.ofChar := by
  unfold decode
  cases utf8Decode bytes with
  | none =>
      constructor
      · intro h
        cases h
      · rintro ⟨text, htext, -⟩
        cases htext
  | some text =>
      constructor
      · intro h
        exact ⟨text, rfl, (Except.ok.inj h).symm⟩
      · rintro ⟨text, htext, rfl⟩
        rw [Option.some.inj htext]

theorem length_le_of_decode {bytes : Bytes} {chars : List CodePoint}
    (h : decode bytes = .ok chars) : chars.length ≤ bytes.length := by
  obtain ⟨text, htext, rfl⟩ := decode_eq_ok_iff.mp h
  rw [List.length_map]
  exact Lib.length_le_of_utf8Decode htext

/-- An ASCII code point is a character. -/
theorem ofChar_ofNat {c : CodePoint} (hc : c.val < 128) :
    CodePoint.ofChar (Char.ofNat c.val) = c := by
  refine Fin.ext ?_
  show (Char.ofNat c.val).toNat = c.val
  have hvalid : c.val.isValidChar := Or.inl (by omega)
  rw [Char.ofNat, dif_pos hvalid]
  rfl

/-- Code points as bytes are themselves in UTF-8 exactly if they are
ASCII. -/
theorem decode_ordBytes_iff (chars : List CodePoint) :
    decode (chars.map CodePoint.byte) = .ok chars
      ↔ ∀ c ∈ chars, c.val < 128 := by
  constructor
  · intro h
    obtain ⟨text, htext, hchars⟩ := decode_eq_ok_iff.mp h
    have hlen : text.length = (chars.map CodePoint.byte).length := by
      rw [List.length_map, hchars, List.length_map]
    have hascii := Lib.ascii_of_length_eq htext hlen
    intro c hc
    rw [hchars] at hc
    obtain ⟨d, hd, rfl⟩ := List.mem_map.mp hc
    exact hascii d hd
  · intro hascii
    obtain ⟨text, htext⟩ : ∃ text : List Char,
        text.map CodePoint.ofChar = chars := by
      refine ⟨chars.map fun c => Char.ofNat c.val, ?_⟩
      rw [List.map_map]
      exact (List.map_congr_left (g := id) fun c hc =>
        ofChar_ofNat (hascii c hc)).trans (List.map_id _)
    subst htext
    refine decode_eq_ok_iff.mpr ⟨text, ?_, rfl⟩
    rw [List.map_map]
    exact Lib.utf8Decode_ascii fun d hd =>
      hascii _ (List.mem_map_of_mem hd)

-- =============================================================== reading

/-- Data from the place on where an item was written. -/
theorem drop_written (before bytes after : Bytes) (k : Nat) :
    (before ++ bytes ++ after).drop (before.length + k)
      = (bytes ++ after).drop k := by
  rw [List.append_assoc, List.drop_length_add_append]

/-- The letter there. -/
theorem getElem?_written (before after : Bytes) (letter : UInt8)
    (rest : Bytes) :
    (before ++ letter :: rest ++ after)[before.length]? = some letter := by
  rw [List.append_assoc, List.getElem?_append_right (Nat.le_refl _),
    Nat.sub_self]
  rfl

/-- The length that is read is the one written modulo 2^24. -/
theorem numChars_written (before after : Bytes) (chars : List CodePoint) :
    ofLe (((before ++ textBytes chars ++ after).drop
        (before.length + 1)).take 3) = chars.length % 2 ^ 24 := by
  have hpow : 256 ^ 3 = 2 ^ 24 := rfl
  rw [drop_written]
  show ofLe ((toLe 4 chars.length ++ chars.map CodePoint.byte ++ after).take 3)
    = _
  rw [List.append_assoc, List.take_append_of_le_length (by
      rw [Lib.length_toLe]
      decide),
    Lib.take_toLe (by decide), Lib.ofLe_toLe, hpow]

/-- The bytes that are read for the characters. -/
theorem text_written (before after : Bytes) (chars : List CodePoint) :
    (before ++ textBytes chars ++ after).drop (before.length + 5)
      = chars.map CodePoint.byte ++ after := by
  have hfield : (toLe 4 chars.length).length = 4 := Lib.length_toLe _ _
  rw [drop_written]
  show (toLe 4 chars.length ++ chars.map CodePoint.byte ++ after).drop 4 = _
  rw [List.append_assoc, List.drop_left' hfield]

/-- `from_bytes` where a text was written. -/
theorem fromBytes_text (before after : Bytes) (chars : List CodePoint) :
    fromBytes (before ++ textBytes chars ++ after) before.length
      = (decode ((chars.map CodePoint.byte ++ after).take
          (chars.length % 2 ^ 24))).map fun val =>
            (.str val, 5 + chars.length % 2 ^ 24) := by
  have hletter : (before ++ textBytes chars ++ after)[before.length]?
      = some (tag 's') := getElem?_written _ _ _ _
  have hroom : ¬before.length + (before ++ textBytes chars ++ after).length
      < chars.length % 2 ^ 24 := by
    have hmod := Nat.mod_le chars.length (2 ^ 24)
    rw [List.length_append, List.length_append, length_textBytes]
    omega
  simp only [fromBytes, hletter, if_true, numChars_written, if_neg hroom,
    text_written]
  cases decode ((chars.map CodePoint.byte ++ after).take
    (chars.length % 2 ^ 24)) <;> rfl

/-- `struct.unpack_from` where a number was written. -/
theorem unpackFrom_written (before after : Bytes) (letter : Char)
    (bits : BitVec 64) :
    unpackFrom (before ++ numberBytes letter bits ++ after)
      (before.length + 1) = .ok bits := by
  have hroom : before.length + 1 + 8
      ≤ (before ++ numberBytes letter bits ++ after).length := by
    rw [List.length_append, List.length_append, length_numberBytes]
    omega
  have hnumber : ((before ++ numberBytes letter bits ++ after).drop
      (before.length + 1)).take 8 = toLe 8 bits.toNat := by
    rw [drop_written]
    exact List.take_left' (Lib.length_toLe _ _)
  have hwidth : bits.toNat % 256 ^ 8 = bits.toNat :=
    Nat.mod_eq_of_lt bits.isLt
  rw [unpackFrom, if_pos hroom, hnumber, Lib.ofLe_toLe, hwidth,
    BitVec.ofNat_toNat, BitVec.setWidth_eq]

/-- `from_bytes` where an integer was written. -/
theorem fromBytes_int (before after : Bytes) {z : Int}
    (hz : -2 ^ 63 ≤ z ∧ z < 2 ^ 63) :
    fromBytes (before ++ numberBytes 'q' (BitVec.ofInt 64 z) ++ after)
      before.length = .ok (.int z, 9) := by
  have hletter : (before ++ numberBytes 'q' (BitVec.ofInt 64 z)
      ++ after)[before.length]? = some (tag 'q') := getElem?_written _ _ _ _
  have htag : tag 'q' ≠ tag 's' := by decide
  have hvalue : (BitVec.ofInt 64 z).toInt = z :=
    BitVec.toInt_ofInt_eq_self (by decide) hz.1 hz.2
  simp only [fromBytes, hletter, if_neg htag, if_true, unpackFrom_written]
  show Except.ok (Value.int (BitVec.ofInt 64 z).toInt, 9) = _
  rw [hvalue]

/-- `from_bytes` where a float was written. -/
theorem fromBytes_float (before after : Bytes) (bits : BitVec 64) :
    fromBytes (before ++ numberBytes 'd' bits ++ after) before.length
      = .ok (.float bits, 9) := by
  have hletter : (before ++ numberBytes 'd' bits
      ++ after)[before.length]? = some (tag 'd') := getElem?_written _ _ _ _
  have htag : tag 'd' ≠ tag 's' := by decide
  have htag' : tag 'd' ≠ tag 'q' := by decide
  simp only [fromBytes, hletter, if_neg htag, if_neg htag', if_true,
    unpackFrom_written]
  rfl

-- ============================================================= one item

/-- A text that is read as it was is plain. -/
theorem plain_of_fromBytes_text {before after : Bytes}
    {chars : List CodePoint} {size : Nat}
    (h : fromBytes (before ++ textBytes chars ++ after) before.length
      = .ok (.str chars, size)) : (Item.str chars).Plain := by
  rw [fromBytes_text] at h
  obtain ⟨val, hdecode, hval⟩ : ∃ val, decode ((chars.map CodePoint.byte
      ++ after).take (chars.length % 2 ^ 24)) = .ok val
        ∧ (Value.str val, 5 + chars.length % 2 ^ 24) = (.str chars, size) := by
    cases hdecode : decode ((chars.map CodePoint.byte ++ after).take
        (chars.length % 2 ^ 24)) with
    | error e =>
        rw [hdecode] at h
        cases h
    | ok val =>
        rw [hdecode] at h
        exact ⟨val, rfl, Except.ok.inj h⟩
  obtain rfl : val = chars := Value.str.inj (Prod.mk.inj hval).1
  -- no more characters than bytes that were read
  have hlen : val.length < 2 ^ 24 := by
    have hle := length_le_of_decode hdecode
    rw [List.length_take] at hle
    have hmod := Nat.mod_lt val.length (show 0 < 2 ^ 24 by decide)
    omega
  refine ⟨?_, hlen⟩
  have hbytes : (val.map CodePoint.byte).length = val.length :=
    List.length_map _
  rw [Nat.mod_eq_of_lt hlen, List.take_left' hbytes] at hdecode
  exact (decode_ordBytes_iff val).mp hdecode

/-- Supported items that are plain come back. -/
theorem roundTrips_of_plain {item : Item} (hsupported : item.Supported)
    (hplain : item.Plain) (before after : Bytes) :
    RoundTrips item before after := by
  cases item with
  | str chars =>
      obtain ⟨hascii, hlen⟩ := hplain
      refine ⟨textBytes chars, .str chars, ?_, rfl, ?_, ?_⟩
      · refine (toBytes_str hsupported).mpr ⟨fun c hc => ?_, rfl⟩
        exact Nat.lt_trans (hascii c hc) (by decide)
      · rw [length_textBytes, getSize_str]
      · have hbytes : (chars.map CodePoint.byte).length = chars.length :=
          List.length_map _
        rw [fromBytes_text, Nat.mod_eq_of_lt hlen, List.take_left' hbytes,
          (decode_ordBytes_iff chars).mpr hascii, getSize_str]
        rfl
  | int type z =>
      refine ⟨_, .int z, toBytes_int type hsupported, rfl, ?_, ?_⟩
      · rw [length_numberBytes, getSize_int]
      · rw [fromBytes_int before after hsupported, getSize_int]
  | float type bits =>
      refine ⟨_, .float bits, toBytes_float type bits, rfl, ?_, ?_⟩
      · rw [length_numberBytes, getSize_float]
      · rw [fromBytes_float, getSize_float]
  | other type => exact hsupported.elim

/-- An item that is read as it was written is plain, whatever size is
returned with it. -/
theorem plain_of_readsBack {item : Item} (hsupported : item.Supported)
    {before bytes after : Bytes} {value : Value} {size : Nat}
    (hbytes : toBytes item = .ok bytes) (hvalue : item.value = some value)
    (h : fromBytes (before ++ bytes ++ after) before.length
      = .ok (value, size)) : item.Plain := by
  cases item with
  | str chars =>
      obtain ⟨-, rfl⟩ := (toBytes_str hsupported).mp hbytes
      obtain rfl := Option.some.inj hvalue
      exact plain_of_fromBytes_text h
  | int type z => trivial
  | float type bits => trivial
  | other type => trivial

/-- One item. -/
theorem roundTrips_iff {item : Item} (hsupported : item.Supported)
    (before after : Bytes) : RoundTrips item before after ↔ item.Plain := by
  constructor
  · rintro ⟨bytes, value, hbytes, hvalue, -, hread⟩
    exact plain_of_readsBack hsupported hbytes hvalue hread
  · intro hplain
    exact roundTrips_of_plain hsupported hplain before after

-- ============================================================= all items

/-- Writing one item more. -/
theorem writeItems_cons {item : Item} {rest : List Item} {out : Bytes} :
    writeItems (item :: rest) = .ok out ↔
      ∃ bytes more, toBytes item = .ok bytes ∧ writeItems rest = .ok more
        ∧ out = bytes ++ more := by
  rw [writeItems, bind_eq_ok_iff]
  constructor
  · rintro ⟨bytes, hbytes, h⟩
    obtain ⟨more, hmore, h⟩ := bind_eq_ok_iff.mp h
    exact ⟨bytes, more, hbytes, hmore, (Except.ok.inj h).symm⟩
  · rintro ⟨bytes, more, hbytes, hmore, rfl⟩
    exact ⟨bytes, hbytes, bind_eq_ok_iff.mpr ⟨more, hmore, rfl⟩⟩

/-- Reading one item more. -/
theorem readItems_succ {data : Bytes} {count offset : Nat}
    {values : List Value} :
    readItems data (count + 1) offset = .ok values ↔
      ∃ value size rest, fromBytes data offset = .ok (value, size)
        ∧ readItems data count (offset + size) = .ok rest
        ∧ values = value :: rest := by
  rw [readItems, bind_eq_ok_iff]
  constructor
  · rintro ⟨⟨value, size⟩, hread, h⟩
    obtain ⟨rest, hrest, h⟩ := bind_eq_ok_iff.mp h
    exact ⟨value, size, rest, hread, hrest, (Except.ok.inj h).symm⟩
  · rintro ⟨value, size, rest, hread, hrest, rfl⟩
    exact ⟨(value, size), hread, bind_eq_ok_iff.mpr ⟨rest, hrest, rfl⟩⟩

/-- All items, by induction: the rest is written behind the first and read
from its end on. -/
theorem itemsRoundTrip_iff {items : List Item}
    (hsupported : ∀ item ∈ items, item.Supported) (before after : Bytes) :
    ItemsRoundTrip items before after ↔ ∀ item ∈ items, item.Plain := by
  induction items generalizing before with
  | nil =>
      refine iff_of_true ⟨[], [], rfl, rfl, rfl⟩ ?_
      intro item hitem
      cases hitem
  | cons item rest ih =>
      obtain ⟨hitem, hrest⟩ := List.forall_mem_cons.mp hsupported
      rw [List.forall_mem_cons]
      -- the same data, seen from the first item and from the rest
      have hfirst (bytes more : Bytes) : before ++ (bytes ++ more) ++ after
          = before ++ bytes ++ (more ++ after) := by
        simp only [List.append_assoc]
      have hbehind (bytes more : Bytes) : before ++ (bytes ++ more) ++ after
          = (before ++ bytes) ++ more ++ after := by
        simp only [List.append_assoc]
      constructor
      · rintro ⟨out, values, hwrite, hvalues, hread⟩
        obtain ⟨bytes, more, hbytes, hmore, rfl⟩ := writeItems_cons.mp hwrite
        obtain ⟨value, size, tail, hvalue, htail, rfl⟩ :=
          readItems_succ.mp hread
        rw [List.map_cons, List.map_cons, List.cons.injEq] at hvalues
        have hplain : item.Plain := by
          rw [hfirst] at hvalue
          exact plain_of_readsBack hitem hbytes hvalues.1 hvalue
        refine ⟨hplain, (ih hrest (before ++ bytes)).mp
          ⟨more, tail, hmore, hvalues.2, ?_⟩⟩
        obtain ⟨_, _, hbytes', -, hlen, hback⟩ :=
          roundTrips_of_plain hitem hplain before (more ++ after)
        obtain rfl := Except.ok.inj (hbytes'.symm.trans hbytes)
        rw [hfirst, hback] at hvalue
        obtain ⟨-, rfl⟩ := Prod.mk.inj (Except.ok.inj hvalue)
        rw [List.length_append, hlen, ← hbehind]
        exact htail
      · rintro ⟨hplain, hplains⟩
        have hone := roundTrips_of_plain hitem hplain before
        obtain ⟨bytes, value, hbytes, hvalue, hlen, -⟩ := hone []
        obtain ⟨more, values, hmore, hvalues, hread⟩ :=
          (ih hrest (before ++ bytes)).mpr hplains
        obtain ⟨_, _, hbytes', hvalue', -, hback⟩ := hone (more ++ after)
        obtain rfl := Except.ok.inj (hbytes.symm.trans hbytes')
        obtain rfl := Option.some.inj (hvalue.symm.trans hvalue')
        refine ⟨_, value :: values, writeItems_cons.mpr
          ⟨_, more, hbytes, hmore, rfl⟩, ?_, ?_⟩
        · rw [List.map_cons, List.map_cons, hvalue, hvalues]
        · rw [List.length_append, hlen, ← hbehind] at hread
          rw [← hfirst] at hback
          exact readItems_succ.mpr ⟨value, _, values, hback, hread, rfl⟩

/-- Supported items come back exactly if they are plain: each alone, in
any surroundings, and all of them one behind the other. -/
theorem serde_roundTrips_iff (before after : Bytes) :
    (∀ item : Item, item.Supported →
      (RoundTrips item before after ↔ item.Plain))
    ∧ ∀ items : List Item, (∀ item ∈ items, item.Supported) →
      (ItemsRoundTrip items before after ↔ ∀ item ∈ items, item.Plain) :=
  ⟨fun _ hsupported => roundTrips_iff hsupported before after,
    fun _ hsupported => itemsRoundTrip_iff hsupported before after⟩

/-- The two letters of `ok` and a number, between other bytes. -/
theorem serde_roundTrips_ok :
    RoundTrips (.str [111, 107]) [1] [2, 3]
      ∧ ItemsRoundTrip [.str [111, 107], .int .int64 (-7)] [] [] := by
  have hsupported : ∀ item ∈ [Item.str [111, 107], .int .int64 (-7)],
      item.Supported := by
    rw [List.forall_mem_cons, List.forall_mem_singleton]
    constructor
    · show 2 < 2 ^ 32
      omega
    · show -2 ^ 63 ≤ (-7 : Int) ∧ (-7 : Int) < 2 ^ 63
      omega
  have hplain : ∀ item ∈ [Item.str [111, 107], .int .int64 (-7)],
      item.Plain := by
    rw [List.forall_mem_cons, List.forall_mem_singleton]
    refine ⟨⟨?_, ?_⟩, trivial⟩
    · rw [List.forall_mem_cons, List.forall_mem_singleton]
      exact ⟨by decide, by decide⟩
    · show 2 < 2 ^ 24
      omega
  exact ⟨((serde_roundTrips_iff [1] [2, 3]).1 (.str [111, 107])
      (hsupported _ (List.mem_cons_self ..))).mpr
        (hplain _ (List.mem_cons_self ..)),
    ((serde_roundTrips_iff [] []).2 _ hsupported).mpr hplain⟩

/-- The letter U+00E9 does not come back. -/
theorem not_roundTrips_eAcute : ¬RoundTrips (.str [0xe9]) [] [] := by
  intro h
  have hsupported : (Item.str [0xe9]).Supported := by
    show 1 < 2 ^ 32
    omega
  have hplain := (roundTrips_iff hsupported [] []).mp h
  exact absurd (hplain.1 0xe9 (List.mem_cons_self ..)) (by decide)

end PrimiHub.FL.Sketch
