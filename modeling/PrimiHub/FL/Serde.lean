/-
`PyMixedItemsSerDe` (FL/sketch/serde.py): how the items of a frequent-items
sketch are written to bytes and read back.

# Items

An item is what a sketch of mixed data counts: a `str`, a number of
Python or numpy, or something the serialisation refuses. A `str` is a list
of code points, surrogates included. A float is its 64 bits. The code asks
for the name of the type and looks whether `int` or `float` is part of it.

# Bytes

A `bytearray` is extended by numbers below 256 only. `struct` packs and
unpacks two's complement and IEEE numbers, least significant byte first.
Slices stop at the end of the data. `bytes.decode()` is strict UTF-8.

The sketch library writes its items one behind the other and reads as many
as it has counted, each from where the one before ended.
-/
import Mathlib.Algebra.Order.Ring.Int
import Mathlib.Data.List.Infix
import PrimiHub.Lib.Bytes

namespace PrimiHub.FL.Sketch

open Lib (toLe ofLe utf8Decode)

/-- A byte string. -/
abbrev Bytes := List UInt8

-- ================================================================= items

/-- A character of a `str`. -/
abbrev CodePoint := Fin 0x110000

/-- The code point of a character that is no surrogate. -/
def CodePoint.ofChar (c : Char) : CodePoint := ⟨c.toNat, by
  have hc : c.toNat < 0xd800 ∨ 0xdfff < c.toNat ∧ c.toNat < 0x110000 := c.valid
  omega⟩

/-- The integer types. -/
inductive IntType
  | int | int8 | int16 | int32 | int64 | uint8 | uint16 | uint32 | uint64
  deriving DecidableEq, Repr

def IntType.name : IntType → String
  | .int => "int"
  | .int8 => "int8"
  | .int16 => "int16"
  | .int32 => "int32"
  | .int64 => "int64"
  | .uint8 => "uint8"
  | .uint16 => "uint16"
  | .uint32 => "uint32"
  | .uint64 => "uint64"

/-- The floating-point types. -/
inductive FloatType
  | float | float16 | float32 | float64
  deriving DecidableEq, Repr

def FloatType.name : FloatType → String
  | .float => "float"
  | .float16 => "float16"
  | .float32 => "float32"
  | .float64 => "float64"

/-- Some types that are none of these. -/
inductive OtherType
  | bool | noneType | bytes | tuple | numpyStr
  deriving DecidableEq, Repr

def OtherType.name : OtherType → String
  | .bool => "bool"
  | .noneType => "NoneType"
  | .bytes => "bytes"
  | .tuple => "tuple"
  | .numpyStr => "str_"

/-- An item of a sketch. -/
inductive Item
  | str (chars : List CodePoint)
  | int (type : IntType) (z : Int)
  | float (type : FloatType) (bits : BitVec 64)
  | other (type : OtherType)
  deriving DecidableEq, Repr

/-- What is read back: of the types of Python itself. -/
inductive Value
  | str (chars : List CodePoint)
  | int (z : Int)
  | float (bits : BitVec 64)
  deriving DecidableEq, Repr

namespace Item

/-- `type(item).__name__`. -/
def typeName : Item → String
  | .str _ => "str"
  | .int type _ => type.name
  | .float type _ => type.name
  | .other type => type.name

/-- The characters of a `str`. -/
def chars : Item → List CodePoint
  | .str chars => chars
  | _ => []

/-- The value an item is compared by. -/
def value : Item → Option Value
  | .str chars => some (.str chars)
  | .int _ z => some (.int z)
  | .float _ bits => some (.float bits)
  | .other _ => none

end Item

-- ================================================================ writing

/-- The exceptions raised. -/
inductive SerdeError
  /-- `int.to_bytes` of a number that does not fit -/
  | overflowError
  /-- `bytearray.extend` by something that is no byte -/
  | valueError
  /-- `struct.error` -/
  | structError
  /-- `bytes.decode` -/
  | unicodeDecodeError
  /-- `IndexError`, by the interpreter or with the code's own text -/
  | indexError (message : String)
  /-- `Exception` with the code's text -/
  | exception (message : String)
  deriving DecidableEq, Repr

/-- `type_map`. -/
def typeMap (itemType : String) : String :=
  if "int".toList <:+: itemType.toList then "int"
  else if "float".toList <:+: itemType.toList then "float"
  else itemType

/-- `get_size`. -/
def getSize (item : Item) : Nat :=
  if typeMap item.typeName = "str" then 5 + item.chars.length else 9

/-- `int.to_bytes(4, "little")`. -/
def lengthField (n : Nat) : Except SerdeError Bytes :=
  if n < 2 ^ 32 then .ok (toLe 4 n) else .error .overflowError

/-- The byte of a code point below 256. -/
def CodePoint.byte (c : CodePoint) : UInt8 := UInt8.ofNat c.val

/-- `b.extend(map(ord, item))`. -/
def ordBytes (chars : List CodePoint) : Except SerdeError Bytes :=
  if ∀ c ∈ chars, c.val < 256 then .ok (chars.map CodePoint.byte)
  else .error .valueError

/-- `struct.pack("<q", item)`. -/
def packQ : Item → Except SerdeError Bytes
  | .int _ z =>
      if -2 ^ 63 ≤ z ∧ z < 2 ^ 63 then .ok (toLe 8 (BitVec.ofInt 64 z).toNat)
      else .error .structError
  | _ => .error .structError

/-- `struct.pack("<d", item)`. -/
def packD : Item → Except SerdeError Bytes
  | .float _ bits => .ok (toLe 8 bits.toNat)
  | _ => .error .structError

/-- The byte of a letter. -/
def tag (c : Char) : UInt8 := UInt8.ofNat c.toNat

/-- `to_bytes`. -/
def toBytes (item : Item) : Except SerdeError Bytes := do
  let itemType := typeMap item.typeName
  if itemType = "str" then
    let len ← lengthField item.chars.length
    let text ← ordBytes item.chars
    return tag 's' :: (len ++ text)
  else if itemType = "int" then
    let number ← packQ item
    return tag 'q' :: number
  else if itemType = "float" then
    let number ← packD item
    return tag 'd' :: number
  else
    throw (.exception
      ("Only str, int, and float are supported. Found " ++ itemType))

-- ================================================================ reading

/-- `bytes.decode()`. -/
def decode (bytes : Bytes) : Except SerdeError (List CodePoint) :=
  match utf8Decode bytes with
  | some text => .ok (text.map CodePoint.ofChar)
  | none => .error .unicodeDecodeError

/-- `struct.unpack_from` of eight bytes. -/
def unpackFrom (data : Bytes) (offset : Nat) :
    Except SerdeError (BitVec 64) :=
  if offset + 8 ≤ data.length then
    .ok (BitVec.ofNat 64 (ofLe ((data.drop offset).take 8)))
  else .error .structError

/-- `from_bytes`: the length is read from three of its four bytes. -/
def fromBytes (data : Bytes) (offset : Nat) :
    Except SerdeError (Value × Nat) := do
  match data[offset]? with
  | none => throw (.indexError "index out of range")
  | some itemType =>
      if itemType = tag 's' then
        let numChars := ofLe ((data.drop (offset + 1)).take 3)
        if offset + data.length < numChars then
          throw (.indexError ("num_chars read must be non-negative and not "
            ++ "larger than the buffer. Found " ++ toString numChars))
        else
          let val ← decode ((data.drop (offset + 5)).take numChars)
          return (.str val, 5 + numChars)
      else if itemType = tag 'q' then
        let val ← unpackFrom data (offset + 1)
        return (.int val.toInt, 9)
      else if itemType = tag 'd' then
        let val ← unpackFrom data (offset + 1)
        return (.float val, 9)
      else throw (.exception "Unknown item type found")

-- ========================================================= whole sketches

/-- The items one behind the other. -/
def writeItems : List Item → Except SerdeError Bytes
  | [] => .ok []
  | item :: rest => do
      let bytes ← toBytes item
      let more ← writeItems rest
      return bytes ++ more

/-- So many items from `offset` on. -/
def readItems (data : Bytes) : Nat → Nat → Except SerdeError (List Value)
  | 0, _ => .ok []
  | count + 1, offset => do
      let (value, size) ← fromBytes data offset
      let rest ← readItems data count (offset + size)
      return value :: rest

-- =========================================================== the property

/-- An item the serialisation is for: a text shorter than 2^32, an integer
in the int64 range, a float. -/
def Item.Supported : Item → Prop
  | .str chars => chars.length < 2 ^ 32
  | .int _ z => -2 ^ 63 ≤ z ∧ z < 2 ^ 63
  | .float _ _ => True
  | .other _ => False

/-- The item is written, in as many bytes as announced, and read back out
of any surroundings. -/
def RoundTrips (item : Item) (before after : Bytes) : Prop :=
  ∃ bytes value, toBytes item = .ok bytes ∧ item.value = some value
    ∧ bytes.length = getSize item
    ∧ fromBytes (before ++ bytes ++ after) before.length
      = .ok (value, getSize item)

/-- The items are written and read back, all of them and in order. -/
def ItemsRoundTrip (items : List Item) (before after : Bytes) : Prop :=
  ∃ bytes values, writeItems items = .ok bytes
    ∧ items.map Item.value = values.map some
    ∧ readItems (before ++ bytes ++ after) items.length before.length
      = .ok values

/-- Texts of ASCII characters, shorter than what three bytes count. -/
def Item.Plain : Item → Prop
  | .str chars => (∀ c ∈ chars, c.val < 128) ∧ chars.length < 2 ^ 24
  | _ => True

end PrimiHub.FL.Sketch
