/-
Numbers and texts as byte strings.

# Numbers

`toBe k n` writes the last `k` base-256 digits of `n`, most significant
byte first; `ofBe` reads a byte string. Each undoes the other: reading
gives `n` back modulo `256 ^ k` (`ofBe_toBe`), and writing at the length
of the string gives the string back (`toBe_ofBe`).

`toLe k n` writes the first `k` digits, least significant byte first, so
that what is written at one length begins with what is written at a
shorter one (`take_toLe`); `ofLe` reads a byte string (`ofLe_toLe`).

# Texts

`utf8Decode` is the strict decoder: it has a result on the encodings of
texts and nowhere else (`utf8Decode_eq_some_iff`). A character takes one
byte exactly if it is below 128, so a text of as many characters as bytes
is one of such characters (`ascii_of_length_eq`), and each byte is then the
character's number (`utf8Decode_ascii`).
-/
import Mathlib.Algebra.Order.Ring.Nat
import Mathlib.Data.List.Basic
import Mathlib.Data.List.Induction
import Mathlib.Tactic.Common
import Mathlib.Tactic.Ring

namespace PrimiHub.Lib

-- ============================================================= big endian

/-- The last `k` bytes of `n`. -/
def toBe : Nat → Nat → List UInt8
  | 0, _ => []
  | k + 1, n => toBe k (n / 256) ++ [UInt8.ofNat n]

/-- The number a byte string stands for. -/
def ofBe (bytes : List UInt8) : Nat :=
  bytes.foldl (fun acc b => acc * 256 + b.toNat) 0

@[simp] theorem length_toBe (k n : Nat) : (toBe k n).length = k := by
  induction k generalizing n with
  | zero => rfl
  | succ k ih => rw [toBe, List.length_append, ih, List.length_singleton]

theorem ofBe_concat (bytes : List UInt8) (b : UInt8) :
    ofBe (bytes ++ [b]) = ofBe bytes * 256 + b.toNat := by
  rw [ofBe, List.foldl_append]
  rfl

theorem ofBe_lt (bytes : List UInt8) : ofBe bytes < 256 ^ bytes.length := by
  induction bytes using List.reverseRecOn with
  | nil => exact Nat.one_pos
  | append_singleton bytes b ih =>
      have hb : b.toNat < 256 := b.toNat_lt
      rw [ofBe_concat, List.length_append, List.length_singleton, Nat.pow_succ]
      omega

/-- What was written is read, as far as it fits. -/
theorem ofBe_toBe (k n : Nat) : ofBe (toBe k n) = n % 256 ^ k := by
  induction k generalizing n with
  | zero => rw [Nat.pow_zero, Nat.mod_one]; rfl
  | succ k ih =>
      have hbyte : (UInt8.ofNat n).toNat = n % 256 := UInt8.toNat_ofNat'
      rw [toBe, ofBe_concat, ih, hbyte, Nat.pow_succ, Nat.mul_comm (256 ^ k),
        Nat.mod_mul]
      ring

/-- What was read is written. -/
theorem toBe_ofBe (bytes : List UInt8) :
    toBe bytes.length (ofBe bytes) = bytes := by
  induction bytes using List.reverseRecOn with
  | nil => rfl
  | append_singleton bytes b ih =>
      have hb : b.toNat < 256 := b.toNat_lt
      have hdiv : (ofBe bytes * 256 + b.toNat) / 256 = ofBe bytes := by omega
      have hbyte : UInt8.ofNat (ofBe bytes * 256 + b.toNat) = b := by
        apply UInt8.toNat_inj.mp
        rw [UInt8.toNat_ofNat']
        omega
      rw [List.length_append, List.length_singleton, ofBe_concat, toBe, hdiv,
        ih, hbyte]

-- ========================================================== little endian

/-- The first `k` bytes of `n`. -/
def toLe : Nat → Nat → List UInt8
  | 0, _ => []
  | k + 1, n => UInt8.ofNat n :: toLe k (n / 256)

/-- The number a byte string stands for. -/
def ofLe : List UInt8 → Nat
  | [] => 0
  | b :: bytes => b.toNat + 256 * ofLe bytes

@[simp] theorem length_toLe (k n : Nat) : (toLe k n).length = k := by
  induction k generalizing n with
  | zero => rfl
  | succ k ih => rw [toLe, List.length_cons, ih]

/-- What was written is read, as far as it fits. -/
theorem ofLe_toLe (k n : Nat) : ofLe (toLe k n) = n % 256 ^ k := by
  induction k generalizing n with
  | zero => rw [Nat.pow_zero, Nat.mod_one]; rfl
  | succ k ih =>
      have hbyte : (UInt8.ofNat n).toNat = n % 256 := UInt8.toNat_ofNat'
      rw [toLe, ofLe, ih, hbyte, Nat.pow_succ, Nat.mul_comm (256 ^ k),
        Nat.mod_mul]

/-- The first bytes of a number at a larger length. -/
theorem take_toLe {j k : Nat} (hjk : j ≤ k) (n : Nat) :
    (toLe k n).take j = toLe j n := by
  induction j generalizing k n with
  | zero => rfl
  | succ j ih =>
      obtain ⟨k, rfl⟩ : ∃ k', k = k' + 1 := ⟨k - 1, by omega⟩
      rw [toLe, toLe, List.take_succ_cons, ih (Nat.le_of_succ_le_succ hjk)]

-- ================================================================== texts

/-- The text these bytes encode. -/
def utf8Decode (bytes : List UInt8) : Option (List Char) :=
  bytes.toByteArray.utf8Decode?.map Array.toList

/-- The decoder undoes the encoder, and has no other results. -/
theorem utf8Decode_eq_some_iff {bytes : List UInt8} {text : List Char} :
    utf8Decode bytes = some text
      ↔ text.flatMap String.utf8EncodeChar = bytes := by
  unfold utf8Decode
  constructor
  · intro h
    obtain ⟨chars, hchars, rfl⟩ := Option.map_eq_some_iff.mp h
    have hsome : bytes.toByteArray.utf8Decode?.isSome := by
      rw [hchars]
      rfl
    have hbytes := ByteArray.utf8Encode_get_utf8Decode? (h := hsome)
    simp only [hchars, Option.get_some] at hbytes
    exact List.toByteArray_inj.mp hbytes
  · rintro rfl
    have hdecode : (text.flatMap String.utf8EncodeChar).toByteArray.utf8Decode?
        = some text.toArray := List.utf8Decode?_utf8Encode
    rw [hdecode]
    rfl

/-- A text has no more characters than bytes. -/
theorem length_le_of_utf8Decode {bytes : List UInt8} {text : List Char}
    (h : utf8Decode bytes = some text) : text.length ≤ bytes.length := by
  obtain rfl := utf8Decode_eq_some_iff.mp h
  induction text with
  | nil => exact Nat.le_refl 0
  | cons c text ih =>
      have hc := Char.utf8Size_pos c
      have hrest := ih (utf8Decode_eq_some_iff.mpr rfl)
      rw [List.flatMap_cons, List.length_append, List.length_cons,
        String.length_utf8EncodeChar]
      omega

/-- A text of as many characters as bytes has one byte for each. -/
theorem ascii_of_length_eq {bytes : List UInt8} {text : List Char}
    (h : utf8Decode bytes = some text) (hlen : text.length = bytes.length) :
    ∀ c ∈ text, c.toNat < 128 := by
  obtain rfl := utf8Decode_eq_some_iff.mp h
  clear h
  induction text with
  | nil =>
      intro c hc
      cases hc
  | cons c text ih =>
      have hsize := Char.utf8Size_pos c
      have hrest : text.length ≤ (text.flatMap String.utf8EncodeChar).length :=
        length_le_of_utf8Decode (utf8Decode_eq_some_iff.mpr rfl)
      rw [List.flatMap_cons, List.length_append, List.length_cons,
        String.length_utf8EncodeChar] at hlen
      intro d hd
      rcases List.mem_cons.mp hd with rfl | hd
      · have hone : d.utf8Size = 1 := by omega
        exact Nat.lt_succ_of_le (Char.utf8Size_eq_one_iff.mp hone)
      · exact ih (by omega) d hd

/-- Characters below 128 are their own bytes. -/
theorem utf8Decode_ascii {text : List Char} (h : ∀ c ∈ text, c.toNat < 128) :
    utf8Decode (text.map fun c => UInt8.ofNat c.toNat) = some text := by
  rw [utf8Decode_eq_some_iff]
  induction text with
  | nil => rfl
  | cons c text ih =>
      have hc : c.val.toNat ≤ 127 :=
        Nat.le_of_lt_succ (h c (List.mem_cons_self ..))
      have hencode : String.utf8EncodeChar c = [UInt8.ofNat c.toNat] := by
        rw [String.utf8EncodeChar, if_pos hc]
        rfl
      rw [List.flatMap_cons, List.map_cons, hencode, ih fun d hd =>
        h d (List.mem_cons_of_mem _ hd), List.singleton_append]

end PrimiHub.Lib
