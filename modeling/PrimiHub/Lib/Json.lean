/-
JSON values without fractions, the text a printer writes of them in one
line, and a reader of such texts.

The printer (`Json.print`) puts no white space anywhere and escapes only
what a JSON string may not hold. The reader follows the grammar with a
bound on its recursion, the length of the text at most; it takes escapes
of one code unit. What is printed is read back (`Json.read_print`), in
front of anything that does not go on a number.

The last part is how values are looked into: a member by its key, the
elements and the items that a loop over a value visits, and the
conversions to a text and to an integer.
-/
import Mathlib.Algebra.Ring.Nat
import PrimiHub.Lib.Strtol

namespace PrimiHub.Lib

/-- A JSON value whose numbers are integers. -/
inductive Json
  | null
  | bool (b : Bool)
  | int (n : Int)
  | str (s : List Char)
  | arr (items : List Json)
  | obj (members : List (List Char × Json))

namespace Json

-- ================================================================ printing

/-- A hexadecimal digit. -/
def hexDigit (n : Nat) : Char :=
  if n < 10 then Char.ofNat (48 + n) else Char.ofNat (87 + n)

/-- A character as it stands in a string. -/
def escape (c : Char) : List Char :=
  if c = '"' then ['\\', '"']
  else if c = '\\' then ['\\', '\\']
  else if c = '\n' then ['\\', 'n']
  else if c = '\r' then ['\\', 'r']
  else if c = '\t' then ['\\', 't']
  else if c = '\x08' then ['\\', 'b']
  else if c = '\x0c' then ['\\', 'f']
  else if c.toNat < 32 then
    ['\\', 'u', '0', '0', hexDigit (c.toNat / 16), hexDigit (c.toNat % 16)]
  else [c]

/-- The inside of a string and its closing quote. -/
def printString : List Char → List Char
  | [] => ['"']
  | c :: rest => escape c ++ printString rest

mutual

/-- The text of a value. -/
def print : Json → List Char
  | null => ['n', 'u', 'l', 'l']
  | bool true => ['t', 'r', 'u', 'e']
  | bool false => ['f', 'a', 'l', 's', 'e']
  | int n => printInt n
  | str s => '"' :: printString s
  | arr items => '[' :: printItems items
  | obj members => '\x7b' :: printMembers members

/-- Elements and the closing bracket. -/
def printItems : List Json → List Char
  | [] => [']']
  | [v] => print v ++ [']']
  | v :: w :: rest => print v ++ ',' :: printItems (w :: rest)

/-- Members and the closing brace. -/
def printMembers : List (List Char × Json) → List Char
  | [] => ['\x7d']
  | [(k, v)] => '"' :: printString k ++ ':' :: print v ++ ['\x7d']
  | (k, v) :: m :: rest =>
      '"' :: printString k ++ ':' :: print v ++ ',' :: printMembers (m :: rest)

end

-- ================================================================= reading

/-- The value of a hexadecimal digit. -/
def hexValue (c : Char) : Option Nat :=
  if c.isDigit then some (c.toNat - 48)
  else if 'a' ≤ c ∧ c ≤ 'f' then some (c.toNat - 87)
  else if 'A' ≤ c ∧ c ≤ 'F' then some (c.toNat - 55)
  else none

/-- The character of four hexadecimal digits. -/
def hexChar (a b c d : Char) : Option Char := do
  let a ← hexValue a
  let b ← hexValue b
  let c ← hexValue c
  let d ← hexValue d
  let code := 4096 * a + 256 * b + 16 * c + d
  if 55296 ≤ code ∧ code < 57344 then none else some (Char.ofNat code)

/-- The character of a short escape. -/
def unescape : Char → Option Char
  | '"' => some '"'
  | '\\' => some '\\'
  | '/' => some '/'
  | 'n' => some '\n'
  | 'r' => some '\r'
  | 't' => some '\t'
  | 'b' => some '\x08'
  | 'f' => some '\x0c'
  | _ => none

/-- A string up to its closing quote, and what follows. -/
def readString : List Char → Option (List Char × List Char)
  | [] => none
  | '"' :: rest => some ([], rest)
  | '\\' :: 'u' :: a :: b :: c :: d :: rest => do
      let e ← hexChar a b c d
      let (s, rest) ← readString rest
      some (e :: s, rest)
  | '\\' :: c :: rest => do
      let e ← unescape c
      let (s, rest) ← readString rest
      some (e :: s, rest)
  | c :: rest =>
      if c.toNat < 32 then none
      else do
        let (s, rest) ← readString rest
        some (c :: s, rest)

/-- The digits at the start of a text, as a number. -/
def readNat (text : List Char) : Option (Nat × List Char) :=
  let digits := text.takeWhile Char.isDigit
  if digits = [] then none
  else some (decimal digits, text.dropWhile Char.isDigit)

/-- An integer at the start of a text. -/
def readInt : List Char → Option (Json × List Char)
  | '-' :: rest => do
      let (n, rest) ← readNat rest
      some (int (-n), rest)
  | text => do
      let (n, rest) ← readNat text
      some (int n, rest)

mutual

/-- A value at the start of a text. -/
def readValue : Nat → List Char → Option (Json × List Char)
  | 0, _ => none
  | _ + 1, 'n' :: 'u' :: 'l' :: 'l' :: rest => some (null, rest)
  | _ + 1, 't' :: 'r' :: 'u' :: 'e' :: rest => some (bool true, rest)
  | _ + 1, 'f' :: 'a' :: 'l' :: 's' :: 'e' :: rest => some (bool false, rest)
  | _ + 1, '"' :: rest => do
      let (s, rest) ← readString rest
      some (str s, rest)
  | _ + 1, '[' :: ']' :: rest => some (arr [], rest)
  | fuel + 1, '[' :: rest => do
      let (items, rest) ← readItems fuel rest
      some (arr items, rest)
  | _ + 1, '\x7b' :: '\x7d' :: rest => some (obj [], rest)
  | fuel + 1, '\x7b' :: rest => do
      let (members, rest) ← readMembers fuel rest
      some (obj members, rest)
  | _ + 1, text => readInt text

/-- One or more elements and the closing bracket. -/
def readItems : Nat → List Char → Option (List Json × List Char)
  | 0, _ => none
  | fuel + 1, text =>
      match readValue fuel text with
      | some (v, ',' :: rest) => do
          let (items, rest) ← readItems fuel rest
          some (v :: items, rest)
      | some (v, ']' :: rest) => some ([v], rest)
      | _ => none

/-- One or more members and the closing brace. -/
def readMembers :
    Nat → List Char → Option (List (List Char × Json) × List Char)
  | 0, _ => none
  | fuel + 1, '"' :: text =>
      match readString text with
      | some (k, ':' :: text) =>
          match readValue fuel text with
          | some (v, ',' :: rest) => do
              let (members, rest) ← readMembers fuel rest
              some ((k, v) :: members, rest)
          | some (v, '\x7d' :: rest) => some ([(k, v)], rest)
          | _ => none
      | _ => none
  | _ + 1, _ => none

end

/-- The value of a whole text. -/
def read (text : List Char) : Option Json :=
  match readValue (text.length + 1) text with
  | some (v, []) => some v
  | _ => none

-- ============================================================= round trips

/-- A control character is read back from its number. -/
theorem hexChar_control : ∀ n < 32,
    hexChar '0' '0' (hexDigit (n / 16)) (hexDigit (n % 16))
      = some (Char.ofNat n) := by
  decide

/-- A short escape is read as the character it stands for. -/
theorem readString_short {c e : Char} (h : unescape e = some c)
    (hu : e ≠ 'u') (rest : List Char) :
    readString ('\\' :: e :: rest)
      = (readString rest).map fun p => (c :: p.1, p.2) := by
  cases hrest : readString rest with
  | none => simp [readString, h, hu, hrest]
  | some p => simp [readString, h, hu, hrest]

/-- One escaped character is read as that character. -/
theorem readString_escape (c : Char) (rest : List Char) :
    readString (escape c ++ rest)
      = (readString rest).map fun p => (c :: p.1, p.2) := by
  unfold escape
  split
  · subst c
    exact readString_short rfl (by decide) rest
  split
  · subst c
    exact readString_short rfl (by decide) rest
  split
  · subst c
    exact readString_short rfl (by decide) rest
  split
  · subst c
    exact readString_short rfl (by decide) rest
  split
  · subst c
    exact readString_short rfl (by decide) rest
  split
  · subst c
    exact readString_short rfl (by decide) rest
  split
  · subst c
    exact readString_short rfl (by decide) rest
  split
  · rename_i hcontrol
    have hchar := hexChar_control c.toNat hcontrol
    rw [Char.ofNat_toNat] at hchar
    cases hrest : readString rest with
    | none => simp [readString, hchar, hrest]
    | some p => simp [readString, hchar, hrest]
  · rename_i hquote hslash _ _ _ _ _ hplain
    cases hrest : readString rest with
    | none => simp [readString, hslash, hplain, hrest]
    | some p => simp [readString, hslash, hplain, hrest]

/-- A string is read back. -/
theorem readString_printString (s rest : List Char) :
    readString (printString s ++ rest) = some (s, rest) := by
  induction s with
  | nil => simp [printString, readString]
  | cons c s ih =>
      rw [printString, List.append_assoc, readString_escape, ih]
      rfl

/-- What does not go on a number. -/
def EndsNumber (rest : List Char) : Prop :=
  ∀ c ∈ rest.head?, c.isDigit = false

/-- A number is read up to its last digit. -/
theorem readNat_toDigits (n : Nat) {rest : List Char}
    (h : EndsNumber rest) :
    readNat (Nat.toDigits 10 n ++ rest) = some (n, rest) := by
  have hvalue := decimal_toDigits n
  have hdigits : ∀ c ∈ Nat.toDigits 10 n, c.isDigit = true :=
    fun _ => Nat.isDigit_of_mem_toDigits (by decide) (by decide)
  have hne : Nat.toDigits 10 n ≠ [] := Nat.toDigits_ne_nil
  generalize Nat.toDigits 10 n = digits at hvalue hdigits hne ⊢
  have htake : (digits ++ rest).takeWhile Char.isDigit = digits := by
    rw [List.takeWhile_append_of_pos hdigits]
    cases rest with
    | nil => simp
    | cons c rest => simp [h c rfl]
  have hdrop : (digits ++ rest).dropWhile Char.isDigit = rest := by
    rw [List.dropWhile_append_of_pos hdigits]
    cases rest with
    | nil => rfl
    | cons c rest => simp [h c rfl]
  simp only [readNat, htake, hdrop, if_neg hne, hvalue]

/-- An integer is read back, be it negative or not. -/
theorem readInt_printInt (n : Int) {rest : List Char} (h : EndsNumber rest) :
    readInt (printInt n ++ rest) = some (int n, rest) := by
  unfold printInt
  by_cases hneg : n < 0
  · rw [if_pos hneg, List.cons_append, readInt, readNat_toDigits _ h]
    have habs : -(n.natAbs : Int) = n := by omega
    exact congrArg (fun k => some (int k, rest)) habs
  · rw [if_neg hneg]
    have hdigits : ∀ c ∈ Nat.toDigits 10 n.natAbs, c.isDigit = true :=
      fun _ => Nat.isDigit_of_mem_toDigits (by decide) (by decide)
    have hread := readNat_toDigits n.natAbs h
    have hne : Nat.toDigits 10 n.natAbs ≠ [] := Nat.toDigits_ne_nil
    obtain ⟨c, cs, heq⟩ := List.exists_cons_of_ne_nil hne
    rw [heq] at hdigits hread ⊢
    have hminus : c ≠ '-' := by
      rintro rfl
      exact absurd (hdigits '-' List.mem_cons_self) (by decide)
    have habs : (n.natAbs : Int) = n := by omega
    rw [List.cons_append] at hread ⊢
    rw [readInt, hread]
    · exact congrArg (fun k => some (int k, rest)) habs
    · intro _ heq
      exact hminus (List.cons.inj heq).1

/-- What starts like a number is read as one. -/
theorem readValue_number {c : Char} (h : c = '-' ∨ c.isDigit = true)
    (fuel : Nat) (cs : List Char) :
    readValue (fuel + 1) (c :: cs) = readInt (c :: cs) := by
  rw [readValue]
  all_goals
    rintro _ ⟨rfl, -⟩
    exact absurd h (by decide)

/-- An integer begins with a sign or a digit. -/
theorem printInt_head (n : Int) :
    ∃ c cs, printInt n = c :: cs ∧ (c = '-' ∨ c.isDigit = true) := by
  unfold printInt
  by_cases hneg : n < 0
  · exact ⟨'-', _, if_pos hneg, Or.inl rfl⟩
  · rw [if_neg hneg]
    have hne : Nat.toDigits 10 n.natAbs ≠ [] := Nat.toDigits_ne_nil
    obtain ⟨c, cs, heq⟩ := List.exists_cons_of_ne_nil hne
    refine ⟨c, cs, heq, Or.inr ?_⟩
    exact Nat.isDigit_of_mem_toDigits (by decide) (by decide)
      (heq ▸ List.mem_cons_self)

/-- A value does not start with a closing bracket. -/
theorem print_head (v : Json) : ∃ c cs, print v = c :: cs ∧ c ≠ ']' := by
  cases v with
  | null => exact ⟨_, _, by rw [print], by decide⟩
  | bool b => cases b <;> exact ⟨_, _, by rw [print], by decide⟩
  | int n =>
      obtain ⟨c, cs, heq, hc⟩ := printInt_head n
      refine ⟨c, cs, by rw [print, heq], ?_⟩
      rintro rfl
      exact absurd hc (by decide)
  | str s => exact ⟨_, _, by rw [print], by decide⟩
  | arr items => exact ⟨_, _, by rw [print], by decide⟩
  | obj members => exact ⟨_, _, by rw [print], by decide⟩

/-- A list that is not empty does not begin like the end of one. -/
theorem printItems_head (v : Json) (items : List Json) :
    ∃ c cs, printItems (v :: items) = c :: cs ∧ c ≠ ']' := by
  obtain ⟨c, cs, heq, hc⟩ := print_head v
  cases items with
  | nil => exact ⟨c, _, by rw [printItems, heq, List.cons_append], hc⟩
  | cons w items => exact ⟨c, _, by rw [printItems, heq, List.cons_append], hc⟩

/-- Members begin with a quote. -/
theorem printMembers_head (m : List Char × Json)
    (members : List (List Char × Json)) :
    ∃ cs, printMembers (m :: members) = '"' :: cs := by
  obtain ⟨k, v⟩ := m
  cases members with
  | nil => exact ⟨_, by rw [printMembers]; rfl⟩
  | cons m members => exact ⟨_, by rw [printMembers]; rfl⟩

/-- Anything but a digit ends a number. -/
theorem endsNumber_cons {c : Char} (h : c.isDigit = false)
    (rest : List Char) : EndsNumber (c :: rest) := by
  intro d hd
  rw [List.head?_cons, Option.mem_def, Option.some.injEq] at hd
  exact hd ▸ h

/-- A list between its brackets. -/
theorem readValue_items {fuel : Nat} {c : Char} {cs rest : List Char}
    {items : List Json} (hc : c ≠ ']')
    (h : readItems fuel (c :: cs) = some (items, rest)) :
    readValue (fuel + 1) ('[' :: c :: cs) = some (arr items, rest) := by
  rw [readValue, h]
  · rfl
  · rintro _ ⟨rfl, -⟩
    exact hc rfl

/-- An object between its braces. -/
theorem readValue_members {fuel : Nat} {cs rest : List Char}
    {members : List (List Char × Json)}
    (h : readMembers fuel ('"' :: cs) = some (members, rest)) :
    readValue (fuel + 1) ('\x7b' :: '"' :: cs) = some (obj members, rest) := by
  rw [readValue, h]
  · rfl
  · rintro _ ⟨⟩

/-- The last item. -/
theorem readItems_last {fuel : Nat} {text rest : List Char} {v : Json}
    (h : readValue fuel text = some (v, ']' :: rest)) :
    readItems (fuel + 1) text = some ([v], rest) := by
  simp [readItems, h]

/-- An item with others behind it. -/
theorem readItems_more {fuel : Nat} {text later rest : List Char} {v : Json}
    {items : List Json} (h : readValue fuel text = some (v, ',' :: later))
    (hitems : readItems fuel later = some (items, rest)) :
    readItems (fuel + 1) text = some (v :: items, rest) := by
  rw [readItems, h]
  simp [hitems]

/-- The last member. -/
theorem readMembers_last {fuel : Nat} {k text rest : List Char} {v : Json}
    (h : readValue fuel text = some (v, '\x7d' :: rest)) :
    readMembers (fuel + 1) ('"' :: (printString k ++ ':' :: text))
      = some ([(k, v)], rest) := by
  rw [readMembers, readString_printString]
  simp [h]

/-- A member with others behind it. -/
theorem readMembers_more {fuel : Nat} {k text later rest : List Char}
    {v : Json} {members : List (List Char × Json)}
    (h : readValue fuel text = some (v, ',' :: later))
    (hmembers : readMembers fuel later = some (members, rest)) :
    readMembers (fuel + 1) ('"' :: (printString k ++ ':' :: text))
      = some ((k, v) :: members, rest) := by
  rw [readMembers, readString_printString]
  simp [h, hmembers]

mutual

/-- A printed value is read back, with the length of its text for fuel. -/
theorem readValue_print (v : Json) {fuel : Nat} {rest : List Char}
    (hfuel : (print v).length ≤ fuel) (h : EndsNumber rest) :
    readValue fuel (print v ++ rest) = some (v, rest) := by
  match v, fuel with
  | null, fuel + 1 => simp [print, readValue]
  | bool true, fuel + 1 => simp [print, readValue]
  | bool false, fuel + 1 => simp [print, readValue]
  | int n, fuel =>
      obtain ⟨c, cs, heq, hc⟩ := printInt_head n
      have hread := readInt_printInt n h
      rw [print, heq] at hfuel ⊢
      rw [heq] at hread
      cases fuel with
      | zero => cases hfuel
      | succ fuel =>
          rw [List.cons_append] at hread ⊢
          rw [readValue_number hc, hread]
  | str s, fuel + 1 =>
      rw [print, List.cons_append]
      simp [readValue, readString_printString]
  | arr [], fuel + 1 => simp [print, printItems, readValue]
  | arr (w :: items), fuel + 1 =>
      rw [print, List.length_cons, Nat.add_le_add_iff_right] at hfuel
      have hitems : readItems fuel (printItems (w :: items) ++ rest)
          = some (w :: items, rest) :=
        readItems_print (w :: items) (List.cons_ne_nil w items) hfuel
      obtain ⟨c, cs, heq, hc⟩ := printItems_head w items
      rw [print, List.cons_append]
      rw [heq, List.cons_append] at hitems ⊢
      exact readValue_items hc hitems
  | obj [], fuel + 1 => simp [print, printMembers, readValue]
  | obj (m :: members), fuel + 1 =>
      rw [print, List.length_cons, Nat.add_le_add_iff_right] at hfuel
      have hmembers : readMembers fuel (printMembers (m :: members) ++ rest)
          = some (m :: members, rest) :=
        readMembers_print (m :: members) (List.cons_ne_nil m members) hfuel
      obtain ⟨cs, heq⟩ := printMembers_head m members
      rw [print, List.cons_append]
      rw [heq, List.cons_append] at hmembers ⊢
      exact readValue_members hmembers
termination_by sizeOf v

/-- Items are read back, one level down. -/
theorem readItems_print (items : List Json) (hne : items ≠ []) {fuel : Nat}
    {rest : List Char} (hfuel : (printItems items).length ≤ fuel) :
    readItems fuel (printItems items ++ rest) = some (items, rest) := by
  match items, fuel with
  | [v], fuel =>
      rw [printItems, List.length_append, List.length_singleton] at hfuel
      cases fuel with
      | zero => cases hfuel
      | succ fuel =>
          rw [printItems, List.append_assoc]
          exact readItems_last (readValue_print v (Nat.le_of_succ_le_succ hfuel)
            (endsNumber_cons (by decide) rest))
  | v :: w :: items, fuel =>
      rw [printItems, List.length_append, List.length_cons] at hfuel
      cases fuel with
      | zero => omega
      | succ fuel =>
          rw [printItems, List.append_assoc, List.cons_append]
          exact readItems_more
            (readValue_print v (by omega) (endsNumber_cons (by decide) _))
            (readItems_print (w :: items) (List.cons_ne_nil w items)
              (by omega))
termination_by sizeOf items

theorem readMembers_print (members : List (List Char × Json))
    (hne : members ≠ []) {fuel : Nat} {rest : List Char}
    (hfuel : (printMembers members).length ≤ fuel) :
    readMembers fuel (printMembers members ++ rest)
      = some (members, rest) := by
  match members, fuel with
  | [(k, v)], fuel =>
      rw [printMembers] at hfuel
      simp only [List.length_cons, List.length_append, List.length_nil] at hfuel
      cases fuel with
      | zero => omega
      | succ fuel =>
          rw [printMembers]
          simp only [List.cons_append, List.append_assoc]
          exact readMembers_last
            (readValue_print v (by omega) (endsNumber_cons (by decide) rest))
  | (k, v) :: m :: members, fuel =>
      rw [printMembers] at hfuel
      simp only [List.length_cons, List.length_append] at hfuel
      cases fuel with
      | zero => omega
      | succ fuel =>
          rw [printMembers]
          simp only [List.cons_append, List.append_assoc]
          exact readMembers_more
            (readValue_print v (by omega) (endsNumber_cons (by decide) _))
            (readMembers_print (m :: members) (List.cons_ne_nil m members)
              (by omega))
termination_by sizeOf members

end

/-- What is printed is read back. -/
theorem read_print (v : Json) : read (print v) = some v := by
  have hends : EndsNumber [] := fun _ h => absurd h (Option.not_mem_none _)
  have hread := readValue_print v (Nat.le_succ (print v).length) hends
  rw [List.append_nil] at hread
  rw [read, hread]

-- ================================================================ looking in

/-- The member of an object with a key. -/
def member (key : List Char) : Json → Option Json
  | obj members => members.lookup key
  | _ => none

/-- A text. -/
def getString : Json → Option (List Char)
  | str s => some s
  | _ => none

/-- The conversion to an `int` of 32 bits. -/
def getInt : Json → Option Int
  | int n => some (n.bmod (2 ^ 32))
  | bool b => some (if b then 1 else 0)
  | _ => none

/-- What a loop over a value visits: a value that is no container is
visited itself. -/
def elements : Json → List Json
  | null => []
  | arr items => items
  | obj members => members.map Prod.snd
  | v => [v]

/-- The keys and values that `items` visits: an element of an array by its
position, a value that is no container under the empty key. -/
def items : Json → List (List Char × Json)
  | null => []
  | arr items => items.mapIdx fun i v => (Nat.toDigits 10 i, v)
  | obj members => members
  | v => [([], v)]

mutual

/-- A value as a library holds it: the keys of an object ascend, and a
number has 64 bits. -/
def Canonical : Json → Prop
  | int n => -2 ^ 63 ≤ n ∧ n < 2 ^ 63
  | arr items => CanonicalItems items
  | obj members =>
      (members.map Prod.fst).Pairwise (· < ·) ∧ CanonicalMembers members
  | _ => True

def CanonicalItems : List Json → Prop
  | [] => True
  | v :: items => Canonical v ∧ CanonicalItems items

def CanonicalMembers : List (List Char × Json) → Prop
  | [] => True
  | (_, v) :: members => Canonical v ∧ CanonicalMembers members

end

theorem canonicalItems_iff {items : List Json} :
    CanonicalItems items ↔ ∀ v ∈ items, v.Canonical := by
  induction items with
  | nil => simp [CanonicalItems]
  | cons v items ih => rw [CanonicalItems, ih, List.forall_mem_cons]

end Json

end PrimiHub.Lib
