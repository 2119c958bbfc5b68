/-
The C readers of numbers: `strtol` in base ten, `std::stoi` on top of it,
and when `strtod` finds a number to read.

White space and one sign may come first, then the longest run of digits is
the number; no digit means no conversion. What follows the digits is left
alone: `12abc` reads as 12. The value here is the number itself; cutting
it to the range of a machine type is the caller's.

`numeral` says which texts are decimal numbers from start to end. A
numeral always converts, by `strtol` when it has no point
(`strtol_of_numeral`) and by `strtod` in any case
(`strtodConverts_of_numeral`); the converse is what the readers do not
check.

What `std::to_string` prints of an integer is read back to its end
(`stoll_printInt`).
-/
import Mathlib.Algebra.Group.Int.Defs
import Mathlib.Data.List.TakeWhile
import Mathlib.Tactic.SplitIfs

namespace PrimiHub.Lib

/-- `isspace` in the C locale. -/
def isSpace (c : Char) : Bool :=
  c ∈ [' ', '\t', '\n', '\x0b', '\x0c', '\r']

/-- The value of a run of digits. -/
def decimal (digits : List Char) : Nat :=
  digits.foldl (fun n c => 10 * n + (c.toNat - '0'.toNat)) 0

/-- Whether there is a minus sign, and the text after the sign. -/
def splitSign : List Char → Bool × List Char
  | '-' :: rest => (true, rest)
  | '+' :: rest => (false, rest)
  | text => (false, text)

/-- The number at the start of a text, and the text after it. -/
def strtol (text : List Char) : Option (Int × List Char) :=
  let (negative, body) := splitSign (text.dropWhile isSpace)
  let digits := body.takeWhile Char.isDigit
  if digits = [] then none
  else
    let n : Int := decimal digits
    some (if negative then -n else n, body.dropWhile Char.isDigit)

/-- `std::stoi`; `none` when it throws. -/
def stoi (text : List Char) : Option Int :=
  match strtol text with
  | none => none
  | some (n, _) => if -2 ^ 31 ≤ n ∧ n < 2 ^ 31 then some n else none

/-- `std::stoll`; `none` when it throws. -/
def stoll (text : List Char) : Option (Int × List Char) :=
  match strtol text with
  | none => none
  | some (n, rest) =>
      if -2 ^ 63 ≤ n ∧ n < 2 ^ 63 then some (n, rest) else none

/-- `std::to_string` of an integer. -/
def printInt (n : Int) : List Char :=
  if n < 0 then '-' :: Nat.toDigits 10 n.natAbs else Nat.toDigits 10 n.natAbs

/-- The text after white space and a sign. -/
def unsignedPart (text : List Char) : List Char :=
  (splitSign (text.dropWhile isSpace)).2

/-- Whether a digit comes first. -/
def startsWithDigit : List Char → Bool
  | c :: _ => c.isDigit
  | [] => false

/-- Whether `strtod` converts: digits come first, or a point and digits,
or the name of an infinity or of no number. -/
def strtodConverts (text : List Char) : Bool :=
  let body := unsignedPart text
  startsWithDigit body
    || (body.head? = some '.' && startsWithDigit body.tail)
    || (let name := (body.take 3).map Char.toLower
        name = "inf".toList || name = "nan".toList)

/-- The digits after a point, and the text after them. -/
def fraction : List Char → List Char × List Char
  | '.' :: rest => (rest.takeWhile Char.isDigit, rest.dropWhile Char.isDigit)
  | text => ([], text)

/-- Nothing, or an exponent and then nothing. -/
def exponent : List Char → Bool
  | [] => true
  | c :: rest =>
      let digits := (splitSign rest).2
      (c = 'e' || c = 'E') && digits ≠ [] && digits.all Char.isDigit

/-- A decimal number from start to end. -/
def numeral (text : List Char) : Bool :=
  let body := unsignedPart text
  let (frac, rest) := fraction (body.dropWhile Char.isDigit)
  body.takeWhile Char.isDigit ++ frac ≠ [] && exponent rest

-- ==================================================== what is converted

theorem strtol_eq_none_iff (text : List Char) :
    strtol text = none
      ↔ (unsignedPart text).takeWhile Char.isDigit = [] := by
  simp only [strtol, unsignedPart]
  split_ifs with h
  · simp [h]
  · simp [h]

theorem mem_of_mem_splitSign {c : Char} {text : List Char}
    (h : c ∈ (splitSign text).2) : c ∈ text := by
  unfold splitSign at h
  split at h
  · exact List.mem_cons_of_mem _ h
  · exact List.mem_cons_of_mem _ h
  · exact h

theorem mem_of_mem_unsignedPart {c : Char} {text : List Char}
    (h : c ∈ unsignedPart text) : c ∈ text :=
  (List.dropWhile_sublist _).subset (mem_of_mem_splitSign h)

theorem startsWithDigit_iff (text : List Char) :
    startsWithDigit text = true ↔ text.takeWhile Char.isDigit ≠ [] := by
  cases text with
  | nil => simp [startsWithDigit]
  | cons c rest =>
      rw [List.takeWhile_cons]
      cases hc : c.isDigit with
      | false => simp [startsWithDigit, hc]
      | true => simp [startsWithDigit, hc]

/-- The digits of a numeral are in front of the point or behind it. -/
theorem digits_of_numeral {text : List Char} (h : numeral text = true) :
    (unsignedPart text).takeWhile Char.isDigit ≠ []
      ∨ ∃ rest, unsignedPart text = '.' :: rest
        ∧ rest.takeWhile Char.isDigit ≠ [] := by
  by_cases hint : (unsignedPart text).takeWhile Char.isDigit = []
  · refine Or.inr ?_
    have hbody : (unsignedPart text).dropWhile Char.isDigit
        = unsignedPart text := by
      have happ := List.takeWhile_append_dropWhile (p := Char.isDigit)
        (l := unsignedPart text)
      rwa [hint, List.nil_append] at happ
    simp only [numeral, hint, hbody, List.nil_append] at h
    generalize unsignedPart text = body at h
    unfold fraction at h
    split at h
    case h_1 rest =>
      refine ⟨rest, rfl, ?_⟩
      simp only [ne_eq, decide_not, Bool.and_eq_true, Bool.not_eq_true',
        decide_eq_false_iff_not] at h
      exact h.1
    case h_2 => simp at h
  · exact Or.inl hint

theorem strtol_of_numeral {text : List Char} (h : numeral text = true)
    (hpoint : '.' ∉ text) : strtol text ≠ none := by
  rw [ne_eq, strtol_eq_none_iff]
  rcases digits_of_numeral h with hint | ⟨rest, hbody, -⟩
  · exact hint
  · refine absurd (mem_of_mem_unsignedPart ?_) hpoint
    rw [hbody]
    exact List.mem_cons_self ..

theorem strtodConverts_of_numeral {text : List Char}
    (h : numeral text = true) : strtodConverts text = true := by
  simp only [strtodConverts, Bool.or_eq_true]
  rcases digits_of_numeral h with hint | ⟨rest, hbody, hfrac⟩
  · exact Or.inl (Or.inl ((startsWithDigit_iff _).2 hint))
  · refine Or.inl (Or.inr ?_)
    rw [hbody]
    simpa using (startsWithDigit_iff rest).2 hfrac

/-- A text that `strtol` reads to its end has no point. -/
theorem no_point_of_strtol {text : List Char} {v : Int}
    (h : strtol text = some (v, [])) : '.' ∉ text := by
  have hrest : (splitSign (text.dropWhile isSpace)).2.dropWhile Char.isDigit
      = [] := by
    simp only [strtol] at h
    by_cases hdigits : (splitSign (text.dropWhile isSpace)).2.takeWhile
        Char.isDigit = []
    · rw [if_pos hdigits] at h
      cases h
    · rw [if_neg hdigits] at h
      exact (Prod.mk.inj (Option.some.inj h)).2
  have hall : ∀ c ∈ (splitSign (text.dropWhile isSpace)).2,
      c.isDigit = true := List.dropWhile_eq_nil_iff.1 hrest
  intro hpoint
  rw [← List.takeWhile_append_dropWhile (p := isSpace) (l := text),
    List.mem_append] at hpoint
  rcases hpoint with hspace | hpoint
  · have hfalse := List.mem_takeWhile_imp hspace
    revert hfalse
    decide
  · generalize text.dropWhile isSpace = body at hall hpoint
    have hbody : '.' ∈ (splitSign body).2 := by
      unfold splitSign
      split
      · simpa using hpoint
      · simpa using hpoint
      · exact hpoint
    have hfalse := hall '.' hbody
    revert hfalse
    decide

-- ========================================================= what is printed

theorem decimal_toDigits (n : Nat) : decimal (Nat.toDigits 10 n) = n := by
  calc decimal (Nat.toDigits 10 n)
      = Nat.ofDigitChars 10 (Nat.toDigits 10 n) 0 :=
        Nat.ofDigitChars_eq_foldl.symm
    _ = n := Nat.ofDigitChars_ten_toDigits

/-- A digit is neither white space nor a sign. -/
theorem splitSign_of_digit {c : Char} (h : c.isDigit = true)
    (rest : List Char) :
    (c :: rest).dropWhile isSpace = c :: rest
      ∧ splitSign (c :: rest) = (false, c :: rest) := by
  refine ⟨?_, ?_⟩
  · have hspace : isSpace c = false := by
      have hdigit : ∀ d ∈ [' ', '\t', '\n', '\x0b', '\x0c', '\r'],
          d.isDigit = false := by
        simp only [List.forall_mem_cons]
        exact ⟨rfl, rfl, rfl, rfl, rfl, rfl, List.forall_mem_nil _⟩
      refine decide_eq_false fun hmem => ?_
      rw [hdigit c hmem] at h
      cases h
    rw [List.dropWhile_cons_of_neg (by rw [hspace]; exact Bool.false_ne_true)]
  · unfold splitSign
    split
    case h_1 heq =>
      cases heq
      exact absurd h (by decide)
    case h_2 heq =>
      cases heq
      exact absurd h (by decide)
    case h_3 => rfl

/-- Digits are read to their end, after a minus sign or without one. -/
theorem strtol_digits {digits : List Char} (hne : digits ≠ [])
    (hdigits : ∀ c ∈ digits, c.isDigit = true) :
    strtol digits = some ((decimal digits : Int), [])
      ∧ strtol ('-' :: digits) = some (-(decimal digits : Int), []) := by
  have htake : digits.takeWhile Char.isDigit = digits :=
    List.takeWhile_eq_self_iff.mpr hdigits
  have hdrop : digits.dropWhile Char.isDigit = [] :=
    List.dropWhile_eq_nil_iff.mpr hdigits
  refine ⟨?_, ?_⟩
  · obtain ⟨c, rest, rfl⟩ := List.exists_cons_of_ne_nil hne
    obtain ⟨hspace, hsign⟩ :=
      splitSign_of_digit (hdigits c List.mem_cons_self) rest
    simp only [strtol, hspace, hsign, htake, hdrop, if_neg hne]
    rfl
  · have hspace : ('-' :: digits).dropWhile isSpace = '-' :: digits := rfl
    simp only [strtol, hspace, splitSign, htake, hdrop, if_neg hne]
    rfl

theorem strtol_toDigits (n : Nat) :
    strtol (Nat.toDigits 10 n) = some ((n : Int), [])
      ∧ strtol ('-' :: Nat.toDigits 10 n) = some (-(n : Int), []) := by
  have hread := strtol_digits Nat.toDigits_ne_nil
    fun _ => Nat.isDigit_of_mem_toDigits (b := 10) (n := n) (by decide)
      (by decide)
  rwa [decimal_toDigits] at hread

theorem stoll_printInt {n : Int} (h : -2 ^ 63 ≤ n ∧ n < 2 ^ 63) :
    stoll (printInt n) = some (n, []) := by
  have hread : strtol (printInt n) = some (n, []) := by
    unfold printInt
    by_cases hneg : n < 0
    · rw [if_pos hneg, (strtol_toDigits _).2]
      congr 2
      omega
    · rw [if_neg hneg, (strtol_toDigits _).1]
      congr 2
      omega
  simp only [stoll, hread, if_pos h]

end PrimiHub.Lib
