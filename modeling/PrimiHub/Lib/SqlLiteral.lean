/-
A list of texts that Python formats and MySQL reads.

Python writes a text with `repr`: in single quotes, unless the text has such
quotes and no double ones, with a backslash before the quote and before a
backslash. A tab and the two line ends are escaped by a letter; any other
character that is not printable is written by its number. A tuple of one
member ends in a comma, an empty one has nothing between its brackets.

MySQL reads such a literal, in its default mode, character by character
(`scan`). It knows the escapes by a letter, but none by a number, and a
backslash before a character it does not know is dropped. A list of at
least two texts is read (`readInList_pyTuple`), each as it was exactly
where none of its characters is written by a number (`asRead_eq_self`).
-/
import Mathlib.Algebra.Ring.Nat
import Mathlib.Data.List.Basic

namespace PrimiHub.Lib

def singleQuote : Char := Char.ofNat 0x27

def doubleQuote : Char := Char.ofNat 0x22

-- ================================================================= printing

section Printing

-- `str.isprintable` of a character beyond ASCII
variable (printable : Char → Bool)

/-- The quote of a literal. -/
def quoteOf (text : List Char) : Char :=
  if singleQuote ∈ text ∧ doubleQuote ∉ text then doubleQuote
  else singleQuote

/-- The hexadecimal digits of a number. -/
def hexDigits (width n : Nat) : List Char :=
  (List.range width).reverse.map fun i => Nat.digitChar (n / 16 ^ i % 16)

/-- The number of a character, after its backslash. -/
def byNumber (c : Char) : List Char :=
  if c.toNat < 0x100 then 'x' :: hexDigits 2 c.toNat
  else if c.toNat < 0x10000 then 'u' :: hexDigits 4 c.toNat
  else 'U' :: hexDigits 8 c.toNat

/-- The letter of an escape. -/
def shortEscape (c : Char) : Option Char :=
  if c = '\t' then some 't'
  else if c = '\n' then some 'n'
  else if c = '\r' then some 'r'
  else none

/-- A character that is written by its number. -/
def Numbered (c : Char) : Prop :=
  shortEscape c = none
    ∧ (c.toNat < 0x20 ∨ c.toNat = 0x7f
      ∨ 0x7f < c.toNat ∧ printable c = false)

instance (c : Char) : Decidable (Numbered printable c) :=
  inferInstanceAs (Decidable (_ ∧ _))

/-- A character as it stands in a literal. -/
def printed (quote c : Char) : List Char :=
  if c = quote ∨ c = '\\' then ['\\', c]
  else
    match shortEscape c with
    | some letter => ['\\', letter]
    | none => if Numbered printable c then '\\' :: byNumber c else [c]

/-- `repr` of a text. -/
def pyRepr (text : String) : List Char :=
  let quote := quoteOf text.toList
  quote :: text.toList.flatMap (printed printable quote) ++ [quote]

/-- The members of a tuple after the first, and its bracket. -/
def pyMembers : List String → List Char
  | [] => [')']
  | text :: texts => ',' :: ' ' :: (pyRepr printable text ++ pyMembers texts)

/-- A tuple of texts, formatted. -/
def pyTuple : List String → String
  | [] => "()"
  | [text] => String.ofList ('(' :: (pyRepr printable text ++ [',', ')']))
  | text :: texts =>
      String.ofList
        ('(' :: (pyRepr printable text ++ pyMembers printable texts))

end Printing

-- ================================================================== reading

/-- Where a reader of a list is, with the texts it has read; within a
literal also its quote and its characters so far. -/
inductive Scan
  | start
  /-- a literal is due -/
  | item (texts : List String)
  | literal (texts : List String) (quote : Char) (read : List Char)
  /-- after a backslash -/
  | escaped (texts : List String) (quote : Char) (read : List Char)
  /-- after the quote, which is one of the text if another follows -/
  | quoted (texts : List String) (quote : Char) (read : List Char)
  | closed (texts : List String)
  deriving DecidableEq, Repr

/-- What an escaped character stands for. -/
def unescape (c : Char) : List Char :=
  if c = '0' then [Char.ofNat 0]
  else if c = 'b' then ['\x08']
  else if c = 't' then ['\t']
  else if c = 'n' then ['\n']
  else if c = 'r' then ['\r']
  else if c = 'Z' then ['\x1a']
  else if c = '%' ∨ c = '_' then ['\\', c]
  else [c]

/-- One character. -/
def scan : Scan → Char → Option Scan
  | .start, c => if c = '(' then some (.item []) else none
  | .item texts, c =>
      if c = ' ' then some (.item texts)
      else if c = singleQuote ∨ c = doubleQuote then
        some (.literal texts c [])
      else none
  | .literal texts quote read, c =>
      if c = '\\' then some (.escaped texts quote read)
      else if c = quote then some (.quoted texts quote read)
      else some (.literal texts quote (read ++ [c]))
  | .escaped texts quote read, c =>
      some (.literal texts quote (read ++ unescape c))
  | .quoted texts quote read, c =>
      if c = quote then some (.literal texts quote (read ++ [c]))
      else if c = ',' then some (.item (texts ++ [String.ofList read]))
      else if c = ')' then some (.closed (texts ++ [String.ofList read]))
      else none
  | .closed _, _ => none

/-- The texts of a list of literals; `none` where it is no such list. -/
def readInList (text : String) : Option (List String) :=
  match text.toList.foldlM scan .start with
  | some (.closed texts) => some texts
  | _ => none

-- =============================================================== round trips

section RoundTrip

variable (printable : Char → Bool)

/-- A character of a text as it is read. -/
def charAsRead (c : Char) : List Char :=
  if Numbered printable c then byNumber c else [c]

/-- A text as it is read. -/
def asRead (text : String) : String :=
  String.ofList (text.toList.flatMap (charAsRead printable))

variable {printable}

/-- A text without characters written by number is read as it is. -/
theorem asRead_eq_self {text : String}
    (h : ∀ c ∈ text.toList, ¬ Numbered printable c) :
    asRead printable text = text := by
  have hchars : text.toList.flatMap (charAsRead printable)
      = text.toList.flatMap fun c => [c] := by
    apply List.flatMap_congr
    intro c hc
    exact if_neg (h c hc)
  rw [asRead, hchars, List.flatMap_singleton', String.ofList_toList]

/-- A no-break space loses its backslash. -/
example : asRead (fun _ => false) "7\u00a0" = "7xa0" := by decide

theorem quoteOf_cases (text : List Char) :
    quoteOf text = singleQuote ∨ quoteOf text = doubleQuote := by
  unfold quoteOf
  split
  · exact Or.inr rfl
  · exact Or.inl rfl

theorem not_numbered_ascii {c : Char} (h : 0x20 ≤ c.toNat ∧ c.toNat < 0x7f) :
    ¬ Numbered printable c := by
  intro hnumbered
  obtain ⟨-, hlow | hdel | ⟨hhigh, -⟩⟩ := hnumbered
  · omega
  · omega
  · omega

/-- A character that stands for itself in any literal. -/
def Plain (c : Char) : Prop :=
  c ≠ '\\' ∧ c ≠ singleQuote ∧ c ≠ doubleQuote

instance (c : Char) : Decidable (Plain c) :=
  inferInstanceAs (Decidable (_ ∧ _))

theorem digitChar_plain : ∀ n < 16, Plain (Nat.digitChar n) := by
  decide

theorem hexDigits_plain (width n : Nat) :
    ∀ c ∈ hexDigits width n, Plain c := by
  intro c hc
  obtain ⟨i, -, rfl⟩ := List.mem_map.mp hc
  exact digitChar_plain _ (Nat.mod_lt _ (by decide))

/-- A number is read without its backslash. -/
theorem byNumber_eq (c : Char) :
    ∃ letter digits, byNumber c = letter :: digits
      ∧ unescape letter = [letter] ∧ ∀ d ∈ digits, Plain d := by
  unfold byNumber
  split
  · exact ⟨_, _, rfl, rfl, hexDigits_plain _ _⟩
  · split
    · exact ⟨_, _, rfl, rfl, hexDigits_plain _ _⟩
    · exact ⟨_, _, rfl, rfl, hexDigits_plain _ _⟩

theorem unescape_shortEscape {c letter : Char}
    (h : shortEscape c = some letter) : unescape letter = [c] := by
  unfold shortEscape at h
  split at h
  · next hc =>
    cases h
    rw [hc]
    rfl
  split at h
  · next hc =>
    cases h
    rw [hc]
    rfl
  split at h
  · next hc =>
    cases h
    rw [hc]
    rfl
  · cases h

section Literal

variable {texts : List String} {quote : Char} {read : List Char}
  (hquote : quote = singleQuote ∨ quote = doubleQuote)
include hquote

theorem scan_plain {chars : List Char} (h : ∀ c ∈ chars, Plain c) :
    chars.foldlM scan (.literal texts quote read)
      = some (.literal texts quote (read ++ chars)) := by
  induction chars generalizing read with
  | nil =>
      rw [List.append_nil]
      rfl
  | cons c chars ih =>
      obtain ⟨hslash, hsingle, hdouble⟩ := h c List.mem_cons_self
      have hne : c ≠ quote := by
        obtain rfl | rfl := hquote
        · exact hsingle
        · exact hdouble
      have hstep : scan (.literal texts quote read) c
          = some (.literal texts quote (read ++ [c])) := by
        rw [scan, if_neg hslash, if_neg hne]
      rw [List.foldlM_cons, hstep]
      show chars.foldlM scan (.literal texts quote (read ++ [c])) = _
      rw [ih fun d hd => h d (List.mem_cons_of_mem _ hd), List.append_assoc]
      rfl

omit hquote in
/-- A backslash and the character after it. -/
theorem scan_escape (c : Char) (chars : List Char) :
    ('\\' :: c :: chars).foldlM scan (.literal texts quote read)
      = chars.foldlM scan (.literal texts quote (read ++ unescape c)) :=
  rfl

/-- One character of a text. -/
theorem scan_printed (printable : Char → Bool) (c : Char) :
    (printed printable quote c).foldlM scan (.literal texts quote read)
      = some (.literal texts quote (read ++ charAsRead printable c)) := by
  unfold printed charAsRead
  split
  · next hescaped =>
    have hself : unescape c = [c] ∧ 0x20 ≤ c.toNat ∧ c.toNat < 0x7f := by
      obtain rfl | rfl := hescaped
      · obtain rfl | rfl := hquote
        · decide
        · decide
      · decide
    rw [scan_escape, hself.1, if_neg (not_numbered_ascii hself.2)]
    rfl
  · next hplain =>
    rw [not_or] at hplain
    split
    · next letter hletter =>
      have hnot : ¬ Numbered printable c := by
        intro hnumbered
        rw [hnumbered.1] at hletter
        cases hletter
      rw [scan_escape, unescape_shortEscape hletter, if_neg hnot]
      rfl
    · split
      · next hnumbered =>
        obtain ⟨letter, digits, hnumber, hself, hdigits⟩ := byNumber_eq c
        rw [hnumber, scan_escape, hself, scan_plain hquote hdigits,
          List.append_assoc]
        rfl
      · show (scan (.literal texts quote read) c).bind _ = _
        rw [scan, if_neg hplain.2, if_neg hplain.1]
        rfl

/-- The characters of a text, one after the other. -/
theorem scan_text (printable : Char → Bool) (chars : List Char) :
    (chars.flatMap (printed printable quote)).foldlM scan
        (.literal texts quote read)
      = some (.literal texts quote
          (read ++ chars.flatMap (charAsRead printable))) := by
  induction chars generalizing read with
  | nil =>
      rw [List.flatMap_nil, List.flatMap_nil, List.append_nil]
      rfl
  | cons c chars ih =>
      rw [List.flatMap_cons, List.flatMap_cons, List.foldlM_append,
        scan_printed hquote, ← List.append_assoc]
      exact ih

end Literal

/-- A literal, up to its last quote. -/
theorem scan_pyRepr (printable : Char → Bool) (texts : List String)
    (text : String) (rest : List Char) :
    (pyRepr printable text ++ rest).foldlM scan (.item texts)
      = rest.foldlM scan (.quoted texts (quoteOf text.toList)
          (text.toList.flatMap (charAsRead printable))) := by
  have hquote := quoteOf_cases text.toList
  rw [pyRepr]
  generalize quoteOf text.toList = quote at hquote ⊢
  have hspace : quote ≠ ' ' ∧ quote ≠ '\\' := by
    obtain rfl | rfl := hquote
    · decide
    · decide
  have hopen : scan (.item texts) quote = some (.literal texts quote []) := by
    rw [scan, if_neg hspace.1, if_pos hquote]
  have hclose : ∀ read, scan (.literal texts quote read) quote
      = some (.quoted texts quote read) := by
    intro read
    rw [scan, if_neg hspace.2, if_pos rfl]
  rw [List.cons_append, List.cons_append, List.foldlM_cons, hopen]
  show List.foldlM scan (.literal texts quote []) _ = _
  rw [List.append_assoc, List.foldlM_append, scan_text hquote,
    List.nil_append]
  show List.foldlM scan _ (quote :: rest) = _
  rw [List.foldlM_cons, hclose]
  rfl

/-- The members after a literal, to the end. -/
theorem scan_pyMembers (printable : Char → Bool) {texts : List String}
    {quote : Char} (hquote : quote = singleQuote ∨ quote = doubleQuote)
    {read : List Char} (members : List String) :
    (pyMembers printable members).foldlM scan (.quoted texts quote read)
      = some (.closed (texts ++ String.ofList read
          :: members.map (asRead printable))) := by
  have hsign : ',' ≠ quote ∧ ')' ≠ quote := by
    obtain rfl | rfl := hquote
    · decide
    · decide
  induction members generalizing texts quote read with
  | nil =>
      show (scan (.quoted texts quote read) ')').bind _ = _
      rw [scan, if_neg hsign.2, if_neg (by decide), if_pos rfl]
      rfl
  | cons text members ih =>
      have hcomma : scan (.quoted texts quote read) ','
          = some (.item (texts ++ [String.ofList read])) := by
        rw [scan, if_neg hsign.1, if_pos rfl]
      rw [pyMembers, List.foldlM_cons, hcomma]
      show (pyRepr printable text ++ _).foldlM scan
        (.item (texts ++ [String.ofList read])) = _
      have htext := quoteOf_cases text.toList
      rw [scan_pyRepr, ih htext (by
        obtain h | h := htext
        · rw [h]
          decide
        · rw [h]
          decide), List.append_assoc]
      rfl

/-- A tuple is read as a list if it has two members. -/
theorem readInList_pyTuple (printable : Char → Bool) (texts : List String) :
    readInList (pyTuple printable texts)
      = if 2 ≤ texts.length then some (texts.map (asRead printable))
        else none := by
  have hopen : ∀ rest, ('(' :: rest).foldlM scan .start
      = rest.foldlM scan (.item []) := fun _ => rfl
  cases texts with
  | nil =>
      show readInList "()" = none
      decide
  | cons text texts =>
      have hquote := quoteOf_cases text.toList
      have hcomma : ',' ≠ quoteOf text.toList := by
        obtain h | h := hquote
        · rw [h]
          decide
        · rw [h]
          decide
      cases texts with
      | nil =>
          -- the comma lets the reader expect a second literal
          have hreject : [',', ')'].foldlM scan
              (.quoted [] (quoteOf text.toList)
                (text.toList.flatMap (charAsRead printable))) = none := by
            rw [List.foldlM_cons, scan, if_neg hcomma, if_pos rfl]
            rfl
          rw [pyTuple, readInList, String.toList_ofList, hopen, scan_pyRepr,
            hreject]
          rfl
      | cons second texts =>
          have hlength : 2 ≤ (text :: second :: texts).length :=
            Nat.le_add_left 2 texts.length
          rw [if_pos hlength, pyTuple, readInList, String.toList_ofList,
            hopen, scan_pyRepr, scan_pyMembers printable hquote]
          · rfl
          · exact fun h => nomatch h

end RoundTrip

end PrimiHub.Lib
