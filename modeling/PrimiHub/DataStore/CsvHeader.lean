/-
The header of a CSV file (data_store/csv/csv_driver.cc): `csv::WriteHeader`
writes the column names, `csv::ReadRawData`, `csv::SkipUTF8BOM` and
`CSVDriver::GetColumnNames` read them.

Names and files are bytes. The names are written as they are, behind a byte
order mark and with commas between them. The reader splits the first line at
every comma, then takes a line feed and a carriage return out of the last
name, the mark off the first one, and quotation marks off both ends of each.
The file system is left out: what has been written is what is read, with the
rows appended behind it.
-/
import Mathlib.Data.List.DropRight
import Mathlib.Data.List.ModifyLast
import PrimiHub.DataStore.AccessInfo

namespace PrimiHub.DataStore

/-- The bytes of a `std::string`. -/
abbrev Bytes := List UInt8

/-- `'\n'`. -/
def lineFeed : UInt8 := 0x0A

/-- `'\r'`. -/
def carriageReturn : UInt8 := 0x0D

/-- `'"'`. -/
def quotationMark : UInt8 := 0x22

/-- `','`, the default delimiter. -/
def comma : UInt8 := 0x2C

/-- `kBOM`. -/
def kBOM : Bytes := [0xEF, 0xBB, 0xBF]

/-- `retcode::FAIL`, or an exception with its text. -/
inductive HeaderError
  | fail
  | raised (text : Text)
deriving DecidableEq

-- ================================================================ writing

/-- `WriteHeader`: what the file holds afterwards; `none` when it is not
touched. The comma behind the last name becomes the line feed. -/
def writeHeader (colName : List Bytes) : Option Bytes :=
  if colName = [] then none
  else
    let headerStr := kBOM ++ colName.flatMap fun item => item ++ [comma]
    some (headerStr.set (headerStr.length - 1) lineFeed)

-- ================================================================ reading

/-- `std::ifstream`: the bytes ahead, and `eof()`. -/
structure Stream where
  ahead : Bytes
  eof : Bool

/-- `std::getline`: the line, and the stream behind its line feed; the end
is seen where there is none. -/
def getline (s : Stream) : Bytes × Stream :=
  let line := s.ahead.takeWhile (· ≠ lineFeed)
  match s.ahead.dropWhile (· ≠ lineFeed) with
  | [] => (line, ⟨[], true⟩)
  | _ :: ahead => (line, ⟨ahead, false⟩)

/-- The loop of `ReadRawData`: empty lines are passed over. -/
def readLines : Nat → Stream → Bytes
  | 0, _ => []
  | n + 1, s =>
      if s.eof then []
      else
        let (line, s) := getline s
        if line = [] then readLines n s
        else line ++ [lineFeed] ++ readLines n s

/-- `ReadRawData`. -/
def readRawData (file : Bytes) (lineNumber : Nat) : Bytes :=
  readLines lineNumber ⟨file, false⟩

/-- The loop of `SkipUTF8BOM`, with what is left of the mark and of the
data after `i` turns. -/
def skipBOM (originData : Bytes) :
    Nat → Bytes → Bytes → Except HeaderError Bytes
  | _, [], data => .ok data
  | i, _ :: _, [] =>
      if i = 0 then .ok []
      else .error (.raised
        "UTF8 string too short (truncated byte order mark?)".toList)
  | i, b :: bom, c :: data =>
      if c ≠ b then .ok originData else skipBOM originData (i + 1) bom data

/-- `SkipUTF8BOM`. -/
def skipUTF8BOM (originData : Bytes) : Except HeaderError Bytes :=
  if originData = [] then .ok [] else skipBOM originData 0 kBOM originData

/-- The two `erase` calls on each name. -/
def trimQuotes (name : Bytes) : Bytes :=
  (name.dropWhile (· = quotationMark)).rdropWhile (· = quotationMark)

/-- `GetColumnNames`. -/
def getColumnNames (delimiter : UInt8) (file : Bytes) :
    Except HeaderError (List Bytes) :=
  let titleRow := readRawData file 1
  if titleRow = [] then .error .fail
  else
    let columNames := (titleRow.splitOn delimiter).modifyLast fun item =>
      (item.erase lineFeed).erase carriageReturn
    match columNames with
    | [] => .ok []
    | firstItem :: others => do
        let firstItem ← skipUTF8BOM firstItem
        .ok ((firstItem :: others).map trimQuotes)

-- ============================================================= the meaning

/-- The names are read back from a file that begins with their header. -/
def NamesSurvive (names : List Bytes) (rows : Bytes) : Prop :=
  ∃ header, writeHeader names = some header
    ∧ getColumnNames comma (header ++ rows) = .ok names

/-- No name has a comma, nor a quotation mark at one of its ends, and the
last one has no carriage return. -/
structure PlainNames (names : List Bytes) : Prop where
  comma_free : ∀ name ∈ names, comma ∉ name
  unquoted : ∀ name ∈ names,
    name.head? ≠ some quotationMark ∧ name.getLast? ≠ some quotationMark
  return_free : ∀ name, names.getLast? = some name → carriageReturn ∉ name

end PrimiHub.DataStore
