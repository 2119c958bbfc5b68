/-
How a dataset is described and handed on: `DataSetAccessInfo`
(data_store/driver.cc) with its kinds `CSVAccessInfo`
(data_store/csv/csv_driver.cc) and `SQLiteAccessInfo`
(data_store/sqlite/sqlite_driver.cc), the factory (data_store/factory.h),
and `DatasetService::getDriver` (service/dataset/service.cc) for a text
that is an access info.

# Registering

An access info is made from a YAML node, from the JSON text of stored
meta data, or from a `DatasetMetaInfo`. Each way takes the schema first and
the location after it, and each forgives other things: a schema that
cannot be read to its end leaves the fields before the fault and no Arrow
schema, and is not a failure by itself; a CSV description that is no JSON
is taken for the path.

# Handing on

The parent process puts `toString()` into the request, the child calls
`getDriver` on it. The text carries the Arrow schema, and only in the CSV
kind.

The JSON texts are those of a library that reads back what it has written;
what it reads besides is left open. Paths, names and texts are lists of
characters. Which files can be opened is left open, too.
-/
import Mathlib.Data.Option.Basic
import PrimiHub.Lib.Json

namespace PrimiHub.DataStore

open Lib (Json)

/-- A text. -/
abbrev Text := List Char

/-- A JSON library: `dump`, and `parse` that throws where it is `none`. -/
structure JsonText where
  dump : Json → Text
  parse : Text → Option Json
  /-- what has been written is read back -/
  parse_dump : ∀ v : Json, v.Canonical → parse (dump v) = some v
  /-- no text is no JSON -/
  parse_nil : parse [] = none

-- ================================================================= schemas

/-- `FieldType`: a column's name and its `arrow::Type`. -/
abbrev SchemaField := Text × Int

/-- The codes that `MakeArrowDataType` has a case for and gives back: BOOL
to BINARY, DATE32 to TIME64, and DECIMAL128. -/
def knownTypes : List Int :=
  [1, 2, 3, 4, 5, 6, 7, 8, 9, 10, 11, 12, 13, 14, 16, 17, 18, 19, 20, 23]

/-- `MakeArrowDataType`, the id of the type it makes: DECIMAL256 becomes
DECIMAL128, and an unknown type STRING. -/
def makeArrowDataType (type : Int) : Int :=
  if type ∈ knownTypes then type else if type = 24 then 23 else 13

/-- The fields of `MakeArrowSchema`. -/
def makeArrowSchema (schema : List SchemaField) : List SchemaField :=
  schema.map fun field => (field.1, makeArrowDataType field.2)

/-- `file_path_`, or `db_path_` and `table_name_`. -/
inductive Location
  | csv (filePath : Text)
  | sqlite (dbPath tableName : Text)
deriving DecidableEq

/-- `DataSetAccessInfo`. An Arrow schema that is set has been made from the
schema. -/
structure AccessInfo where
  location : Location
  schema : List SchemaField
  arrowSchema : Option (List SchemaField)
  made : ∀ fields, arrowSchema = some fields →
    fields = makeArrowSchema schema

/-- The outcome of `ParseSchema` on entries of which some may be
unreadable: those before the first such one, and the Arrow schema if there
is none. -/
structure ParsedSchema where
  schema : List SchemaField
  arrowSchema : Option (List SchemaField)
  made : ∀ fields, arrowSchema = some fields →
    fields = makeArrowSchema schema

/-- No schema is given. -/
def ParsedSchema.absent : ParsedSchema where
  schema := []
  arrowSchema := none
  made _ h := absurd h (Option.some_ne_none _).symm

/-- `MakeArrowSchema` on a schema. -/
def ParsedSchema.of (schema : List SchemaField) : ParsedSchema where
  schema := schema
  arrowSchema := some (makeArrowSchema schema)
  made _ h := (Option.some.inj h).symm

/-- Entries read up to one that cannot be read. -/
def ParsedSchema.upTo (schema : List SchemaField) : ParsedSchema where
  schema := schema
  arrowSchema := none
  made _ h := absurd h (Option.some_ne_none _).symm

/-- `ParseSchema`, and whether it succeeds. -/
def parseSchema (entries : List (Option SchemaField)) : ParsedSchema × Bool :=
  let read := (entries.takeWhile Option.isSome).filterMap id
  if entries.all Option.isSome then (.of read, true) else (.upTo read, false)

/-- The entries of a schema in JSON. -/
def schemaEntries (v : Json) : List (Option SchemaField) :=
  (v.elements.flatMap Json.items).map fun item =>
    item.2.getInt.map fun type => (item.1, type)

/-- An access info with a schema and a location. -/
def AccessInfo.ofParsed (s : ParsedSchema) (location : Location) :
    AccessInfo where
  location := location
  schema := s.schema
  arrowSchema := s.arrowSchema
  made := s.made

-- ============================================================= registration

/-- The kinds of drivers that are modelled. -/
inductive DriverType
  | csv
  | sqlite
deriving DecidableEq

/-- `createAccessInfoInternal`: the kind a name stands for, in any case of
letters. -/
def driverType? (name : Text) : Option DriverType :=
  let upper := name.map Char.toUpper
  if upper = "CSV".toList then some .csv
  else if upper = "SQLITE".toList then some .sqlite
  else none

/-- A dataset in the YAML configuration: what its members read as. -/
structure YamlConfig where
  schema : Option (List (Option SchemaField))
  source : Option Text
  tableName : Option Text

/-- `DatasetMetaInfo`, as far as it describes the data. -/
structure DatasetMetaInfo where
  accessInfo : Text
  schema : List SchemaField

section Register

variable (J : JsonText) (opens : Text → Bool)

/-- The member of an object that must be a text. -/
def stringMember (key : String) (v : Json) : Option Text :=
  (v.member key.toList).bind Json.getString

/-- `SQLiteAccessInfo::ParseFromJsonImpl`. -/
def sqliteLocation (v : Json) : Option Location := do
  let dbPath ← stringMember "db_path" v
  let tableName ← stringMember "tableName" v
  some (.sqlite dbPath tableName)

/-- The path in the text of a CSV access info. -/
def dataPath (accessInfo : Text) : Option Text :=
  (J.parse accessInfo).bind (stringMember "data_path")

/-- `ParseFromMetaInfoImpl`; `none` when it throws or fails. -/
def locationFromMetaInfo (type : DriverType) (accessInfo : Text) :
    Option Location :=
  match type with
  | .csv =>
      if accessInfo = [] then some (.csv [])
      else
        match dataPath J accessInfo with
        | some path => some (.csv path)
        | none => if opens accessInfo then some (.csv accessInfo) else none
  | .sqlite =>
      if accessInfo = [] then some (.sqlite [] [])
      else (J.parse accessInfo).bind sqliteLocation

/-- `FromMetaInfo`. -/
def fromMetaInfo (type : DriverType) (m : DatasetMetaInfo) :
    Option AccessInfo :=
  let schema := if m.schema = [] then ParsedSchema.absent else .of m.schema
  (locationFromMetaInfo J opens type m.accessInfo).map
    (AccessInfo.ofParsed schema)

/-- `fromYamlConfig`. What `ParseSchema` returns is overwritten. -/
def fromYamlConfig (type : DriverType) (config : YamlConfig) :
    Option AccessInfo :=
  let schema :=
    match config.schema with
    | none => ParsedSchema.absent
    | some entries => (parseSchema entries).1
  let location :=
    match type with
    | .csv => config.source.map Location.csv
    | .sqlite => do
        let dbPath ← config.source
        let tableName ← config.tableName
        some (.sqlite dbPath tableName)
  location.map (AccessInfo.ofParsed schema)

/-- The schema of stored meta data: absent, or a text in the text;
`none` when that throws. -/
def storedSchema (v : Json) : Option (ParsedSchema × Bool) :=
  match v.member "schema".toList with
  | none => some (.absent, true)
  | some schema => (schema.getString.bind J.parse).map fun v =>
      parseSchema (schemaEntries v)

/-- `CSVAccessInfo::ParseFromJsonImpl`: `access_meta` is an access info or
a path. -/
def csvLocation (v : Json) : Option Location :=
  (stringMember "access_meta" v).bind fun access =>
    match dataPath J access with
    | some path => some (.csv path)
    | none => if access = [] then none else some (.csv access)

/-- `CSVAccessInfo::fromJsonString`: where something throws, the whole text
is the path; a bad schema counts then only. -/
def csvFromJsonString (text : Text) : Option AccessInfo :=
  match J.parse text with
  | none => some (.ofParsed .absent (.csv text))
  | some v =>
      match storedSchema J v with
      | none => some (.ofParsed .absent (.csv text))
      | some (schema, ok) =>
          match csvLocation J v with
          | some location => some (.ofParsed schema location)
          | none => if ok then some (.ofParsed schema (.csv text)) else none

/-- `DataSetAccessInfo::fromJsonString`, for the SQLite kind. -/
def sqliteFromJsonString (text : Text) : Option AccessInfo := do
  let v ← J.parse text
  let (schema, _) ← storedSchema J v
  let access ← stringMember "access_meta" v
  let location ← (J.parse access).bind sqliteLocation
  some (.ofParsed schema location)

/-- `fromJsonString`. -/
def fromJsonString (type : DriverType) (text : Text) : Option AccessInfo :=
  match type with
  | .csv => csvFromJsonString J text
  | .sqlite => sqliteFromJsonString J text

/-- What a dataset is registered from. -/
inductive Description
  | metaInfo (m : DatasetMetaInfo)
  | yaml (config : YamlConfig)
  | stored (text : Text)

/-- `createAccessInfo`; `none` when it throws. -/
def createAccessInfo (name : Text) : Description → Option AccessInfo
  | .metaInfo m => (driverType? name).bind fun type =>
      fromMetaInfo J opens type m
  | .yaml config => (driverType? name).bind fun type =>
      fromYamlConfig type config
  | .stored text => (driverType? name).bind fun type =>
      fromJsonString J type text

end Register

-- =============================================================== handing on

section HandOn

variable (J : JsonText) (opens : Text → Bool)

/-- `SchemaToJsonString`. -/
def AccessInfo.schemaToJsonString (info : AccessInfo) : Text :=
  match info.arrowSchema with
  | none => []
  | some fields =>
      J.dump (.arr (fields.map fun field => .obj [(field.1, .int field.2)]))

/-- `toString`. -/
def AccessInfo.toString (info : AccessInfo) : Text :=
  match info.location with
  | .csv filePath => J.dump (.obj
      [("data_path".toList, .str filePath),
        ("schema".toList, .str (info.schemaToJsonString J)),
        ("type".toList, .str "CSV".toList)])
  | .sqlite dbPath tableName => J.dump (.obj
      [("db_path".toList, .str dbPath),
        ("tableName".toList, .str tableName),
        ("type".toList, .str "SQLITE".toList)])

/-- `getDriver(text, true)`, the access info of the driver. What it reads
of the text before it creates the access info is outside its `try`: an
error there is thrown, an error in the creation gives no driver. -/
def getDriver (text : Text) : Except Unit (Option AccessInfo) :=
  let read : Option (Text × List SchemaField) := do
    let v ← J.parse text
    let type ← stringMember "type" v
    let schema ← stringMember "schema" v
    let fields ← J.parse schema
    let schema ← (schemaEntries fields).mapM id
    some (type, schema)
  match read with
  | none => .error ()
  | some (type, schema) =>
      .ok (createAccessInfo J opens type (.metaInfo ⟨text, schema⟩))

/-- The child's driver has the parent's location, whose kind is the
driver's, and the parent's schema, also as Arrow fields. -/
def SameDataset (info : AccessInfo) : Prop :=
  ∃ child, getDriver J opens (info.toString J) = .ok (some child)
    ∧ child.location = info.location ∧ child.schema = info.schema
    ∧ child.arrowSchema.getD [] = info.arrowSchema.getD []

end HandOn

end PrimiHub.DataStore
