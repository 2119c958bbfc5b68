/-
When a child process sees the dataset its parent has.

The text of a SQLite access info has no schema, and the child does not go
on without one (`getDriver_sqlite`). That of a CSV access info has the
Arrow schema: the child throws where none was made (`getDriver_csv_none`)
and else has its fields (`getDriver_csv`), whose types are those that
`makeArrowDataType` gives back.
-/
import PrimiHub.DataStore.AccessInfo
import PrimiHub.Lib.Traverse

namespace PrimiHub.DataStore

open Lib (Json)

-- =================================================================== types

theorem makeArrowDataType_mem (type : Int) :
    makeArrowDataType type ∈ knownTypes := by
  unfold makeArrowDataType
  split
  · assumption
  split
  · decide
  · decide

/-- A type that has been made is made of its own id. -/
theorem makeArrowDataType_idem (type : Int) :
    makeArrowDataType (makeArrowDataType type) = makeArrowDataType type :=
  if_pos (makeArrowDataType_mem type)

theorem makeArrowSchema_idem (schema : List SchemaField) :
    makeArrowSchema (makeArrowSchema schema) = makeArrowSchema schema := by
  unfold makeArrowSchema
  rw [List.map_map]
  refine List.map_congr_left fun field _ => ?_
  rw [Function.comp_apply, makeArrowDataType_idem]

/-- A schema comes back where all its types do. -/
theorem makeArrowSchema_eq_iff (schema : List SchemaField) :
    makeArrowSchema schema = schema
      ↔ ∀ field ∈ schema, makeArrowDataType field.2 = field.2 := by
  unfold makeArrowSchema
  induction schema with
  | nil => exact ⟨fun _ _ h => absurd h List.not_mem_nil, fun _ => rfl⟩
  | cons field schema ih =>
      rw [List.map_cons, List.cons.injEq, ih, List.forall_mem_cons,
        Prod.ext_iff]
      exact and_congr_left' ⟨And.right, And.intro rfl⟩

/-- The id of a type that has been made is small. -/
theorem knownTypes_bounds : ∀ type ∈ knownTypes, 0 ≤ type ∧ type < 24 := by
  decide

-- ============================================================ the schema text

/-- The JSON of Arrow fields. -/
def fieldsJson (fields : List SchemaField) : Json :=
  .arr (fields.map fun field => .obj [(field.1, .int field.2)])

theorem fieldsJson_canonical {fields : List SchemaField}
    (h : ∀ field ∈ fields, field.2 ∈ knownTypes) :
    (fieldsJson fields).Canonical := by
  rw [fieldsJson, Json.Canonical, Json.canonicalItems_iff]
  intro v hv
  obtain ⟨field, hfield, rfl⟩ := List.mem_map.mp hv
  have hbounds := knownTypes_bounds field.2 (h field hfield)
  rw [Json.Canonical]
  refine ⟨List.pairwise_singleton _ _, ?_⟩
  rw [Json.CanonicalMembers, Json.Canonical, Json.CanonicalMembers]
  exact ⟨⟨by omega, by omega⟩, trivial⟩

/-- The fields of an Arrow schema are read from its text. -/
theorem schemaEntries_fieldsJson {fields : List SchemaField}
    (h : ∀ field ∈ fields, field.2 ∈ knownTypes) :
    schemaEntries (fieldsJson fields) = fields.map some := by
  unfold schemaEntries fieldsJson Json.elements
  dsimp only
  rw [List.flatMap_map, List.map_flatMap]
  induction fields with
  | nil => rfl
  | cons field fields ih =>
      obtain ⟨hfield, hfields⟩ := List.forall_mem_cons.mp h
      have hbounds := knownTypes_bounds field.2 hfield
      have hint : (Json.int field.2).getInt = some field.2 := by
        rw [Json.getInt]
        congr 1
        exact Int.bmod_eq_of_le (by omega) (by omega)
      rw [List.flatMap_cons, ih hfields, List.map_cons, Json.items,
        List.map_singleton, hint, Option.map_some, List.singleton_append]

theorem mapM_id_some {α : Type} (xs : List α) :
    (xs.map some).mapM id = some xs := by
  have hid : xs.mapM (id ∘ some) = some (xs.map id) :=
    Lib.mapM_some fun _ _ => rfl
  rw [List.mapM_map, hid, List.map_id]

-- ================================================================ the child

section Child

variable (J : JsonText) (opens : Text → Bool)

/-- The object that a CSV access info is written as. -/
def csvJson (filePath schema : Text) : Json :=
  .obj [("data_path".toList, .str filePath), ("schema".toList, .str schema),
    ("type".toList, .str "CSV".toList)]

/-- The object that a SQLite access info is written as. -/
def sqliteJson (dbPath tableName : Text) : Json :=
  .obj [("db_path".toList, .str dbPath), ("tableName".toList, .str tableName),
    ("type".toList, .str "SQLITE".toList)]

theorem csvJson_canonical (filePath schema : Text) :
    (csvJson filePath schema).Canonical := by
  have hkeys : ["data_path".toList, "schema".toList, "type".toList].Pairwise
      (· < ·) := by decide
  exact ⟨hkeys, trivial, trivial, trivial, trivial⟩

theorem sqliteJson_canonical (dbPath tableName : Text) :
    (sqliteJson dbPath tableName).Canonical := by
  have hkeys : ["db_path".toList, "tableName".toList, "type".toList].Pairwise
      (· < ·) := by decide
  exact ⟨hkeys, trivial, trivial, trivial, trivial⟩

/-- The child does not go on without a schema in the text. -/
theorem getDriver_sqlite {info : AccessInfo} {dbPath tableName : Text}
    (h : info.location = .sqlite dbPath tableName) :
    getDriver J opens (info.toString J) = .error () := by
  have hparse := J.parse_dump _ (sqliteJson_canonical dbPath tableName)
  have htext : info.toString J = J.dump (sqliteJson dbPath tableName) := by
    rw [AccessInfo.toString, h]
    rfl
  unfold getDriver
  rw [htext, hparse]
  rfl

/-- What the child does with the text of a CSV access info. -/
theorem getDriver_csvJson (filePath schema : Text) :
    getDriver J opens (J.dump (csvJson filePath schema))
      = match (J.parse schema).bind fun v => (schemaEntries v).mapM id with
        | none => .error ()
        | some fields => .ok (createAccessInfo J opens "CSV".toList
            (.metaInfo ⟨J.dump (csvJson filePath schema), fields⟩)) := by
  have hparse := J.parse_dump _ (csvJson_canonical filePath schema)
  have htype : stringMember "type" (csvJson filePath schema)
      = some "CSV".toList := rfl
  have hschema : stringMember "schema" (csvJson filePath schema)
      = some schema := rfl
  simp only [getDriver, hparse, htype, hschema, Option.bind_eq_bind,
    Option.bind_some]
  cases J.parse schema with
  | none => rfl
  | some v =>
      dsimp only [Option.bind_some]
      cases (schemaEntries v).mapM id with
      | none => rfl
      | some fields => rfl

/-- Nor with a text for it that is empty. -/
theorem getDriver_csv_none {info : AccessInfo} {filePath : Text}
    (h : info.location = .csv filePath) (harrow : info.arrowSchema = none) :
    getDriver J opens (info.toString J) = .error () := by
  have htext : info.toString J = J.dump (csvJson filePath []) := by
    rw [AccessInfo.toString, h, AccessInfo.schemaToJsonString, harrow]
    rfl
  rw [htext, getDriver_csvJson, J.parse_nil]
  rfl

/-- With Arrow fields the child has them for its schema. -/
theorem getDriver_csv {info : AccessInfo} {filePath : Text}
    {fields : List SchemaField} (h : info.location = .csv filePath)
    (harrow : info.arrowSchema = some fields) :
    ∃ child, getDriver J opens (info.toString J) = .ok (some child)
      ∧ child.location = .csv filePath ∧ child.schema = fields
      ∧ child.arrowSchema.getD [] = fields := by
  have hmade := info.made fields harrow
  have hknown : ∀ field ∈ fields, field.2 ∈ knownTypes := by
    intro field hfield
    rw [hmade] at hfield
    obtain ⟨made, -, rfl⟩ := List.mem_map.mp hfield
    exact makeArrowDataType_mem made.2
  have hidem : makeArrowSchema fields = fields := by
    rw [hmade, makeArrowSchema_idem]
  have hschema := J.parse_dump _ (fieldsJson_canonical hknown)
  have htext : info.toString J
      = J.dump (csvJson filePath (J.dump (fieldsJson fields))) := by
    rw [AccessInfo.toString, h, AccessInfo.schemaToJsonString, harrow]
    rfl
  have hparse := J.parse_dump _
    (csvJson_canonical filePath (J.dump (fieldsJson fields)))
  have hne : J.dump (csvJson filePath (J.dump (fieldsJson fields))) ≠ [] := by
    intro hnil
    rw [hnil, J.parse_nil] at hparse
    cases hparse
  have hpath : dataPath J
      (J.dump (csvJson filePath (J.dump (fieldsJson fields))))
      = some filePath := by
    rw [dataPath, hparse]
    rfl
  have hlocation : locationFromMetaInfo J opens .csv
      (J.dump (csvJson filePath (J.dump (fieldsJson fields))))
      = some (.csv filePath) := by
    simp only [locationFromMetaInfo, if_neg hne, hpath]
  have htype : driverType? "CSV".toList = some .csv := rfl
  rw [htext, getDriver_csvJson, hschema, Option.bind_some,
    schemaEntries_fieldsJson hknown, mapM_id_some]
  simp only [createAccessInfo, htype, Option.bind_some, fromMetaInfo,
    hlocation, Option.map_some]
  refine ⟨_, rfl, rfl, ?_, ?_⟩
  · dsimp only [AccessInfo.ofParsed]
    split
    · rename_i hnil
      exact hnil.symm
    · rfl
  · dsimp only [AccessInfo.ofParsed]
    split
    · rename_i hnil
      exact hnil.symm
    · exact hidem

/-- The child has the parent's dataset exactly for a CSV driver whose Arrow
schema has been made, of types that come back. -/
theorem sameDataset_csv_iff {info : AccessInfo} {filePath : Text}
    (h : info.location = .csv filePath) :
    SameDataset J opens info ↔ info.arrowSchema ≠ none
      ∧ ∀ field ∈ info.schema, makeArrowDataType field.2 = field.2 := by
  rw [← makeArrowSchema_eq_iff]
  cases harrow : info.arrowSchema with
  | none =>
      refine ⟨?_, fun hboth => absurd rfl hboth.1⟩
      rintro ⟨child, hchild, -⟩
      rw [getDriver_csv_none J opens h harrow] at hchild
      cases hchild
  | some fields =>
      obtain ⟨child, hdriver, hlocation, hschema, hfields⟩ :=
        getDriver_csv J opens h harrow
      have hmade := info.made fields harrow
      refine ⟨?_, ?_⟩
      · rintro ⟨other, hother, -, hsame, -⟩
        rw [hdriver] at hother
        cases hother
        exact ⟨(Option.some_ne_none _), by rw [← hmade, ← hschema, hsame]⟩
      · rintro ⟨-, hstable⟩
        refine ⟨child, hdriver, hlocation.trans h.symm, ?_, ?_⟩
        · rw [hschema, hmade, hstable]
        · rw [hfields, harrow]
          rfl

theorem not_sameDataset_sqlite {info : AccessInfo} {dbPath tableName : Text}
    (h : info.location = .sqlite dbPath tableName) :
    ¬ SameDataset J opens info := by
  rintro ⟨child, hchild, -⟩
  rw [getDriver_sqlite J opens h] at hchild
  cases hchild

-- ============================================================= registration

/-- The kind of driver that a location belongs to. -/
def Location.type : Location → DriverType
  | .csv _ => .csv
  | .sqlite _ _ => .sqlite

theorem sqliteLocation_type {v : Json} {location : Location}
    (h : sqliteLocation v = some location) : location.type = .sqlite := by
  obtain ⟨dbPath, -, hrest⟩ := Option.bind_eq_some_iff.mp h
  obtain ⟨tableName, -, heq⟩ := Option.bind_eq_some_iff.mp hrest
  cases heq
  rfl

theorem csvLocation_type {v : Json} {location : Location}
    (h : csvLocation J v = some location) : location.type = .csv := by
  obtain ⟨access, -, hrest⟩ := Option.bind_eq_some_iff.mp h
  split at hrest
  · cases hrest
    rfl
  split at hrest
  · cases hrest
  · cases hrest
    rfl

theorem fromMetaInfo_type {type : DriverType} {m : DatasetMetaInfo}
    {info : AccessInfo} (h : fromMetaInfo J opens type m = some info) :
    info.location.type = type := by
  obtain ⟨location, hlocation, rfl⟩ := Option.map_eq_some_iff.mp h
  unfold locationFromMetaInfo at hlocation
  cases type with
  | csv =>
      dsimp only at hlocation
      split at hlocation
      · cases hlocation
        rfl
      split at hlocation
      · cases hlocation
        rfl
      split at hlocation
      · cases hlocation
        rfl
      · cases hlocation
  | sqlite =>
      dsimp only at hlocation
      split at hlocation
      · cases hlocation
        rfl
      · obtain ⟨v, -, hv⟩ := Option.bind_eq_some_iff.mp hlocation
        exact sqliteLocation_type hv

theorem fromYamlConfig_type {type : DriverType} {config : YamlConfig}
    {info : AccessInfo} (h : fromYamlConfig type config = some info) :
    info.location.type = type := by
  obtain ⟨location, hlocation, rfl⟩ := Option.map_eq_some_iff.mp h
  cases type with
  | csv =>
      obtain ⟨source, -, rfl⟩ := Option.map_eq_some_iff.mp hlocation
      rfl
  | sqlite =>
      obtain ⟨dbPath, -, hrest⟩ := Option.bind_eq_some_iff.mp hlocation
      obtain ⟨tableName, -, heq⟩ := Option.bind_eq_some_iff.mp hrest
      cases heq
      rfl

theorem fromJsonString_type {type : DriverType} {text : Text}
    {info : AccessInfo} (h : fromJsonString J type text = some info) :
    info.location.type = type := by
  cases type with
  | csv =>
      unfold fromJsonString csvFromJsonString at h
      dsimp only at h
      split at h
      · cases h
        rfl
      split at h
      · cases h
        rfl
      split at h
      · rename_i hlocation
        cases h
        exact csvLocation_type J hlocation
      split at h
      · cases h
        rfl
      · cases h
  | sqlite =>
      obtain ⟨v, -, h⟩ := Option.bind_eq_some_iff.mp h
      obtain ⟨⟨schema, _⟩, -, h⟩ := Option.bind_eq_some_iff.mp h
      obtain ⟨access, -, h⟩ := Option.bind_eq_some_iff.mp h
      obtain ⟨location, hlocation, h⟩ := Option.bind_eq_some_iff.mp h
      obtain ⟨stored, -, hstored⟩ := Option.bind_eq_some_iff.mp hlocation
      cases h
      exact sqliteLocation_type hstored

/-- Whatever it is registered from, a dataset is of the kind that its
driver's name stands for. -/
theorem createAccessInfo_type {name : Text} {d : Description}
    {info : AccessInfo} (h : createAccessInfo J opens name d = some info) :
    driverType? name = some info.location.type := by
  cases d with
  | metaInfo m =>
      obtain ⟨type, htype, hinfo⟩ := Option.bind_eq_some_iff.mp h
      rw [htype, fromMetaInfo_type J opens hinfo]
  | yaml config =>
      obtain ⟨type, htype, hinfo⟩ := Option.bind_eq_some_iff.mp h
      rw [htype, fromYamlConfig_type hinfo]
  | stored text =>
      obtain ⟨type, htype, hinfo⟩ := Option.bind_eq_some_iff.mp h
      rw [htype, fromJsonString_type J hinfo]

end Child

-- ============================================================== main result

/-- The child of a registered dataset's parent has the same dataset exactly
for a CSV driver whose Arrow schema has been made, of types that come
back. -/
theorem sameDataset_iff (J : JsonText) (opens : Text → Bool) {name : Text}
    {d : Description} {info : AccessInfo}
    (h : createAccessInfo J opens name d = some info) :
    SameDataset J opens info ↔ driverType? name = some .csv
      ∧ info.arrowSchema ≠ none
      ∧ ∀ field ∈ info.schema, makeArrowDataType field.2 = field.2 := by
  rw [createAccessInfo_type J opens h]
  cases hlocation : info.location with
  | csv filePath =>
      rw [sameDataset_csv_iff J opens hlocation]
      exact (and_iff_right rfl).symm
  | sqlite dbPath tableName =>
      refine ⟨fun hsame => ?_, fun hboth => ?_⟩
      · exact absurd hsame (not_sameDataset_sqlite J opens hlocation)
      · cases hboth.1

-- ================================================================= instances

/-- The JSON texts of one line are such a library. -/
def lineJson : JsonText where
  dump := Json.print
  parse := Json.read
  parse_dump v _ := Json.read_print v
  parse_nil := rfl

/-- A table with a column of integers and one of doubles. -/
def twoColumns : YamlConfig where
  schema := some [some ("id".toList, 9), some ("x".toList, 12)]
  source := some "/data/train.csv".toList
  tableName := some "train".toList

/-- A CSV file with two columns is handed on. -/
theorem sameDataset_twoColumns : ∃ info,
    createAccessInfo lineJson (fun _ => true) "csv".toList (.yaml twoColumns)
        = some info
      ∧ SameDataset lineJson (fun _ => true) info := by
  have hcreate : createAccessInfo lineJson (fun _ => true) "csv".toList
      (.yaml twoColumns) = some (.ofParsed
        (.of [("id".toList, 9), ("x".toList, 12)])
        (.csv "/data/train.csv".toList)) := rfl
  refine ⟨_, hcreate, ?_⟩
  exact (sameDataset_iff lineJson (fun _ => true) hcreate).mpr
    ⟨rfl, Option.some_ne_none _, by decide⟩

/-- A SQLite table with the same columns is not. -/
theorem not_sameDataset_twoColumns :
    ¬ ∀ (J : JsonText) (opens : Text → Bool) (name : Text) (d : Description)
      (info : AccessInfo), createAccessInfo J opens name d = some info →
        SameDataset J opens info := by
  intro h
  refine not_sameDataset_sqlite lineJson (fun _ => true) rfl
    (h lineJson (fun _ => true) "sqlite".toList (.yaml twoColumns) _ rfl)

end PrimiHub.DataStore
