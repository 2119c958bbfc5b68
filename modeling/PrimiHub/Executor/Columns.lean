/-
The columns of an expression: `ColumnConfig`, `FeedDict` and
`resolveRunMode` of `executor/express.cc`.

`ColumnConfig` knows the owner and the type of every column and, once
`resolveLocalColumn` has run, which of them are the party's own.
`FeedDict` holds the values of the party's own columns; all of them must
have one length, `val_count_`, which is -1 as long as nothing has been
imported. `resolveRunMode` classifies the operands of the compiled
expression and chooses integer or floating point mode.

A `std::map` is an association list searched from the front, so adding
an entry in front of another overwrites it. `double` is a type `D` with
the conversion from `int64_t`; nothing here computes with it. Where a
method logs an error and returns a code, the code is kept and the log
line is not; where it raises, the message is kept.
-/
import Mathlib.Data.BitVec
import PrimiHub.Executor.Parse

namespace PrimiHub.Executor

/-- `int64_t`, and the ring of the shares. -/
abbrev I64 := BitVec 64

/-- `std::map` from names. -/
abbrev Map (V : Type) := List (Str × V)

/-- The message a string literal stands for. -/
def text (s : String) : Str := s.toList

-- ======================================================= ColumnConfig

inductive ColDtype
  | int64
  | fp64
deriving DecidableEq

structure ColumnConfig where
  partyId : Nat
  colOwner : Map Nat
  colDtype : Map ColDtype
  localCol : Map Bool

/-- `initColumnConfig`. -/
def ColumnConfig.init (partyId : Nat) : ColumnConfig := ⟨partyId, [], [], []⟩

namespace ColumnConfig

/-- `importColumnDtype`: the return code and the configuration. -/
def importColumnDtype (colName : Str) (dtype : ColDtype)
    (cfg : ColumnConfig) : Int × ColumnConfig :=
  match cfg.colDtype.lookup colName with
  | some _ => (-1, cfg)
  | none => (0, { cfg with colDtype := (colName, dtype) :: cfg.colDtype })

/-- `importColumnOwner`. -/
def importColumnOwner (colName : Str) (partyId : Nat) (cfg : ColumnConfig) :
    Except Fault ColumnConfig :=
  match cfg.colOwner.lookup colName with
  | some owner =>
      .error (.raised (text "Column " ++ colName
        ++ text "'s owner attr is imported, value is "
        ++ Nat.toDigits 10 owner ++ text "."))
  | none => .ok { cfg with colOwner := (colName, partyId) :: cfg.colOwner }

/-- `getColumnDtype`: it has no failure code, an unknown column raises. -/
def getColumnDtype (cfg : ColumnConfig) (colName : Str) :
    Except Fault ColDtype :=
  match cfg.colDtype.lookup colName with
  | some dtype => .ok dtype
  | none =>
      .error (.raised (text "Can't find dtype attr for column " ++ colName
        ++ text "."))

/-- `getColumnLocality`. -/
def getColumnLocality (cfg : ColumnConfig) (colName : Str) :
    Except Fault Bool :=
  match cfg.localCol.lookup colName with
  | some isLocal => .ok isLocal
  | none =>
      .error (.raised (text "Can't find column locality by column name "
        ++ colName ++ text "."))

/-- `resolveLocalColumn`: every column with an owner must have a type,
and the party's own columns are marked. `insert` keeps an entry that is
already there. The message names one column without a type; the map's
own order would decide which. -/
def resolveLocalColumn (cfg : ColumnConfig) : Except Fault ColumnConfig :=
  if cfg.colDtype.length ≠ cfg.colOwner.length then
    .error (.raised (text "Count of owner attr and dtype attr must be the same."
      ++ text "col_dtype size: " ++ Nat.toDigits 10 cfg.colDtype.length
      ++ text " " ++ text "col_owner size: "
      ++ Nat.toDigits 10 cfg.colOwner.length))
  else
    match cfg.colOwner.find? fun c => (cfg.colDtype.lookup c.1).isNone with
    | some c =>
        .error (.raised (text "Import column " ++ c.1
          ++ text "'s owner attr, but don't import it's dtype attr."))
    | none =>
        .ok { cfg with
          localCol := cfg.localCol
            ++ cfg.colOwner.map fun c => (c.1, c.2 == cfg.partyId) }

/-- `hasFP64Column`. -/
def hasFP64Column (cfg : ColumnConfig) : Bool :=
  cfg.colDtype.any fun c => c.2 == .fp64

end ColumnConfig

-- =========================================================== FeedDict

structure FeedDict (D : Type) where
  floatRun : Bool
  valCount : Int
  fp64Col : Map (List D)
  int64Col : Map (List I64)

/-- The constructor. -/
def FeedDict.init {D : Type} (floatRun : Bool) : FeedDict D :=
  ⟨floatRun, -1, [], []⟩

namespace FeedDict

variable {D : Type}

/-- `getColumnValuesCount`: `val_count_` as a `uint32_t`. -/
def getColumnValuesCount (feed : FeedDict D) : Nat :=
  (feed.valCount % 2 ^ 32).toNat

/-- `setOrCheckValueCount`: the first column sets the count, the others
are compared with it. Returns the code and the count. -/
def setOrCheckValueCount (feed : FeedDict D) (newCount : Int) :
    Int × FeedDict D :=
  let feed := if feed.valCount = -1 then { feed with valCount := newCount }
    else feed
  if feed.valCount ≠ newCount then (-1, feed) else (0, feed)

/-- `static_cast<int64_t>(size)`. -/
def castCount (size : Nat) : Int := (BitVec.ofNat 64 size).toInt

/-- `importColumnValues(const std::string&, std::vector<double>&)`. -/
def importColumnValuesFP64 (cfg : ColumnConfig) (colName : Str)
    (vec : List D) (feed : FeedDict D) : Except Fault (Int × FeedDict D) := do
  let isLocal ← cfg.getColumnLocality colName
  if isLocal = false then .ok (-1, feed)
  else
    let counted := feed.setOrCheckValueCount (castCount vec.length)
    if counted.1 ≠ 0 then .ok (-2, counted.2)
    else if feed.floatRun = false then .ok (-1, counted.2)
    else if (feed.fp64Col.lookup colName).isSome then .ok (-2, counted.2)
    else .ok (0, { counted.2 with fp64Col := (colName, vec) :: feed.fp64Col })

/-- `importColumnValues(const std::string&, std::vector<int64_t>&)`. In
floating point mode the values are converted and handed to the overload
above, which moves them into the map; the `insert` after that call finds
the column already there. -/
def importColumnValuesI64 (cast : I64 → D) (cfg : ColumnConfig)
    (colName : Str) (vec : List I64) (feed : FeedDict D) :
    Except Fault (Int × FeedDict D) := do
  let isLocal ← cfg.getColumnLocality colName
  if isLocal = false then .ok (-1, feed)
  else
    let dtype ← cfg.getColumnDtype colName
    if dtype ≠ .int64 then .ok (-2, feed)
    else
      let counted := feed.setOrCheckValueCount (castCount vec.length)
      if counted.1 ≠ 0 then .ok (-2, counted.2)
      else if feed.floatRun = true then do
        let r ← importColumnValuesFP64 cfg colName (vec.map cast) counted.2
        if r.1 ≠ 0 then .ok (-3, r.2) else .ok (0, r.2)
      else if (feed.int64Col.lookup colName).isSome then .ok (-4, counted.2)
      else
        .ok (0, { counted.2 with int64Col := (colName, vec) :: feed.int64Col })

/-- `getColumnValues(const std::string&, std::vector<int64_t>**)`: the
code is a fault here, since every caller stops on it. -/
def getColumnValuesI64 (cfg : ColumnConfig) (feed : FeedDict D)
    (colName : Str) : Except Fault (List I64) := do
  let isLocal ← cfg.getColumnLocality colName
  if isLocal = false then .error (.returned (-1))
  else if feed.floatRun = true then .error (.returned (-1))
  else
    match feed.int64Col.lookup colName with
    | some vec => .ok vec
    | none => .error (.returned (-2))

/-- The vector of a call of `importColumnValues`, in either overload. -/
inductive Values (D : Type)
  | int64 (vec : List I64)
  | fp64 (vec : List D)

def Values.length : Values D → Nat
  | .int64 vec => vec.length
  | .fp64 vec => vec.length

/-- A call of `importColumnValues`. The length is one a vector can
have. -/
structure Import (D : Type) where
  colName : Str
  values : Values D
  length_lt : values.length < 2 ^ 63

/-- The call, resolved to its overload. -/
def importColumnValues (cast : I64 → D) (cfg : ColumnConfig) (c : Import D)
    (feed : FeedDict D) : Except Fault (Int × FeedDict D) :=
  match c.values with
  | .int64 vec => importColumnValuesI64 cast cfg c.colName vec feed
  | .fp64 vec => importColumnValuesFP64 cfg c.colName vec feed

/-- The members after the call. What raises an exception does so before
any of them is written. -/
def afterImport (cast : I64 → D) (cfg : ColumnConfig) (feed : FeedDict D)
    (c : Import D) : Option (FeedDict D) :=
  match importColumnValues cast cfg c feed with
  | .ok r => some r.2
  | .error _ => some feed

/-- A call that returns a non-zero code changes nothing. -/
def Atomic (cast : I64 → D) (cfg : ColumnConfig) (feed : FeedDict D)
    (c : Import D) : Prop :=
  ∀ code feed', importColumnValues cast cfg c feed = .ok (code, feed') →
    code ≠ 0 → feed' = feed

/-- The calls that do: not the first values to be counted handed to the
double overload in integer mode. -/
def Admissible (cfg : ColumnConfig) (feed : FeedDict D) (c : Import D) :
    Prop :=
  match c.values with
  | .int64 _ => True
  | .fp64 _ =>
      cfg.localCol.lookup c.colName = some true → feed.floatRun = false →
        feed.valCount ≠ -1

/-- The stored columns are `val_count_` long, there is one of each name,
and they are in the map of the run mode. -/
structure Consistent (feed : FeedDict D) : Prop where
  length_fp64 : ∀ c ∈ feed.fp64Col, (c.2.length : Int) = feed.valCount
  length_int64 : ∀ c ∈ feed.int64Col, (c.2.length : Int) = feed.valCount
  nodup_fp64 : (feed.fp64Col.map Prod.fst).Nodup
  nodup_int64 : (feed.int64Col.map Prod.fst).Nodup
  fp64_nil : feed.floatRun = false → feed.fp64Col = []
  int64_nil : feed.floatRun = true → feed.int64Col = []

end FeedDict

-- ============================================================ run mode

/-- `TokenType`. -/
inductive TokenType
  | column
  | value
deriving DecidableEq

/-- `token_type_map_[token]`: a token that is not in the map is entered
with the first enumerator. -/
def tokenType (typeMap : Map TokenType) (token : Str) : TokenType :=
  (typeMap.lookup token).getD .column

/-- `token_type_map_.insert`. -/
def insertType (typeMap : Map TokenType) (token : Str) (type : TokenType) :
    Map TokenType :=
  if (typeMap.lookup token).isSome then typeMap
  else (token, type) :: typeMap

/-- One token of `resolveRunMode`. The branch of a number is the one for
a non-zero code of `getColumnDtype`, which never returns one: it raises
instead. -/
def resolveToken (cfg : ColumnConfig) (acc : Map TokenType × Bool)
    (token : Str) : Except Fault (Map TokenType × Bool) :=
  if isOperatorToken token then .ok (acc.1, acc.2 || token == ['/'])
  else do
    let _ ← cfg.getColumnDtype token
    .ok (insertType acc.1 token .column, acc.2)

/-- `resolveRunMode`: the configuration with the local columns marked,
`token_type_map_` and `fp64_run_`. -/
def resolveRunMode (cfg : ColumnConfig) (typeMap : Map TokenType)
    (suffixStk : List Str) :
    Except Fault (ColumnConfig × Map TokenType × Bool) := do
  let cfg ← cfg.resolveLocalColumn
  let r ← suffixStk.foldlM (resolveToken cfg) (typeMap, false)
  .ok (cfg, r.1, r.2 || cfg.hasFP64Column)

/-- Every column has an owner and a type. -/
def ColumnConfig.Matching (cfg : ColumnConfig) : Prop :=
  (cfg.colOwner.map Prod.fst).Perm (cfg.colDtype.map Prod.fst)

/-- An imported column. -/
def ColumnConfig.HasColumn (cfg : ColumnConfig) (name : Str) : Prop :=
  (cfg.colDtype.lookup name).isSome

instance (cfg : ColumnConfig) (name : Str) : Decidable (cfg.HasColumn name) :=
  inferInstanceAs (Decidable ((cfg.colDtype.lookup name).isSome = true))

/-- A column of floating point type is imported. -/
def ColumnConfig.HasFP64 (cfg : ColumnConfig) : Prop :=
  ∃ c ∈ cfg.colDtype, c.2 = .fp64

/-- The operands among the tokens of a compiled expression. -/
def operandTokens (suffixStk : List Str) : List Str :=
  suffixStk.filter fun token => !isOperatorToken token

/-- What `resolveRunMode` is for, on a new executor: it returns, every
operand has its type, and floating point mode is chosen for a division, a
floating point column or a literal with a point. -/
def RunModeResolved (cfg : ColumnConfig) (expr : Str)
    (suffixStk : List Str) : Prop :=
  ∃ cfg' typeMap fp64,
    resolveRunMode cfg [] suffixStk = .ok (cfg', typeMap, fp64)
      ∧ (∀ token ∈ operandTokens suffixStk, typeMap.lookup token
        = some (if cfg.HasColumn token then .column else .value))
      ∧ (fp64 = true ↔ '/' ∈ expr ∨ cfg.HasFP64
        ∨ ∃ token ∈ operandTokens suffixStk,
          ¬ cfg.HasColumn token ∧ '.' ∈ token)

end PrimiHub.Executor
