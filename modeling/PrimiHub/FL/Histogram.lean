/-
The guest's candidate splits (python/primihub/FL/xgboost/gbt.py, the
`ray_group` path): `sums_of_encrypted_ghs_with_ray` puts the values of a
column into buckets and sums the gradients of each bucket,
`gh_sums_decrypted_with_ray` turns the sums into a table of candidates.

The values of the table and the keys of its buckets are finite doubles, and
every operation on them rounds; an integer column counts as the doubles of
its values. The gradients are rational. The encryption and its codec are
taken as exact, so a group is the sums that the host decrypts, in the branch
with `merge_gh` as in the one without. Ray gives one group for each bucket,
in an order of its own, `order`. Which cuts stand beside which sums is as in
the source: `tmp_cut` is read before `sort_values`, and `cumsum` at a
group includes the group. `encrypt_pool` is never `None` at the host.
-/
import Mathlib.Data.List.Dedup
import Mathlib.Data.List.Sort
import PrimiHub.FL.Tree
import PrimiHub.Lib.Binary64

namespace PrimiHub.FL

open Lib (roundEven roundToDouble)

variable {ι : Type}

-- ================================================================ buckets

/-- `a // b` of a double that is not negative and a positive one: `fmod`
is exact, the rest rounds. -/
def floorDivide (a b : ℚ) : ℚ :=
  let mod := a - b * (a / b).floor
  let div := roundToDouble (roundToDouble (a - mod) / b)
  if 1 / 2 < div - div.floor then div.floor + 1 else div.floor

/-- `round(x, 3)`. -/
def round3 (x : ℚ) : ℚ :=
  roundToDouble (roundEven (roundToDouble (x * 1000)) / 1000)

/-- The width of a column's buckets. -/
def bucketWidth (bins : Nat) (lo hi : ℚ) : ℚ :=
  let max0 := roundToDouble (hi + roundToDouble (5 / 1000))
  roundToDouble (roundToDouble (max0 - lo) / bins)

/-- `assign_bucket`, with the values of the whole column: a column with
fewer values than bins is left as it is. -/
def assignBucket (bins : Nat) (column : List ℚ) (s : ℚ) : ℚ :=
  if column.dedup.length < bins then s
  else
    let lo := column.min?.getD 0
    let width := bucketWidth bins lo (column.max?.getD 0)
    let bin := floorDivide (roundToDouble (s - lo)) width
    round3 (roundToDouble (lo + roundToDouble (bin * width)))

/-- The bucket of a row. -/
def bucketOf (bins : Nat) (x : Table ι ℚ) (var : String) (i : ι) : ℚ :=
  assignBucket bins (x.index.labels.map fun j => x.row j var) (x.row i var)

-- ================================================================= groups

/-- The sum of `f` over some labels. -/
def Index.total (ids : Index ι) (f : ι → ℚ) : ℚ := (ids.labels.map f).sum

/-- One row of a grouped column: the bucket and its sums. -/
structure Group where
  key : ℚ
  g : ℚ
  h : ℚ
  deriving DecidableEq, Repr

/-- The group of a bucket. -/
def groupOf (bins : Nat) (x : Table ι ℚ) (gh : Frame ι (Grad ℚ))
    (var : String) (key : ℚ) : Group :=
  let rows := x.index.filter fun i => bucketOf bins x var i = key
  ⟨key, rows.total fun i => (gh.row i).g, rows.total fun i => (gh.row i).h⟩

/-- The buckets of a column, in the order of the groups. -/
def groupKeys (order : List ℚ → List ℚ) (bins : Nat) (x : Table ι ℚ)
    (var : String) : List ℚ :=
  order (x.index.labels.map (bucketOf bins x var))

/-- `sums_of_encrypted_ghs_with_ray`, one column after the other. -/
def sumsOfEncryptedGhsWithRay (order : List ℚ → List ℚ) (bins : Nat)
    (cols : List String) (x : Table ι ℚ) (gh : Frame ι (Grad ℚ)) :
    List (String × List Group) :=
  cols.map fun var =>
    (var, (groupKeys order bins x var).map (groupOf bins x gh var))

-- ============================================================= candidates

/-- A row of `gh_sums`. -/
structure Candidate where
  gLeft : ℚ
  hLeft : ℚ
  gRight : ℚ
  hRight : ℚ
  var : String
  cut : ℚ
  deriving DecidableEq, Repr

/-- `cumsum`, on top of `sum`. -/
def cumsum (sum : ℚ) : List ℚ → List ℚ
  | [] => []
  | x :: rest => (sum + x) :: cumsum (sum + x) rest

/-- `sort_values(by=key, ascending=True)`. -/
def sortGroups (val : List Group) : List Group :=
  val.insertionSort fun a b => a.key ≤ b.key

/-- The candidates of one column. -/
def columnCandidates (plain : Grad ℚ) (var : String) (val : List Group) :
    List Candidate :=
  let cuts := val.map (·.key)
  let gLefts := cumsum 0 ((sortGroups val).map (·.g))
  let hLefts := cumsum 0 ((sortGroups val).map (·.h))
  (cuts.zip (gLefts.zip hLefts)).map fun (cut, gLeft, hLeft) =>
    ⟨gLeft, hLeft, plain.g - gLeft, plain.h - hLeft, var, cut⟩

/-- `gh_sums_decrypted_with_ray`. -/
def ghSumsDecryptedWithRay (ghSumsDict : List (String × List Group))
    (plain : Grad ℚ) : List Candidate :=
  ghSumsDict.flatMap fun (var, val) => columnCandidates plain var val

/-- `gh.sum(axis=0)`. -/
def plainGhSums (gh : Frame ι (Grad ℚ)) : Grad ℚ :=
  ⟨gh.index.total fun i => (gh.row i).g, gh.index.total fun i => (gh.row i).h⟩

-- ========================================================== specification

/-- One group for each key. -/
def GroupsOnce (order : List ℚ → List ℚ) : Prop :=
  ∀ keys, (order keys).Nodup ∧ ∀ key, key ∈ order keys ↔ key ∈ keys

/-- The loss of a leaf with the weight `w`, up to a constant. -/
def leafLoss (regLambda g h w : ℚ) : ℚ := g * w + (h + regLambda) / 2 * w ^ 2

/-- `w` is the best weight for samples with these sums. -/
def OptimalWeight (regLambda g h w : ℚ) : Prop :=
  0 < h + regLambda → ∀ v, leafLoss regLambda g h w ≤ leafLoss regLambda g h v

/-- The candidate has the statistics of the split it makes. -/
structure UsesOwnSplit (regLambda : ℚ) (x : Table ι ℚ)
    (gh : Frame ι (Grad ℚ)) (c : Candidate) : Prop where
  gLeft : c.gLeft
    = (splitIds x c.var c.cut).idLeft.total fun i => (gh.row i).g
  hLeft : c.hLeft
    = (splitIds x c.var c.cut).idLeft.total fun i => (gh.row i).h
  gRight : c.gRight
    = (splitIds x c.var c.cut).idRight.total fun i => (gh.row i).g
  hRight : c.hRight
    = (splitIds x c.var c.cut).idRight.total fun i => (gh.row i).h
  wLeft : OptimalWeight regLambda
    ((splitIds x c.var c.cut).idLeft.total fun i => (gh.row i).g)
    ((splitIds x c.var c.cut).idLeft.total fun i => (gh.row i).h)
    (leafWeight regLambda c.gLeft c.hLeft)
  wRight : OptimalWeight regLambda
    ((splitIds x c.var c.cut).idRight.total fun i => (gh.row i).g)
    ((splitIds x c.var c.cut).idRight.total fun i => (gh.row i).h)
    (leafWeight regLambda c.gRight c.hRight)

/-- The candidates of all columns have the statistics of their own splits,
whatever the gradients are. -/
def OwnSplits (order : List ℚ → List ℚ) (bins : Nat) (cols : List String)
    (regLambda : ℚ) (x : Table ι ℚ) : Prop :=
  ∀ gh : Frame ι (Grad ℚ), SameIndex x gh →
    ∀ c ∈ ghSumsDecryptedWithRay
        (sumsOfEncryptedGhsWithRay order bins cols x gh) (plainGhSums gh),
      UsesOwnSplit regLambda x gh c

/-- Every value of a column is below the key of its own bucket, and not
below that of a lower one. -/
structure KeysAbove (bins : Nat) (x : Table ι ℚ) (var : String) : Prop where
  own : ∀ i ∈ x.index.labels, x.row i var < bucketOf bins x var i
  lower : ∀ i ∈ x.index.labels, ∀ j ∈ x.index.labels,
    bucketOf bins x var j < bucketOf bins x var i →
      bucketOf bins x var j ≤ x.row i var

end PrimiHub.FL
