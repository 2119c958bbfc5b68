/-
When the candidates of the guest have the statistics of their own splits.

The cumulative sum at the `i`-th group is the sum over the rows whose
bucket is at most the `i`-th smallest one (`cumsum_groups`), while the
split with the `i`-th cut takes the rows below that cut, which is a group
of ray's choosing. For all gradients the sums agree only if these are the
same rows (`candidateAt_iff`). The rows of the sums grow with `i`, so the
cuts must ascend, and then each is the key of its own bucket
(`sameRows_iff`).
-/
import Mathlib.Tactic.Linarith
import Mathlib.Tactic.Ring
import Mathlib.Tactic.FieldSimp
import PrimiHub.FL.Histogram

namespace PrimiHub.FL

variable {ι : Type}

-- ================================================================= totals

theorem Index.total_congr {index : Index ι} {p q : ι → Bool} (f : ι → ℚ)
    (h : ∀ i ∈ index.labels, p i = q i) :
    (index.filter p).total f = (index.filter q).total f := by
  show ((index.labels.filter p).map f).sum = ((index.labels.filter q).map f).sum
  rw [List.filter_congr h]

/-- The rows with a flag, and those without. -/
theorem Index.total_add_not (index : Index ι) (p : ι → Bool) (f : ι → ℚ) :
    (index.filter p).total f + (index.filter fun i => !p i).total f
      = index.total f := by
  have hperm := (List.filter_append_perm p index.labels).map f
  have hsum := hperm.sum_eq
  rw [List.map_append, List.sum_append] at hsum
  exact hsum

/-- A flag split by a second one. -/
theorem Index.total_and (index : Index ι) (p q : ι → Bool) (f : ι → ℚ) :
    (index.filter p).total f
      = (index.filter fun i => p i && q i).total f
        + (index.filter fun i => p i && !q i).total f := by
  have h := (index.filter p).total_add_not q f
  have hboth : ∀ r : ι → Bool, ((index.filter p).filter r).total f
      = (index.filter fun i => p i && r i).total f := by
    intro r
    show (((index.labels.filter p).filter r).map f).sum
      = ((index.labels.filter fun i => p i && r i).map f).sum
    rw [List.filter_filter]
    simp only [Bool.and_comm]
  rw [hboth, hboth] at h
  exact h.symm

/-- The sum of the indicator of one row. -/
theorem Index.total_single [DecidableEq ι] (index : Index ι) (p : ι → Bool)
    {i : ι} (hi : i ∈ index.labels) :
    (index.filter p).total (fun j => if j = i then 1 else 0)
      = if p i then 1 else 0 := by
  show ((index.labels.filter p).map fun j => if j = i then (1 : ℚ) else 0).sum
    = _
  rw [List.sum_map_eq_nsmul_single i _ fun j hj _ => if_neg hj, if_pos rfl,
    nsmul_one]
  by_cases hp : p i
  · have hmem : i ∈ index.labels.filter p := List.mem_filter.mpr ⟨hi, hp⟩
    rw [List.count_eq_one_of_mem (index.nodup.filter p) hmem, if_pos hp,
      Nat.cast_one]
  · have hmem : i ∉ index.labels.filter p :=
      fun hmem => hp (List.mem_filter.mp hmem).2
    rw [List.count_eq_zero_of_not_mem hmem, if_neg hp, Nat.cast_zero]

/-- The sums of the groups of some keys. -/
theorem sum_groups (index : Index ι) (b : ι → ℚ) (f : ι → ℚ) {keys : List ℚ}
    (hkeys : keys.Nodup) :
    (keys.map fun key => (index.filter fun i => b i = key).total f).sum
      = (index.filter fun i => b i ∈ keys).total f := by
  induction keys with
  | nil =>
      have hnone : (index.labels.filter fun i => decide (b i ∈ ([] : List ℚ)))
          = [] := by
        apply List.filter_eq_nil_iff.mpr
        intro i _ h
        exact List.not_mem_nil (of_decide_eq_true h)
      show (0 : ℚ) = ((index.labels.filter _).map f).sum
      rw [hnone]
      rfl
  | cons key rest ih =>
      obtain ⟨hkey, hrest⟩ := List.nodup_cons.mp hkeys
      rw [List.map_cons, List.sum_cons, ih hrest]
      -- split the rows of all keys by whether they are in the first group
      rw [index.total_and (fun i => decide (b i ∈ key :: rest))
        (fun i => decide (b i = key)) f]
      congr 1
      · apply Index.total_congr
        intro i _
        by_cases h : b i = key <;> simp [h]
      · apply Index.total_congr
        intro i _
        by_cases h : b i = key <;> simp [h, hkey]

-- ========================================================= cumulative sums

theorem cumsum_getElem? (sum : ℚ) (xs : List ℚ) (i : Nat) :
    (cumsum sum xs)[i]?
      = if i < xs.length then some (sum + (xs.take (i + 1)).sum)
        else none := by
  induction xs generalizing sum i with
  | nil => rfl
  | cons x rest ih =>
      cases i with
      | zero => simp [cumsum]
      | succ i =>
          rw [cumsum, List.getElem?_cons_succ, ih, List.length_cons,
            List.take_succ_cons, List.sum_cons, ← add_assoc]
          simp only [Nat.add_lt_add_iff_right]

/-- The first keys of a strictly ascending list. -/
theorem mem_take_iff {keys : List ℚ} (h : keys.Pairwise (· < ·)) {i : Nat}
    {bound : ℚ} (hi : keys[i]? = some bound) (key : ℚ) :
    key ∈ keys.take (i + 1) ↔ key ∈ keys ∧ key ≤ bound := by
  induction keys generalizing i with
  | nil => cases hi
  | cons k rest ih =>
      obtain ⟨hk, hrest⟩ := List.pairwise_cons.mp h
      cases i with
      | zero =>
          obtain rfl : k = bound := Option.some.inj hi
          constructor
          · intro hkey
            obtain rfl : key = k := by simpa using hkey
            exact ⟨List.mem_cons_self, le_refl _⟩
          · intro hc
            obtain ⟨hkey, hle⟩ := hc
            obtain _ | ⟨_, hkey⟩ := hkey
            · exact List.mem_cons_self
            · exact absurd (hk key hkey) (not_lt.mpr hle)
      | succ i =>
          have hi' : rest[i]? = some bound := hi
          have hbound : k < bound := hk bound (List.mem_of_getElem? hi')
          rw [List.take_succ_cons, List.mem_cons, List.mem_cons,
            ih hrest hi']
          constructor
          · intro hc
            obtain rfl | ⟨hkey, hle⟩ := hc
            · exact ⟨Or.inl rfl, le_of_lt hbound⟩
            · exact ⟨Or.inr hkey, hle⟩
          · intro hc
            obtain ⟨rfl | hkey, hle⟩ := hc
            · exact Or.inl rfl
            · exact Or.inr ⟨hkey, hle⟩

theorem pairwise_lt_insertionSort {keys : List ℚ} (h : keys.Nodup) :
    (keys.insertionSort (· ≤ ·)).Pairwise (· < ·) := by
  have hle := List.pairwise_insertionSort (· ≤ ·) keys
  have hne : (keys.insertionSort (· ≤ ·)).Nodup :=
    (List.perm_insertionSort (· ≤ ·) keys).nodup_iff.mpr h
  exact (hle.and hne).imp fun h => lt_of_le_of_ne h.1 h.2

/-- The cumulative sum at a group is the sum of the rows up to its
bucket. -/
theorem cumsum_groups (index : Index ι) (b f : ι → ℚ) {keys : List ℚ}
    (hkeys : keys.Nodup) (hall : ∀ i ∈ index.labels, b i ∈ keys) :
    cumsum 0 ((keys.insertionSort (· ≤ ·)).map fun key =>
        (index.filter fun i => b i = key).total f)
      = (keys.insertionSort (· ≤ ·)).map fun bound =>
        (index.filter fun i => b i ≤ bound).total f := by
  have hsorted := pairwise_lt_insertionSort hkeys
  apply List.ext_getElem?
  intro i
  rw [cumsum_getElem?, List.length_map, List.getElem?_map]
  cases hbound : (keys.insertionSort (· ≤ ·))[i]? with
  | none =>
      rw [if_neg (not_lt.mpr (List.getElem?_eq_none_iff.mp hbound))]
      rfl
  | some bound =>
      have hfirst : ((keys.insertionSort (· ≤ ·)).take (i + 1)).Nodup :=
        (hsorted.imp fun h => ne_of_lt h).sublist (List.take_sublist _ _)
      rw [if_pos (List.getElem?_eq_some_iff.mp hbound).1, zero_add,
        ← List.map_take, sum_groups index b f hfirst]
      congr 1
      apply Index.total_congr
      intro j hj
      apply decide_eq_decide.mpr
      rw [mem_take_iff hsorted hbound, List.mem_insertionSort]
      exact and_iff_right (hall j hj)

-- ============================================================= candidates

/-- The best weight of a leaf. -/
theorem leafWeight_optimal (regLambda g h : ℚ) :
    OptimalWeight regLambda g h (leafWeight regLambda g h) := by
  intro hpos v
  unfold leafLoss leafWeight
  have hne : h + regLambda ≠ 0 := ne_of_gt hpos
  have hsq : g * v + (h + regLambda) / 2 * v ^ 2
      - (g * (-g / (h + regLambda))
        + (h + regLambda) / 2 * (-g / (h + regLambda)) ^ 2)
      = (h + regLambda) / 2 * (v + g / (h + regLambda)) ^ 2 := by
    field_simp
    ring
  have hnonneg : 0 ≤ (h + regLambda) / 2 * (v + g / (h + regLambda)) ^ 2 :=
    mul_nonneg (by linarith) (sq_nonneg _)
  linarith

/-- The sums over a table, read in the other one. -/
theorem total_sameIndex {ρ ρ' : Type} {x : Frame ι ρ} {y : Frame ι ρ'}
    (h : SameIndex x y) (f : ι → ℚ) :
    y.index.total f = x.index.total f := (h.perm.map f).sum_eq.symm

/-- What the split leaves on the right. -/
theorem splitIds_total (x : Table ι ℚ) (var : String) (cut : ℚ)
    (f : ι → ℚ) :
    (splitIds x var cut).idLeft.total f + (splitIds x var cut).idRight.total f
      = x.index.total f :=
  x.index.total_add_not (fun i => decide (x.row i var < cut)) f

/-- The sum of all rows less those on the left. -/
theorem total_sub_idLeft {x : Table ι ℚ} {gh : Frame ι (Grad ℚ)}
    (hindex : SameIndex x gh) (var : String) (cut : ℚ) (f : ι → ℚ) :
    gh.index.total f - (splitIds x var cut).idLeft.total f
      = (splitIds x var cut).idRight.total f := by
  rw [total_sameIndex hindex, ← splitIds_total x var cut]
  ring

/-- The candidate with the sums up to `bound` and the cut `cut`. -/
def candidateAt (bins : Nat) (x : Table ι ℚ) (gh : Frame ι (Grad ℚ))
    (var : String) (bound cut : ℚ) : Candidate :=
  let rows := x.index.filter fun i => bucketOf bins x var i ≤ bound
  let g := rows.total fun i => (gh.row i).g
  let h := rows.total fun i => (gh.row i).h
  ⟨g, h, (plainGhSums gh).g - g, (plainGhSums gh).h - h, var, cut⟩

/-- Such a candidate is right for all gradients exactly if the rows up to
`bound` are those below the cut. -/
theorem candidateAt_iff {bins : Nat} {x : Table ι ℚ} (regLambda : ℚ)
    (var : String) (bound cut : ℚ) :
    (∀ gh : Frame ι (Grad ℚ), SameIndex x gh →
        UsesOwnSplit regLambda x gh (candidateAt bins x gh var bound cut))
      ↔ ∀ i ∈ x.index.labels,
        bucketOf bins x var i ≤ bound ↔ x.row i var < cut := by
  classical
  constructor
  · -- the gradient of one row says on which side that row is counted
    intro h i hi
    have hg := (h ⟨x.index, fun j => ⟨if j = i then 1 else 0, 0⟩⟩
      fun _ => Iff.rfl).gLeft
    have hcounted := x.index.total_single
      (fun i => decide (bucketOf bins x var i ≤ bound)) hi
    have hsent := x.index.total_single
      (fun i => decide (x.row i var < cut)) hi
    have hsides : (if bucketOf bins x var i ≤ bound then (1 : ℚ) else 0)
        = if x.row i var < cut then 1 else 0 := by
      simp only [decide_eq_true_eq] at hcounted hsent
      exact hcounted.symm.trans (hg.trans hsent)
    by_cases hbound : bucketOf bins x var i ≤ bound <;>
      by_cases hcut : x.row i var < cut <;> simp [hbound, hcut] at hsides ⊢
  · intro h gh hindex
    have hleft : ∀ f : ι → ℚ,
        (x.index.filter fun i => bucketOf bins x var i ≤ bound).total f
          = (splitIds x var cut).idLeft.total f :=
      fun f => Index.total_congr f fun i hi => decide_eq_decide.mpr (h i hi)
    have hright : ∀ f : ι → ℚ, gh.index.total f
        - (x.index.filter fun i => bucketOf bins x var i ≤ bound).total f
          = (splitIds x var cut).idRight.total f := by
      intro f
      rw [hleft]
      exact total_sub_idLeft hindex var cut f
    refine ⟨hleft _, hleft _, hright _, hright _, ?_, ?_⟩
    · show OptimalWeight regLambda _ _ (leafWeight regLambda
        (Index.total _ _) (Index.total _ _))
      rw [hleft, hleft]
      exact leafWeight_optimal _ _ _
    · show OptimalWeight regLambda _ _ (leafWeight regLambda
        (gh.index.total _ - Index.total _ _)
        (gh.index.total _ - Index.total _ _))
      rw [hright, hright]
      exact leafWeight_optimal _ _ _

section Column

variable {order : List ℚ → List ℚ} {bins : Nat} {x : Table ι ℚ}
  {gh : Frame ι (Grad ℚ)} {var : String}

/-- The groups in the order of their buckets. -/
theorem sortGroups_map (keys : List ℚ) :
    sortGroups (keys.map (groupOf bins x gh var))
      = (keys.insertionSort (· ≤ ·)).map (groupOf bins x gh var) := by
  symm
  apply List.map_insertionSort
  intro a _ b _
  exact Iff.rfl

/-- The `i`-th candidate of a column has the `i`-th cut, and the sums up
to the `i`-th smallest bucket. -/
theorem columnCandidates_eq (horder : GroupsOnce order) :
    columnCandidates (plainGhSums gh) var
        ((groupKeys order bins x var).map (groupOf bins x gh var))
      = ((groupKeys order bins x var).zip
          ((groupKeys order bins x var).insertionSort (· ≤ ·))).map
        fun (cut, bound) => candidateAt bins x gh var bound cut := by
  have hnodup : (groupKeys order bins x var).Nodup := (horder _).1
  have hall : ∀ i ∈ x.index.labels,
      bucketOf bins x var i ∈ groupKeys order bins x var :=
    fun i hi => ((horder _).2 _).mpr (List.mem_map_of_mem hi)
  have hcuts : ((groupKeys order bins x var).map (groupOf bins x gh var)).map
      (·.key) = groupKeys order bins x var := by
    rw [List.map_map]
    exact List.map_id _
  unfold columnCandidates
  simp only [hcuts, sortGroups_map, List.map_map]
  rw [show ((·.g) ∘ groupOf bins x gh var) = fun key =>
      (x.index.filter fun i => bucketOf bins x var i = key).total
        fun i => (gh.row i).g from rfl,
    show ((·.h) ∘ groupOf bins x gh var) = fun key =>
      (x.index.filter fun i => bucketOf bins x var i = key).total
        fun i => (gh.row i).h from rfl,
    cumsum_groups _ _ _ hnodup hall, cumsum_groups _ _ _ hnodup hall,
    List.zip_map', List.zip_map_right, List.map_map]
  rfl

/-- A column with fewer values than bins is its own buckets, so no key lies
above its values. -/
theorem not_keysAbove_of_few
    (hfew : (x.index.labels.map fun j => x.row j var).dedup.length < bins)
    {i : ι} (hi : i ∈ x.index.labels) : ¬ KeysAbove bins x var := by
  intro h
  have hown := h.own i hi
  rw [bucketOf, assignBucket, if_pos hfew] at hown
  exact lt_irrefl _ hown

/-- At every place the rows of the sums are those of the split exactly if
the groups ascend and the keys lie above their values. -/
theorem sameRows_iff (horder : GroupsOnce order) :
    (∀ p ∈ (groupKeys order bins x var).zip
        ((groupKeys order bins x var).insertionSort (· ≤ ·)),
      ∀ i ∈ x.index.labels,
        bucketOf bins x var i ≤ p.2 ↔ x.row i var < p.1)
    ↔ (groupKeys order bins x var).Pairwise (· < ·)
      ∧ KeysAbove bins x var := by
  have hnodup : (groupKeys order bins x var).Nodup := (horder _).1
  have hkey : ∀ key, key ∈ groupKeys order bins x var
      ↔ ∃ i ∈ x.index.labels, bucketOf bins x var i = key :=
    fun key => ((horder _).2 key).trans List.mem_map
  generalize groupKeys order bins x var = cuts at *
  have hbounds := pairwise_lt_insertionSort hnodup
  have hlength : (cuts.insertionSort (· ≤ ·)).length = cuts.length :=
    List.length_insertionSort _ _
  constructor
  · intro h
    have hplace : ∀ m (hm : m < cuts.length), ∀ i ∈ x.index.labels,
        bucketOf bins x var i ≤ (cuts.insertionSort (· ≤ ·))[m]
          ↔ x.row i var < cuts[m] := by
      intro m hm
      refine h (cuts[m], _) ?_
      rw [← List.getElem_zip (h := by rw [List.length_zip, hlength]; omega)]
      exact List.getElem_mem _
    have hsorted : cuts.Pairwise (· < ·) := by
      rw [List.pairwise_iff_getElem]
      intro m n hm hn hmn
      -- a row of the later bucket is only in the later sum
      have hlater := List.pairwise_iff_getElem.mp hbounds m n (by omega)
        (by omega) hmn
      obtain ⟨i, hi, hrow⟩ := (hkey _).mp ((List.mem_insertionSort _).mp
        (List.getElem_mem (l := cuts.insertionSort (· ≤ ·)) (n := n)
          (by omega)))
      have hin := (hplace n hn i hi).mp (le_of_eq hrow)
      have hout : ¬ x.row i var < cuts[m] := by
        rw [← hplace m hm i hi, hrow]
        exact not_le.mpr hlater
      exact lt_of_le_of_lt (not_lt.mp hout) hin
    have hsame : cuts.insertionSort (· ≤ ·) = cuts :=
      (hsorted.imp fun h => le_of_lt h).insertionSort_eq
    have hat : ∀ j ∈ x.index.labels, ∀ i ∈ x.index.labels,
        bucketOf bins x var i ≤ bucketOf bins x var j
          ↔ x.row i var < bucketOf bins x var j := by
      intro j hj i hi
      obtain ⟨m, hm, hcut⟩ :=
        List.mem_iff_getElem.mp ((hkey _).mpr ⟨j, hj, rfl⟩)
      have hm' := hplace m hm i hi
      simp only [hsame, hcut] at hm'
      exact hm'
    refine ⟨hsorted, ⟨fun i hi => (hat i hi i hi).mp (le_refl _), ?_⟩⟩
    intro i hi j hj hlt
    exact not_lt.mp (mt (hat j hj i hi).mpr (not_le.mpr hlt))
  · rintro ⟨hsorted, habove⟩ p hp i hi
    have hsame : cuts.insertionSort (· ≤ ·) = cuts :=
      (hsorted.imp fun h => le_of_lt h).insertionSort_eq
    rw [hsame] at hp
    obtain ⟨key, hmem, rfl⟩ : ∃ key ∈ cuts, p = (key, key) := by
      rw [List.zip_eq_zipWith, List.zipWith_self] at hp
      obtain ⟨key, hmem, rfl⟩ := List.mem_map.mp hp
      exact ⟨key, hmem, rfl⟩
    obtain ⟨j, hj, rfl⟩ := (hkey key).mp hmem
    constructor
    · intro hle
      exact lt_of_lt_of_le (habove.own i hi) hle
    · intro hlt
      by_contra hgt
      exact absurd hlt (not_lt.mpr (habove.lower i hi j hj (not_le.mp hgt)))

end Column

/-- For all gradients the candidates of the guest have the statistics of the
splits they make exactly if, in every column, ray's groups ascend and every
value is below the key of its bucket and not below that of a lower one. -/
theorem candidates_own_split_iff {order : List ℚ → List ℚ} {bins : Nat}
    {cols : List String} {x : Table ι ℚ} {regLambda : ℚ}
    (horder : GroupsOnce order) :
    OwnSplits order bins cols regLambda x
      ↔ ∀ var ∈ cols, (groupKeys order bins x var).Pairwise (· < ·)
        ∧ KeysAbove bins x var := by
  have hcandidates : ∀ gh : Frame ι (Grad ℚ),
      (∀ c ∈ ghSumsDecryptedWithRay
          (sumsOfEncryptedGhsWithRay order bins cols x gh) (plainGhSums gh),
        UsesOwnSplit regLambda x gh c)
      ↔ ∀ var ∈ cols, ∀ p ∈ (groupKeys order bins x var).zip
          ((groupKeys order bins x var).insertionSort (· ≤ ·)),
        UsesOwnSplit regLambda x gh (candidateAt bins x gh var p.2 p.1) := by
    intro gh
    simp only [ghSumsDecryptedWithRay, sumsOfEncryptedGhsWithRay,
      List.mem_flatMap, List.forall_mem_map, columnCandidates_eq horder,
      forall_exists_index, and_imp]
    constructor
    · intro h var hvar p hp
      exact h _ var hvar (List.mem_map_of_mem hp)
    · intro h c var hvar hc
      obtain ⟨p, hp, rfl⟩ := List.mem_map.mp hc
      exact h var hvar p hp
  constructor
  · intro h var hvar
    refine (sameRows_iff horder).mp fun p hp => ?_
    refine (candidateAt_iff regLambda var p.2 p.1).mp fun gh hindex => ?_
    exact (hcandidates gh).mp (h gh hindex) var hvar p hp
  · intro h gh hindex
    refine (hcandidates gh).mpr fun var hvar p hp => ?_
    refine (candidateAt_iff regLambda var p.2 p.1).mpr ?_ gh hindex
    exact (sameRows_iff horder).mpr (h var hvar) p hp

/-- Groups in the order of their keys. -/
def sortedGroups (keys : List ℚ) : List ℚ := keys.dedup.insertionSort (· ≤ ·)

theorem sortedGroups_once : GroupsOnce sortedGroups := by
  intro keys
  constructor
  · exact (List.perm_insertionSort (· ≤ ·) _).nodup_iff.mpr
      (List.nodup_dedup keys)
  · intro key
    rw [sortedGroups, List.mem_insertionSort, List.mem_dedup]

/-- Two rows with one column. -/
def twoValues (first second : ℚ) : Table Nat ℚ :=
  ⟨.range 2, fun i _ => if i = 0 then first else second⟩

/-- Their gradients. -/
def twoGrads : Frame Nat (Grad ℚ) :=
  ⟨.range 2, fun i => if i = 0 then ⟨1, 1⟩ else ⟨-1, 1⟩⟩

/-- Four rows in two buckets, each with a key that is rounded up over its
values. -/
def fourValues : Table Nat ℚ :=
  ⟨.range 4, fun i _ => Lib.roundToDouble
    ([16 / 10000, 19 / 10000, 68 / 10000, 69 / 10000].getD i 0)⟩

theorem candidates_own_split_rounded :
    groupKeys sortedGroups 2 fourValues "age"
        = [Lib.roundToDouble (2 / 1000), Lib.roundToDouble (7 / 1000)]
      ∧ OwnSplits sortedGroups 2 ["age"] 1 fourValues := by
  refine ⟨by decide +kernel, (candidates_own_split_iff sortedGroups_once).mpr ?_⟩
  intro var hvar
  obtain rfl := List.mem_singleton.mp hvar
  exact ⟨by decide +kernel, ⟨by decide +kernel, by decide +kernel⟩⟩

/-- The values 1 and 2: the candidate with the cut 1 counts the first row
on the left, and the split sends no row there. -/
theorem candidates_not_own_split :
    ¬ ∀ c ∈ ghSumsDecryptedWithRay
        (sumsOfEncryptedGhsWithRay sortedGroups 2 ["age"]
          (twoValues 1 2) twoGrads) (plainGhSums twoGrads),
      UsesOwnSplit 1 (twoValues 1 2) twoGrads c := by
  intro h
  have hc := (h ⟨1, 1, -1, 1, "age", 1⟩ (by decide +kernel)).gLeft
  revert hc
  decide +kernel

end PrimiHub.FL
