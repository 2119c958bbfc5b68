/-
The shape of the model after the exchange of the output dimensions.

Whatever the labels of the clients, the constructors of all parties
return (`initAll_completes`), and a client ends with a binary model
exactly if its own largest label is one and the dimension is one
(`initTheta_init`). For three classes and more the dimension says how many
there are, and everybody has the model of that shape. For two classes it
is one, which a client that has only seen the label zero takes for the
size of the matrix it has made, and keeps.
-/
import Mathlib.Algebra.Ring.Int.Defs
import Mathlib.Data.Fin.VecNotation
import Mathlib.Data.List.MinMax
import PrimiHub.FL.Logistic

namespace PrimiHub.FL.Logistic

open Lib Horizontal

variable {clients d n : Nat} {R : Type}

/-- `shape`. -/
def NdArray.shape (a : NdArray n R) : List Nat :=
  match a.cols with
  | none => [n]
  | some m => [n, m]

theorem NdArray.shape_eq_iff {a : NdArray n R} {classes : Nat} :
    a.shape = (if classes = 2 then [n] else [n, classes])
      ↔ a.cols = if classes = 2 then none else some classes := by
  obtain ⟨cols, data⟩ := a
  by_cases htwo : classes = 2
  · rw [if_pos htwo, if_pos htwo]
    cases cols with
    | none => exact iff_of_true rfl rfl
    | some m => exact iff_of_false nofun nofun
  · rw [if_neg htwo, if_neg htwo]
    cases cols with
    | none => exact iff_of_false nofun nofun
    | some m =>
        show [n, m] = [n, classes] ↔ some m = some classes
        rw [Option.some.injEq]
        constructor
        · intro h
          exact (List.cons.inj (List.cons.inj h).2).1
        · exact fun h => h ▸ rfl

/-- The theta of a model whose flag tells its shape. -/
theorem Model.getTheta_of_flag {m : Model d R}
    (h : m.multiclass = m.cols.isSome) :
    m.getTheta = .ok ⟨m.cols, Fin.cons m.bias m.weight⟩ := by
  obtain ⟨cols, bias, weight, multiclass⟩ := m
  obtain rfl : multiclass = cols.isSome := h
  cases cols with
  | none => rfl
  | some _ => rfl

/-- A theta is read as it was set if the flag tells its shape. -/
theorem Model.getTheta_setTheta {m : Model d R} {theta : NdArray (d + 1) R}
    (h : m.multiclass = theta.cols.isSome) :
    (m.setTheta theta).getTheta = .ok theta := by
  have hdata : (Fin.cons (theta.data 0) fun j => theta.data j.succ)
      = theta.data := Fin.cons_self_tail theta.data
  rw [Model.getTheta_of_flag h]
  exact congrArg (fun rows => Except.ok (NdArray.mk theta.cols rows)) hdata

/-- For this many classes the flag of the model is right, its theta has the
right shape, and a theta of that shape is read as it was set. -/
def ModelFor (classes : Nat) (m : Model d R) : Prop :=
  m.multiclass = decide (3 ≤ classes)
    ∧ (∃ theta, m.getTheta = .ok theta
      ∧ theta.shape = if classes = 2 then [d + 1] else [d + 1, classes])
    ∧ ∀ theta : NdArray (d + 1) R, theta.shape
          = (if classes = 2 then [d + 1] else [d + 1, classes]) →
        (m.setTheta theta).getTheta = .ok theta

/-- A model whose flag tells its shape is right if the shape is. -/
theorem modelFor_of_flag {classes : Nat} (hclasses : 2 ≤ classes)
    {m : Model d R} (hflag : m.multiclass = m.cols.isSome)
    (hcols : m.cols = if classes = 2 then none else some classes) :
    ModelFor classes m := by
  have hmulti : m.multiclass = decide (3 ≤ classes) := by
    rw [hflag, hcols]
    by_cases htwo : classes = 2
    · rw [if_pos htwo, htwo]
      rfl
    · rw [if_neg htwo]
      exact (decide_eq_true (by omega)).symm
  refine ⟨hmulti, ⟨_, Model.getTheta_of_flag hflag, ?_⟩,
    fun theta htheta => Model.getTheta_setTheta ?_⟩
  · exact NdArray.shape_eq_iff.mpr hcols
  · rw [hflag, hcols, NdArray.shape_eq_iff.mp htheta]

variable [Zero R]

/-- The flag of the server is right, and so are the models of all
clients. -/
def SameShape (parts : Fin clients → List (Example d R)) (classes : Nat) :
    Prop :=
  Completes (initAll parts) fun v =>
    (v .server).multiclass = decide (3 ≤ classes)
      ∧ ∀ i, ModelFor classes (v (.client i)).model

/-- The labels of the clients are those below the number of classes. -/
def LabelsBelow (parts : Fin clients → List (Example d R))
    (classes : Nat) : Prop :=
  ∀ c, (∃ i, ∃ e ∈ parts i, e.y = c) ↔ c < classes

-- ================================================================== clients

/-- The model a client ends with. -/
def shaped (d : Nat) (R : Type) [Zero R] (maxY dim : Nat) : Model d R :=
  if maxY = 1 ∧ dim ≤ 1 then ⟨none, fun _ => 0, fun _ _ => 0, false⟩
  else ⟨some dim, fun _ => 0, fun _ _ => 0, true⟩

/-- The model of the constructor, shaped by a dimension. -/
theorem initTheta_init {data : List (Example d R)} {maxY : Nat}
    (hmax : (data.map Example.y).max? = some maxY) (dim : Nat) :
    ∃ m, Model.init data = .ok m
      ∧ m.initTheta dim = .ok (shaped d R maxY dim) := by
  unfold Model.init shaped
  rw [hmax]
  by_cases hbinary : maxY = 1
  · subst hbinary
    refine ⟨_, if_pos rfl, ?_⟩
    show (if dim > 1 then _ else _) = _
    by_cases hdim : dim ≤ 1
    · rw [if_neg (Nat.not_lt.mpr hdim), if_pos ⟨rfl, hdim⟩]
    · rw [if_pos (Nat.not_le.mp hdim), if_neg fun h => hdim h.2]
      rfl
  · have hmatrix : ¬ (maxY = 1 ∧ dim ≤ 1) := fun h => hbinary h.1
    refine ⟨_, if_neg hbinary, ?_⟩
    show (if dim ≠ maxY + 1 then _ else _) = _
    rw [if_neg hmatrix]
    by_cases hdim : dim = maxY + 1
    · rw [if_neg (not_not.mpr hdim), hdim]
    · rw [if_pos hdim]
      rfl

/-- The exchange, for a client. -/
theorem sendOutputDim_follows {data : List (Example d R)} {maxY dim : Nat}
    (hmax : (data.map Example.y).max? = some maxY) {m m' : Model d R}
    (htheta : m.initTheta dim = .ok m') :
    Follows (sendOutputDim data m : Action clients d R (Model d R))
      [.send .server .outputDim (· = outputDim maxY),
        .recv .server .outputDim (· = dim)] (· = m') := by
  unfold sendOutputDim
  rw [hmax]
  refine .put_bind rfl (.get_bind fun dim' hdim => ?_)
  rw [hdim, htheta]
  exact .ret rfl

/-- A client, told a dimension. -/
theorem initClient_follows {data : List (Example d R)} {maxY : Nat}
    (hmax : (data.map Example.y).max? = some maxY) (dim : Nat) :
    Follows (initClient data : Action clients d R (Client d R))
      [.send .server .outputDim (· = outputDim maxY),
        .recv .server .outputDim (· = dim),
        .send .server .numExamples (· = data.length)]
      (· = ⟨shaped d R maxY dim, data.length⟩) := by
  obtain ⟨m, hinit, htheta⟩ := initTheta_init hmax dim
  unfold initClient
  rw [hinit, Proc.lift_ok, Proc.ret_bind]
  refine (sendOutputDim_follows hmax htheta).bind fun model hmodel => ?_
  rw [hmodel]
  exact .put_bind rfl (.ret rfl)

/-- The server, told the dimensions and the numbers of rows. -/
theorem initServer_follows {R : Type}
    (dims sizes : Horizontal.Party clients → Nat) {dim : Nat} (hmax : ((allClients clients).map dims).max? = some dim) :
    Follows (initServer : Action clients d R Server)
      (([.gather .outputDim (fun p x => x = dims p),
        .scatter .outputDim (· = dim),
        .gather .numExamples (fun p x => x = sizes p)] :
        List (Horizontal.Round clients (Message d R))).flatMap
          Horizontal.Round.ofServer)
      (· = ⟨if dim = 1 then false else true,
        (allClients clients).map sizes⟩) := by
  have hdims : Follows (recvOutputDims : Action clients d R Bool)
      ((Horizontal.Round.gather (μ := Message d R) Tag.outputDim
          fun p x => x = dims p).ofServer
        ++ ((Horizontal.Round.scatter (μ := Message d R) Tag.outputDim
          (· = dim)).ofServer ++ []))
      (· = if dim = 1 then false else true) := by
    unfold recvOutputDims
    refine (recvAll_follows (μ := Message d R) Tag.outputDim dims).bind
      fun ms hms => ?_
    rw [hms, hmax]
    exact sendAll_ret (μ := Message d R) Tag.outputDim dim _
  rw [List.append_nil] at hdims
  rw [List.flatMap_cons, List.flatMap_cons, ← List.append_assoc]
  unfold initServer
  refine hdims.bind fun multiclass hmulticlass => ?_
  rw [hmulticlass]
  refine (recvAll_follows (μ := Message d R) Tag.numExamples sizes).bind
    fun weights hweights => ?_
  rw [hweights]
  exact .ret rfl

-- ================================================================== classes

/-- The result of the constructors, by the largest labels. -/
def initial (parts : Fin clients → List (Example d R))
    (maxY : Fin clients → Nat) (dim : Nat) :
    (p : Horizontal.Party clients) → Initial d R p
  | .server => ⟨if dim = 1 then false else true,
      (List.finRange clients).map fun i => (parts i).length⟩
  | .client i => ⟨shaped d R (maxY i) dim, (parts i).length⟩

/-- All constructors return. -/
theorem initAll_completes {parts : Fin clients → List (Example d R)}
    {maxY : Fin clients → Nat} {dim : Nat}
    (hmax : ∀ i, ((parts i).map Example.y).max? = some (maxY i))
    (hdim : ((List.finRange clients).map
      fun i => outputDim (maxY i)).max? = some dim) :
    Completes (initAll parts) fun v => ∀ p, v p = initial parts maxY dim p := by
  refine completes_of_rounds (μ := Message d R)
    (Q := fun p x => x = initial parts maxY dim p)
    [.gather .outputDim
        (fun p x => x = ofClients 0 (fun i => outputDim (maxY i)) p),
      .scatter .outputDim (· = dim),
      .gather .numExamples
        (fun p x => x = ofClients 0 (fun i => (parts i).length) p)]
    (fun i => initClient_follows (hmax i) dim) ?_
  have hserver := initServer_follows (d := d) (R := R)
    (ofClients 0 fun i => outputDim (maxY i))
    (ofClients 0 fun i => (parts i).length)
    (by rw [map_ofClients]; exact hdim)
  rw [map_ofClients] at hserver
  exact hserver

/-- The dimensions of clients that see these classes between them. -/
theorem max_outputDim {R : Type} {parts : Fin clients → List (Example d R)}
    {maxY : Fin clients → Nat} {classes : Nat} (hclasses : 2 ≤ classes)
    (hmax : ∀ i, ((parts i).map Example.y).max? = some (maxY i))
    (hlabels : LabelsBelow parts classes) :
    ((List.finRange clients).map fun i => outputDim (maxY i)).max?
      = some (if classes = 2 then 1 else classes) := by
  have hbelow : ∀ i, maxY i < classes := by
    intro i
    obtain ⟨e, he, hy⟩ := List.mem_map.mp
      (List.max?_eq_some_iff.mp (hmax i)).1
    exact (hlabels _).mp ⟨i, e, he, hy⟩
  obtain ⟨i, e, he, hy⟩ := (hlabels (classes - 1)).mpr (by omega)
  have htop : maxY i = classes - 1 := by
    have hle := (List.max?_eq_some_iff.mp (hmax i)).2 _
      (List.mem_map_of_mem he)
    have hlt := hbelow i
    rw [hy] at hle
    omega
  rw [List.max?_eq_some_iff]
  constructor
  · refine List.mem_map.mpr ⟨i, List.mem_finRange i, ?_⟩
    unfold outputDim
    rw [htop]
    split_ifs <;> omega
  · intro b hb
    obtain ⟨j, -, rfl⟩ := List.mem_map.mp hb
    have hlt := hbelow j
    unfold outputDim
    split_ifs <;> omega

/-- The model of a client is the right one unless there are two classes and
it has not seen the label one. -/
theorem modelFor_shaped {classes maxY : Nat} (hclasses : 2 ≤ classes) :
    ModelFor classes
        (shaped d R maxY (if classes = 2 then 1 else classes))
      ↔ (classes = 2 → maxY = 1) := by
  unfold shaped
  by_cases htwo : classes = 2
  · rw [if_pos htwo]
    by_cases hone : maxY = 1
    · rw [if_pos ⟨hone, le_rfl⟩]
      exact iff_of_true (modelFor_of_flag hclasses rfl (if_pos htwo).symm)
        fun _ => hone
    · rw [if_neg fun h => hone h.1]
      refine iff_of_false (fun h => ?_) fun h => hone (h htwo)
      have hflag := h.1
      rw [htwo] at hflag
      cases hflag
  · rw [if_neg htwo, if_neg fun h => by omega]
    exact iff_of_true (modelFor_of_flag hclasses rfl (if_neg htwo).symm)
      fun h => absurd h htwo

/-- The same by the largest labels of the clients. -/
theorem sameShape_iff_max {parts : Fin clients → List (Example d R)}
    {maxY : Fin clients → Nat} {classes : Nat} (hclasses : 2 ≤ classes)
    (hmax : ∀ i, ((parts i).map Example.y).max? = some (maxY i))
    (hlabels : LabelsBelow parts classes) :
    SameShape parts classes ↔ (classes = 2 → ∀ i, maxY i = 1) := by
  have hdim := max_outputDim hclasses hmax hlabels
  refine (initAll_completes hmax hdim).iff_of_eq.trans ?_
  have hserver : (if (if classes = 2 then 1 else classes) = 1 then false
      else true) = decide (3 ≤ classes) := by
    by_cases htwo : classes = 2
    · rw [if_pos htwo, htwo]
      rfl
    · rw [if_neg htwo, if_neg (by omega)]
      exact (decide_eq_true (by omega)).symm
  constructor
  · intro h htwo i
    exact (modelFor_shaped hclasses).mp (h.2 i) htwo
  · intro h
    exact ⟨hserver, fun i =>
      (modelFor_shaped hclasses).mpr fun htwo => h htwo i⟩

/-- Of two classes a client must have seen the second one; of more it may
see any. -/
theorem sameShape_iff {parts : Fin clients → List (Example d R)}
    {classes : Nat} (hclasses : 2 ≤ classes) (hrows : ∀ i, parts i ≠ [])
    (hlabels : LabelsBelow parts classes) :
    SameShape parts classes
      ↔ (classes = 2 → ∀ i, ∃ e ∈ parts i, e.y = 1) := by
  have hexists : ∀ i, ∃ maxY, ((parts i).map Example.y).max? = some maxY := by
    intro i
    refine Option.ne_none_iff_exists'.mp fun hnone => hrows i ?_
    exact List.map_eq_nil_iff.mp (List.max?_eq_none_iff.mp hnone)
  obtain ⟨maxY, hmax⟩ := Classical.axiomOfChoice hexists
  rw [sameShape_iff_max hclasses hmax hlabels]
  refine forall_congr' fun htwo => forall_congr' fun i => ?_
  obtain ⟨hmem, hle⟩ := List.max?_eq_some_iff.mp (hmax i)
  obtain ⟨e, he, hy⟩ := List.mem_map.mp hmem
  constructor
  · exact fun h => ⟨e, he, hy.trans h⟩
  · intro h
    obtain ⟨e', he', hy'⟩ := h
    have hone := hle _ (List.mem_map_of_mem he')
    have htop := (hlabels e.y).mp ⟨i, e, he, rfl⟩
    omega

/-- Two clients, one of which sees both labels. -/
def seenBy (labels : List Nat) : Fin 2 → List (Example 1 Int)
  | 0 => labels.map fun y => ⟨fun _ => 0, y⟩
  | 1 => [⟨fun _ => 0, 0⟩, ⟨fun _ => 0, 1⟩]

theorem labelsBelow_seenBy {labels : List Nat} (h : ∀ y ∈ labels, y < 2) :
    LabelsBelow (seenBy labels) 2 := by
  intro c
  constructor
  · intro hc
    obtain ⟨i, e, he, rfl⟩ := hc
    match i with
    | 0 =>
        obtain ⟨y, hy, rfl⟩ := List.mem_map.mp he
        exact h y hy
    | 1 =>
        obtain rfl | he := List.mem_cons.mp he
        · exact Nat.zero_lt_two
        · obtain rfl := List.mem_singleton.mp he
          exact Nat.one_lt_two
  · intro hc
    obtain rfl | rfl : c = 0 ∨ c = 1 := by omega
    · exact ⟨1, _, List.mem_cons_self, rfl⟩
    · exact ⟨1, _, List.mem_cons_of_mem _ List.mem_cons_self, rfl⟩

theorem sameShape_both : SameShape (seenBy [0, 1]) 2 :=
  (sameShape_iff le_rfl (by decide)
    (labelsBelow_seenBy (by decide))).mpr fun _ => by decide

/-- A client that has only seen the label zero. -/
theorem not_sameShape_zero : ¬ SameShape (seenBy [0]) 2 := by
  have hmax : ∀ i, ((seenBy [0] i).map Example.y).max? = some (![0, 1] i) := by
    decide
  intro h
  have hone := (sameShape_iff_max le_rfl hmax
    (labelsBelow_seenBy (by decide))).mp h rfl 0
  cases hone

end PrimiHub.FL.Logistic
