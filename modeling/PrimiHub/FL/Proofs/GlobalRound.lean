/-
A global round of horizontal logistic regression, against one step on the
pooled rows.

The local gradients are means over the rows of a client. The weighted
average of the plaintext server turns them into the mean over all rows
(`weighted_average`), whatever the sizes of the clients are. The server of
the Paillier method takes the plain mean: decrypted, a client's step is
the step on plain numbers (`Encrypts.step`), and their mean
is the step on the pooled rows for all rows exactly if all clients have
equally many (`paillierRound_iff`).
-/
import Mathlib.Algebra.BigOperators.Field
import Mathlib.Algebra.BigOperators.Fin
import Mathlib.Algebra.Field.Rat
import Mathlib.Algebra.Order.Ring.Rat
import Mathlib.Tactic.FieldSimp
import Mathlib.Tactic.LinearCombination
import Mathlib.Tactic.Ring
import PrimiHub.FL.Proofs.OutputDim

namespace PrimiHub.FL.Logistic

open Lib Horizontal

attribute [local instance] neZero_succ atLeastTwo_two atLeastTwo_four

variable {clients d n : Nat} {K C R : Type}

/-- The rows of all clients. -/
def pooled (parts : Fin clients → List (Example d K)) :
    List (Example d K) :=
  (List.finRange clients).flatMap parts

/-- A model of other numbers. -/
def Model.map (f : C → R) (m : Model d C) : Model d R :=
  ⟨m.cols, fun k => f (m.bias k), fun j k => f (m.weight j k), m.multiclass⟩

-- =================================================================== rounds

/-- What the parties return, by the local models and the server's theta. -/
def trained (models : Fin clients → Model d R)
    (theta : NdArray (d + 1) R) :
    (p : Horizontal.Party clients) → Trained d R p
  | .server => theta
  | .client i => (models i).setTheta theta

/-- A round in which every client can make its step. -/
theorem globalRound_completes
    {fit : List (Example d K) → Model d R → Except Raised (Model d R)}
    {aggregate : List (NdArray (d + 1) R) → List Nat →
      Except Raised (NdArray (d + 1) R)}
    {parts : Fin clients → List (Example d K)}
    {models fitted : Fin clients → Model d R}
    {theta : NdArray (d + 1) R}
    (hfit : ∀ i, fit (parts i) (models i) = .ok (fitted i))
    (hflag : ∀ i, (fitted i).multiclass = (fitted i).cols.isSome)
    (haggregate : aggregate
        ((List.finRange clients).map fun i =>
          ⟨(fitted i).cols, Fin.cons (fitted i).bias (fitted i).weight⟩)
        ((List.finRange clients).map fun i => (parts i).length)
      = .ok theta) :
    Completes (globalRound fit aggregate parts models)
      fun v => ∀ p, v p = trained fitted theta p := by
  refine completes_of_rounds (μ := Message d R)
    (Q := fun p x => x = trained fitted theta p)
    [.gather .numExamples
        (fun p x => x = ofClients 0 (fun i => (parts i).length) p),
      .gather .clientModel
        (fun p x => x = ofClients theta (fun i =>
          ⟨(fitted i).cols, Fin.cons (fitted i).bias (fitted i).weight⟩) p),
      .scatter .serverModel (· = theta)] (fun i => ?_) ?_
  · show Follows (clientRound fit (parts i) (models i)) _ _
    unfold clientRound
    refine .put_bind rfl ?_
    rw [hfit i, Proc.lift_ok, Proc.ret_bind,
      Model.getTheta_of_flag (hflag i), Proc.lift_ok, Proc.ret_bind]
    refine .put_bind rfl (.get_bind fun theta' htheta => ?_)
    rw [htheta]
    exact .ret rfl
  · show Follows (serverRound aggregate) _ _
    unfold serverRound
    refine (recvAll_follows (μ := Message d R) Tag.numExamples _).bind
      fun weights hweights => ?_
    refine (recvAll_follows (μ := Message d R) Tag.clientModel _).bind
      fun thetas hthetas => ?_
    rw [hweights, hthetas, map_ofClients, map_ofClients, haggregate,
      Proc.lift_ok, Proc.ret_bind]
    exact sendAll_ret (μ := Message d R) Tag.serverModel theta _

theorem NdArray.as_mk (cols : Option Nat) (a : Fin n → Cell cols → R) :
    (NdArray.mk cols a).as cols = some a :=
  dif_pos rfl

/-- Arrays of one shape. -/
theorem stack_map {ι : Type} (cols : Option Nat)
    (a : ι → Fin n → Cell cols → R) (is : List ι) :
    stack cols (is.map fun i => NdArray.mk cols (a i))
      = .ok (is.map a) := by
  induction is with
  | nil => rfl
  | cons i is ih =>
      rw [List.map_cons, stack, NdArray.as_mk, ih]
      rfl

-- ================================================================= averages

section Averages

variable [Field K]

/-- The weighted average of steps along means is the step along the mean
of everything. -/
theorem weighted_average {size : Fin clients → K} (hsize : ∀ i, size i ≠ 0)
    (htotal : ∑ i, size i ≠ 0) (total : Fin clients → K)
    (start rate rest : K) :
    (∑ i, size i * (start - rate * (total i / size i + rest)))
        / ∑ i, size i
      = start - rate * ((∑ i, total i) / (∑ i, size i) + rest) := by
  have hlocal : ∀ i, size i * (start - rate * (total i / size i + rest))
      = size i * (start - rate * rest) - rate * total i := by
    intro i
    have hi := hsize i
    field_simp
    ring
  rw [Finset.sum_congr rfl fun i _ => hlocal i, Finset.sum_sub_distrib,
    ← Finset.sum_mul, ← Finset.mul_sum]
  field_simp
  ring

/-- A sum over the pooled rows. -/
theorem sum_pooled (parts : Fin clients → List (Example d K))
    (f : Example d K → K) :
    ((pooled parts).map f).sum = ∑ i, ((parts i).map f).sum := by
  rw [pooled, List.map_flatMap, List.flatMap_def, List.sum_flatten,
    List.map_map, Fin.sum_univ_def]
  rfl

theorem length_pooled (parts : Fin clients → List (Example d K)) :
    (((pooled parts).length : Nat) : K)
      = ∑ i, (((parts i).length : Nat) : K) := by
  rw [pooled, List.length_flatMap, ← Nat.cast_sum, Fin.sum_univ_def]

/-- The theta of the plaintext server. -/
theorem aggregate_map (cols : Option Nat) (hclients : 0 < clients)
    (a : Fin clients → Fin n → Cell cols → K) {size : Fin clients → Nat}
    (htotal : ∑ i, size i ≠ 0) :
    aggregate ((List.finRange clients).map fun i => NdArray.mk cols (a i))
        ((List.finRange clients).map size)
      = .ok ⟨cols, fun j k => (∑ i, (size i : K) * a i j k)
        / ((∑ i, size i : Nat) : K)⟩ := by
  have hsum : ((List.finRange clients).map size).sum = ∑ i, size i :=
    (Fin.sum_univ_def size).symm
  have hvalue : ∀ j k, (List.zipWith (fun (w : Nat) b => (w : K) * b j k)
        ((List.finRange clients).map size)
        ((List.finRange clients).map a)).sum
      = ∑ i, (size i : K) * a i j k := by
    intro j k
    rw [List.zipWith_map, List.zipWith_self, Fin.sum_univ_def]
  have hcons : List.finRange clients ≠ [] :=
    List.ne_nil_of_mem (List.mem_finRange ⟨0, hclients⟩)
  obtain ⟨i, is, his⟩ := List.exists_cons_of_ne_nil hcons
  rw [his] at hsum hvalue ⊢
  show (stack cols ((i :: is).map fun i => NdArray.mk cols (a i))
    >>= _) = _
  rw [stack_map]
  show (if ((i :: is).map size).sum = 0 then _ else _) = _
  rw [hsum, if_neg htotal]
  simp only [hvalue]

theorem Model.gradientDescent_bias (s : Settings K) (error : ErrorOf d K)
    (data : List (Example d K)) (m : Model d K) (k : Cell m.cols) :
    (m.gradientDescent s error data).bias k
      = m.bias k - s.learningRate
        * ((data.map fun e => error m e k).sum / (data.length : Nat)) := rfl

theorem Model.gradientDescent_weight (s : Settings K) (error : ErrorOf d K)
    (data : List (Example d K)) (m : Model d K) (j : Fin d)
    (k : Cell m.cols) :
    (m.gradientDescent s error data).weight j k
      = m.weight j k - s.learningRate
        * ((data.map fun e => e.x j * error m e k).sum
            / (data.length : Nat)
          + s.alpha * m.weight j k) := rfl

end Averages

-- =============================================================== plaintext

section Plaintext

variable [Field K]

/-- Whatever the errors of the examples are, a round of the Plaintext
method leaves every client with one step on the pooled rows. -/
def PlaintextCentral (parts : Fin clients → List (Example d K)) : Prop :=
  ∀ (s : Settings K) (error : ErrorOf d K) (start : Model d K),
    start.multiclass = start.cols.isSome →
    Completes (plaintextRound s error parts fun _ => start) fun v =>
      ∀ i, v (.client i) = start.gradientDescent s error (pooled parts)

variable [CharZero K]

theorem plaintextCentral (hclients : 0 < clients)
    {parts : Fin clients → List (Example d K)} (hrows : ∀ i, parts i ≠ []) :
    PlaintextCentral parts := by
  intro s error start hflag
  have hsize : ∀ i, (((parts i).length : Nat) : K) ≠ 0 := fun i =>
    Nat.cast_ne_zero.mpr (mt List.length_eq_zero_iff.mp (hrows i))
  have htotal : ∑ i, (parts i).length ≠ 0 := by
    refine mt Finset.sum_eq_zero_iff.mp fun h => ?_
    exact hrows ⟨0, hclients⟩
      (List.length_eq_zero_iff.mp (h _ (Finset.mem_univ _)))
  have htotal' : ∑ i, (((parts i).length : Nat) : K) ≠ 0 := by
    rw [← Nat.cast_sum]
    exact Nat.cast_ne_zero.mpr htotal
  -- the average of the local steps, entry by entry
  have hbias : ∀ k : Cell start.cols, (∑ i, (((parts i).length : Nat) : K)
        * (start.gradientDescent s error (parts i)).bias k)
        / ((∑ i, (parts i).length : Nat) : K)
      = (start.gradientDescent s error (pooled parts)).bias k := by
    intro k
    have h := weighted_average hsize htotal'
      (fun i => ((parts i).map fun e => error start e k).sum)
      (start.bias k) s.learningRate 0
    simp only [add_zero] at h
    rw [Nat.cast_sum, Model.gradientDescent_bias, length_pooled, sum_pooled]
    exact h
  have hweight : ∀ j (k : Cell start.cols), (∑ i, (((parts i).length : Nat) : K)
        * (start.gradientDescent s error (parts i)).weight j k)
        / ((∑ i, (parts i).length : Nat) : K)
      = (start.gradientDescent s error (pooled parts)).weight j k := by
    intro j k
    have h := weighted_average hsize htotal'
      (fun i => ((parts i).map fun e => e.x j * error start e k).sum)
      (start.weight j k) s.learningRate (s.alpha * start.weight j k)
    rw [Nat.cast_sum, Model.gradientDescent_weight, length_pooled,
      sum_pooled]
    exact h
  have haggregate := aggregate_map start.cols hclients
    (fun i => Fin.cons (start.gradientDescent s error (parts i)).bias
      (start.gradientDescent s error (parts i)).weight) htotal
  have hround : Completes (plaintextRound s error parts fun _ => start)
      fun v => ∀ p, v p
        = trained (fun i => start.gradientDescent s error (parts i)) _ p :=
    globalRound_completes (fun i => rfl) (fun i => hflag) haggregate
  refine hround.mono fun v hv i => ?_
  rw [hv]
  exact congrArg₂ (fun b w => Model.mk start.cols b w start.multiclass)
    (funext hbias) (funext fun j => funext (hweight j))

end Plaintext

-- ================================================================ Paillier

section Paillier

variable [Field K]

theorem Scheme.dec_sum (S : Scheme K C) (vs : List C) :
    S.dec (S.sum vs) = (vs.map S.dec).sum := by
  induction vs with
  | nil => exact S.dec_enc 0
  | cons v vs ih =>
      rw [List.map_cons, List.sum_cons, ← ih]
      exact S.dec_add v _

/-- The error of an example, in plain numbers. -/
def plainError (m : Model d K) (e : Example d K) (k : Cell m.cols) : K :=
  -(4 * (e.y : K))
    + (2 + ((List.finRange d).map fun j => e.x j * m.weight j k).sum
      + m.bias k)

/-- The step of the Paillier method, in plain numbers. -/
def plainStep (s : Settings K) (data : List (Example d K)) (m : Model d K) :
    Model d K :=
  { m with
    bias := fun k => m.bias k + -s.learningRate / (data.length : Nat)
      * (data.map fun e => plainError m e k).sum
    weight := fun j k => m.weight j k + (-s.learningRate / (data.length : Nat)
      * (data.map fun e => e.x j * plainError m e k).sum
        + -s.learningRate * s.alpha * m.weight j k) }

/-- Ciphertexts of a model. -/
structure Encrypts (S : Scheme K C) (start : Model d K)
    (bias : Cell start.cols → C) (weight : Fin d → Cell start.cols → C) :
    Prop where
  bias : ∀ k, S.dec (bias k) = start.bias k
  weight : ∀ j k, S.dec (weight j k) = start.weight j k

variable {S : Scheme K C} {start : Model d K} {bias : Cell start.cols → C}
  {weight : Fin d → Cell start.cols → C}

theorem Encrypts.error (h : Encrypts S start bias weight) (flag : Bool)
    (e : Example d K) (k : Cell start.cols) :
    S.dec (S.error ⟨start.cols, bias, weight, flag⟩ e k)
      = plainError start e k := by
  unfold Scheme.error plainError
  rw [S.dec_shift, S.dec_add, S.dec_shift, S.dec_sum, h.bias, List.map_map]
  have hterm : ∀ j, S.dec (S.scale (e.x j) (weight j k))
      = e.x j * start.weight j k := by
    intro j
    rw [S.dec_scale, h.weight]
  simp only [Function.comp_def, hterm]

/-- A step on ciphertexts is one on what they encrypt. -/
theorem Encrypts.step (h : Encrypts S start bias weight) (s : Settings K)
    (data : List (Example d K)) :
    ∃ bias' weight',
      (⟨start.cols, bias, weight, false⟩ :
        Model d C).gradientDescentPaillier S s data
        = .ok ⟨start.cols, bias', weight', false⟩
      ∧ Encrypts S (plainStep s data start) bias' weight' := by
  have herror : ∀ k, (S.dec ∘ fun e =>
      S.error ⟨start.cols, bias, weight, false⟩ e k)
        = fun e => plainError start e k :=
    fun k => funext fun e => h.error false e k
  refine ⟨_, _, rfl, fun (k : Cell start.cols) => ?_,
    fun j (k : Cell start.cols) => ?_⟩
  · show S.dec (S.add (bias k) _) = start.bias k + _
    rw [S.dec_add, S.dec_scale, S.dec_sum, List.map_map, h.bias, herror]
  · have hterm : (S.dec ∘ fun e => S.scale
        (-s.learningRate / (data.length : Nat) * e.x j)
        (S.error ⟨start.cols, bias, weight, false⟩ e k))
        = fun e => -s.learningRate / (data.length : Nat)
          * (e.x j * plainError start e k) := by
      funext e
      rw [Function.comp_apply, S.dec_scale, h.error, mul_assoc]
    show S.dec (S.add (weight j k) (S.add _ (S.scale _ (weight j k))))
      = start.weight j k + _
    rw [S.dec_add, S.dec_add, S.dec_scale, S.dec_sum, List.map_map,
      h.weight, hterm, List.sum_map_mul_left]

/-- The theta of the Paillier server. -/
theorem aggregatePaillier_map (S : Scheme K C) (cols : Option Nat)
    (hclients : 0 < clients) (a : Fin clients → Fin n → Cell cols → C)
    (weights : List Nat) :
    aggregatePaillier S
        ((List.finRange clients).map fun i => NdArray.mk cols (a i)) weights
      = .ok ⟨cols, fun j k => S.enc (S.dec (S.scale (1 / (clients : K))
        (S.sum ((List.finRange clients).map fun i => a i j k))))⟩ := by
  have hlength : (List.finRange clients).length = clients :=
    List.length_finRange
  have hcons : List.finRange clients ≠ [] :=
    List.ne_nil_of_mem (List.mem_finRange ⟨0, hclients⟩)
  obtain ⟨i, is, his⟩ := List.exists_cons_of_ne_nil hcons
  rw [his] at hlength ⊢
  show (stack cols ((i :: is).map fun i => NdArray.mk cols (a i))
    >>= _) = _
  rw [stack_map]
  show Except.ok (NdArray.mk cols fun j k => S.enc (S.dec (S.scale
    (1 / (((i :: is).map a).length : Nat))
    (S.sum (((i :: is).map a).map fun a => a j k))))) = _
  rw [List.length_map, hlength]
  simp only [List.map_map, Function.comp_def]

/-- A round of the Paillier method leaves every client with an encryption
of the mean of the clients' steps. -/
theorem paillierRound_completes (hclients : 0 < clients)
    (parts : Fin clients → List (Example d K)) (s : Settings K)
    {bias : Fin clients → Cell start.cols → C}
    {weight : Fin clients → Fin d → Cell start.cols → C}
    (hcols : start.cols = none)
    (h : ∀ i, Encrypts S start (bias i) (weight i)) :
    Completes (paillierRound S s parts fun i =>
        ⟨start.cols, bias i, weight i, false⟩)
      fun v => ∀ i, (v (.client i)).map S.dec
        = ⟨start.cols,
          fun k => 1 / (clients : K)
            * ∑ i, (plainStep s (parts i) start).bias k,
          fun j k => 1 / (clients : K)
            * ∑ i, (plainStep s (parts i) start).weight j k, false⟩ := by
  have hflag : false = start.cols.isSome := by
    rw [hcols]
    rfl
  choose bias' weight' hstep hlocal using fun i => (h i).step s (parts i)
  have hround : Completes (paillierRound S s parts fun i =>
        ⟨start.cols, bias i, weight i, false⟩)
      fun v => ∀ p, v p = trained
        (fun i => ⟨start.cols, bias' i, weight' i, false⟩) _ p :=
    globalRound_completes hstep (fun _ => hflag)
      (aggregatePaillier_map S start.cols hclients
        (fun i => Fin.cons (bias' i) (weight' i)) _)
  have hmean : ∀ f : Fin clients → C,
      S.dec (S.enc (S.dec (S.scale (1 / (clients : K))
        (S.sum ((List.finRange clients).map f)))))
        = 1 / (clients : K) * ∑ i, S.dec (f i) := by
    intro f
    rw [S.dec_enc, S.dec_scale, S.dec_sum, List.map_map, Fin.sum_univ_def]
    rfl
  refine hround.mono fun v hv i => ?_
  rw [hv]
  refine congrArg₂ (fun b w => Model.mk start.cols b w false)
    (funext fun (k : Cell start.cols) => (hmean fun i => bias' i k).trans ?_)
    (funext fun j => funext fun (k : Cell start.cols) =>
      (hmean fun i => weight' i j k).trans ?_)
  · exact congrArg (1 / (clients : K) * ·)
      (Finset.sum_congr rfl fun i _ => (hlocal i).bias k)
  · exact congrArg (1 / (clients : K) * ·)
      (Finset.sum_congr rfl fun i _ => (hlocal i).weight j k)

/-- A round of the Paillier method leaves every client with an encryption
of one step on the pooled rows. -/
def PaillierCentral (S : Scheme K C) (parts : Fin clients → List (Example d K)) :
    Prop :=
  ∀ (s : Settings K) (start : Model d K)
    (bias : Fin clients → Cell start.cols → C)
    (weight : Fin clients → Fin d → Cell start.cols → C),
    start.cols = none → start.multiclass = false →
    (∀ i, Encrypts S start (bias i) (weight i)) →
    Completes (paillierRound S s parts fun i =>
        ⟨start.cols, bias i, weight i, false⟩)
      fun v => ∀ i, start.gradientDescentPaillier (.plain K) s (pooled parts)
        = .ok ((v (.client i)).map S.dec)

theorem gradientDescentPaillier_plain (s : Settings K)
    (data : List (Example d K)) {m : Model d K} (hflag : m.multiclass = false) :
    m.gradientDescentPaillier (.plain K) s data = .ok (plainStep s data m) := by
  have hself : Encrypts (.plain K) m m.bias m.weight :=
    ⟨fun _ => rfl, fun _ _ => rfl⟩
  obtain ⟨bias', weight', hstep, hlocal⟩ := hself.step s data
  have hbias : bias' = (plainStep s data m).bias := funext hlocal.bias
  have hweight : weight' = (plainStep s data m).weight :=
    funext fun j => funext (hlocal.weight j)
  have hmodel : m = ⟨m.cols, m.bias, m.weight, false⟩ := by
    rw [← hflag]
  rw [← hmodel] at hstep
  rw [hstep, hbias, hweight]
  show Except.ok (Model.mk m.cols _ _ false)
    = Except.ok (Model.mk m.cols _ _ m.multiclass)
  rw [hflag]
  rfl

/-- The mean of steps with sums over equally many rows. -/
theorem mean_step {size : K} (hclients : (clients : K) ≠ 0)
    (hsize : size ≠ 0) (start rate rest : K) (total : Fin clients → K) :
    1 / (clients : K) * ∑ i, (start + (rate / size * total i + rest))
      = start + (rate / (clients * size) * ∑ i, total i + rest) := by
  rw [Finset.sum_add_distrib, Finset.sum_add_distrib, ← Finset.mul_sum,
    Finset.sum_const, Finset.sum_const, Finset.card_univ, Fintype.card_fin,
    nsmul_eq_mul, nsmul_eq_mul]
  field_simp

/-- Rows without features; one client has the label one, the others have
zero. -/
def oneLabel (K : Type) [Field K] (d : Nat) (size : Fin clients → Nat)
    (i₀ : Fin clients) (i : Fin clients) : List (Example d K) :=
  List.replicate (size i) ⟨fun _ => 0, if i = i₀ then 1 else 0⟩

/-- A binary model before training. -/
def zeroModel (K : Type) [Field K] (d : Nat) : Model d K :=
  ⟨none, fun _ => 0, fun _ _ => 0, false⟩

theorem plainError_zeroModel (e : Example d K) (k : Unit) :
    plainError (zeroModel K d) e k = 2 - 4 * (e.y : K) := by
  unfold plainError zeroModel
  simp only [mul_zero, List.map_const', List.sum_replicate, smul_zero,
    add_zero]
  ring

/-- The sum of the errors of a client. -/
theorem sum_plainError_oneLabel (size : Fin clients → Nat)
    (i₀ i : Fin clients) (k : Unit) :
    ((oneLabel K d size i₀ i).map fun e =>
        plainError (zeroModel K d) e k).sum
      = 2 * (size i : K) - if i = i₀ then 4 * (size i : K) else 0 := by
  simp only [plainError_zeroModel, oneLabel, List.map_replicate,
    List.sum_replicate, nsmul_eq_mul]
  split_ifs
  · push_cast
    ring
  · push_cast
    ring

variable [CharZero K]

theorem paillierCentral (S : Scheme K C) (hclients : 0 < clients)
    {parts : Fin clients → List (Example d K)} {size : Nat}
    (hsize : 0 < size) (hlength : ∀ i, (parts i).length = size) :
    PaillierCentral S parts := by
  intro s start bias weight hcols hflag h
  have hclients' : (clients : K) ≠ 0 := Nat.cast_ne_zero.mpr hclients.ne'
  have hsize' : (size : K) ≠ 0 := Nat.cast_ne_zero.mpr hsize.ne'
  have htotal : (((pooled parts).length : Nat) : K) = clients * size := by
    rw [length_pooled, Finset.sum_congr rfl fun i _ => by rw [hlength i],
      Finset.sum_const, Finset.card_univ, Fintype.card_fin, nsmul_eq_mul]
  refine (paillierRound_completes hclients parts s hcols h).mono
    fun v hv i => ?_
  rw [gradientDescentPaillier_plain s _ hflag, hv]
  have hbias : ∀ k, (plainStep s (pooled parts) start).bias k
      = 1 / (clients : K) * ∑ i, (plainStep s (parts i) start).bias k := by
    intro k
    have hmean := mean_step hclients' hsize' (start.bias k) (-s.learningRate)
      0 fun i => ((parts i).map fun e => plainError start e k).sum
    unfold plainStep
    simp only [add_zero] at hmean
    simp only [hlength, htotal, sum_pooled, hmean]
  have hweight : ∀ j k, (plainStep s (pooled parts) start).weight j k
      = 1 / (clients : K)
        * ∑ i, (plainStep s (parts i) start).weight j k := by
    intro j k
    have hmean := mean_step hclients' hsize' (start.weight j k)
      (-s.learningRate) (-s.learningRate * s.alpha * start.weight j k)
      fun i => ((parts i).map fun e => e.x j * plainError start e k).sum
    unfold plainStep
    simp only [hlength, htotal, sum_pooled, hmean]
  refine congrArg Except.ok ?_
  show Model.mk start.cols _ _ start.multiclass = _
  rw [hflag]
  exact congrArg₂ (fun b w => Model.mk start.cols b w false) (funext hbias)
    (funext fun j => funext (hweight j))

/-- Where the method is central for all rows of these numbers, the clients
have equally many. -/
theorem size_of_paillierCentral (S : Scheme K C) (hclients : 0 < clients)
    {size : Fin clients → Nat} (hsize : ∀ i, 0 < size i) (i₀ : Fin clients)
    (h : PaillierCentral S (oneLabel K d size i₀)) :
    clients * size i₀ = ∑ i, size i := by
  have hencrypts : ∀ i : Fin clients, Encrypts S (zeroModel K d)
      (fun _ => S.enc 0) fun _ _ => S.enc 0 :=
    fun _ => ⟨fun _ => S.dec_enc 0, fun _ _ => S.dec_enc 0⟩
  have hcentral := h ⟨1, 0⟩ (zeroModel K d) _ _ rfl rfl hencrypts
  have hmean := paillierRound_completes hclients (oneLabel K d size i₀)
    ⟨1, 0⟩ rfl hencrypts
  obtain ⟨v, hv, hv'⟩ := hcentral.results_eq hmean
  have hbias : (plainStep ⟨1, 0⟩ (pooled (oneLabel K d size i₀))
        (zeroModel K d)).bias ()
      = 1 / (clients : K) * ∑ i, (plainStep ⟨1, 0⟩
        (oneLabel K d size i₀ i) (zeroModel K d)).bias () := by
    have hstep := hv i₀
    rw [gradientDescentPaillier_plain _ _ rfl] at hstep
    have heq := (Except.ok.inj hstep).trans (hv' i₀)
    injection heq with _ hb _ _
    exact congrFun hb ()
  have hlength : ∀ i, (oneLabel K d size i₀ i).length = size i :=
    fun i => List.length_replicate
  have hsize' : ∀ i, (size i : K) ≠ 0 := fun i =>
    Nat.cast_ne_zero.mpr (hsize i).ne'
  have hclients' : (clients : K) ≠ 0 := Nat.cast_ne_zero.mpr hclients.ne'
  have htotal : ∑ i, (size i : K) ≠ 0 := by
    rw [← Nat.cast_sum]
    refine Nat.cast_ne_zero.mpr fun hzero => ?_
    exact (hsize i₀).ne' (Finset.sum_eq_zero_iff.mp hzero i₀
      (Finset.mem_univ i₀))
  -- what the local steps do to the bias
  have hlocal : ∀ i, (plainStep ⟨1, 0⟩ (oneLabel K d size i₀ i)
        (zeroModel K d)).bias ()
      = -2 + if i = i₀ then 4 else 0 := by
    intro i
    have hi := hsize' i
    show (0 : K) + -1 / (((oneLabel K d size i₀ i).length : Nat) : K)
      * _ = _
    rw [sum_plainError_oneLabel, hlength]
    split_ifs
    · field_simp
      ring
    · field_simp
      ring
  have hpooled : (plainStep ⟨1, 0⟩ (pooled (oneLabel K d size i₀))
        (zeroModel K d)).bias ()
      = -2 + 4 * (size i₀ : K) / ∑ i, (size i : K) := by
    show (0 : K) + -1 / (((pooled (oneLabel K d size i₀)).length : Nat) : K)
      * _ = _
    rw [length_pooled, sum_pooled,
      Finset.sum_congr rfl fun i _ => sum_plainError_oneLabel size i₀ i (),
      Finset.sum_congr rfl fun i _ => congrArg (Nat.cast (R := K))
        (hlength i), Finset.sum_sub_distrib, ← Finset.mul_sum,
      Finset.sum_ite_eq' Finset.univ i₀, if_pos (Finset.mem_univ i₀)]
    field_simp
    ring
  rw [hpooled, Finset.sum_congr rfl fun i _ => hlocal i,
    Finset.sum_add_distrib, Finset.sum_const, Finset.card_univ,
    Fintype.card_fin, nsmul_eq_mul, Finset.sum_ite_eq' Finset.univ i₀,
    if_pos (Finset.mem_univ i₀)] at hbias
  have hproduct : (clients : K) * size i₀ = ∑ i, (size i : K) := by
    have hfour : ((4 : Nat) : K) ≠ 0 := Nat.cast_ne_zero.mpr (by decide)
    rw [Nat.cast_ofNat] at hfour
    field_simp at hbias
    apply mul_left_cancel₀ hfour
    linear_combination hbias
  exact_mod_cast hproduct

end Paillier

-- ============================================================== all sizes

section Sizes

variable [Field K]

/-- Without clients the server has nothing to average. -/
theorem not_plaintextCentral_zero (parts : Fin 0 → List (Example d K)) :
    ¬ PlaintextCentral parts := by
  intro h
  refine not_completes_of_raise (i := .server) (e := .zeroDivision) rfl
    (h ⟨1, 0⟩ (fun _ _ _ => 0) (zeroModel K d) rfl)

theorem not_paillierCentral_zero (S : Scheme K C)
    (parts : Fin 0 → List (Example d K)) : ¬ PaillierCentral S parts := by
  intro h
  refine not_completes_of_raise (i := .server) (e := .valueError) rfl
    (h ⟨1, 0⟩ (zeroModel K d) (fun i => i.elim0) (fun i => i.elim0) rfl rfl
      fun i => i.elim0)

/-- A method's round is a step on the pooled rows, for all rows of these
numbers. -/
def RoundCentral (Central : (Fin clients → List (Example d K)) → Prop)
    (size : Fin clients → Nat) : Prop :=
  ∀ parts : Fin clients → List (Example d K),
    (∀ i, (parts i).length = size i) → Central parts

variable [CharZero K]

/-- The Plaintext method only needs a client. -/
theorem plaintextRound_iff (d : Nat) {size : Fin clients → Nat}
    (hsize : ∀ i, 0 < size i) :
    RoundCentral (PlaintextCentral (d := d) (K := K)) size ↔ 0 < clients := by
  constructor
  · intro h
    by_contra hzero
    obtain rfl : clients = 0 := by omega
    exact not_plaintextCentral_zero _
      (h (fun i => i.elim0) fun i => i.elim0)
  · intro hclients parts hlength
    refine plaintextCentral hclients fun i => ?_
    exact List.ne_nil_of_length_pos ((hlength i).symm ▸ hsize i)

/-- The Paillier method needs equally many rows at all clients. -/
theorem paillierRound_iff (S : Scheme K C) (d : Nat)
    {size : Fin clients → Nat} (hsize : ∀ i, 0 < size i) :
    RoundCentral (PaillierCentral (d := d) S) size
      ↔ 0 < clients ∧ ∀ i j, size i = size j := by
  constructor
  · intro h
    have hclients : 0 < clients := by
      by_contra hzero
      obtain rfl : clients = 0 := by omega
      exact not_paillierCentral_zero S _
        (h (fun i => i.elim0) fun i => i.elim0)
    refine ⟨hclients, fun i j => ?_⟩
    -- a label at one client only tells its weight from the others'
    have hone : ∀ i₀, clients * size i₀ = ∑ i, size i := fun i₀ =>
      size_of_paillierCentral S hclients hsize i₀
        (h (oneLabel K d size i₀) fun i => List.length_replicate)
    exact Nat.eq_of_mul_eq_mul_left hclients ((hone i).trans (hone j).symm)
  · rintro ⟨hclients, hequal⟩ parts hlength
    exact paillierCentral S hclients (hsize ⟨0, hclients⟩) fun i =>
      (hlength i).trans (hequal i _)

end Sizes

end PrimiHub.FL.Logistic
