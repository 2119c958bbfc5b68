/-
Fixed-base exponentiation (algorithm/opt_paillier/src/powmod.cc): a table
of the powers `base ^ (m_h ^ i)` is computed once, and a power is then a
product of table entries, with no squarings.

`fbpowmod_extend` cuts the exponent into digits base `m_h` and runs the
digit values from the largest down. `temp` collects the table entries
whose digit has been reached, and is multiplied into the result once per
value, so that an entry with digit `d` is multiplied in `d` times.

Writing past the end of a buffer is undefined, and the model has no
result then: the digits go into a buffer of `m_t + 1` entries
(`fbDigits`), and so do the powers, into what `malloc` returns
(`tableRoom`): the size asked for is a `size_t`, and above `PTRDIFF_MAX`
there is no such memory. Up to there the memory is found. The shift
`1 << winsize` of an int is undefined from 32 on; at 31 it is the
smallest int, which `m_h` widens to 64 bits.

# What the table is for

`FixedBaseRight` says of a number of bits and a window that every table
made with them serves: powers come out right and no entry outside the
table is read.
-/
import PrimiHub.Lib.Mpz
import PrimiHub.Lib.Overwrite

namespace PrimiHub.Paillier

open Lib

/-- `fb_instance`. -/
structure FbInstance where
  mMod : Nat
  mTableG : List Nat
  mH : Nat
  mT : Nat
  mW : Nat
  deriving DecidableEq, Repr

/-- `ROUNDUP(a, b)` on `size_t`: the subtraction wraps at zero, the
addition at the other end. -/
def roundup (a b : Nat) : Nat :=
  ((a + (2 ^ 64 - 1)) % 2 ^ 64 / b + 1) % 2 ^ 64

/-- `sizeof(mpz_t)`. -/
def sizeofMpz : Nat := 16

/-- `PTRDIFF_MAX`, the largest size that `malloc` serves. -/
def ptrdiffMax : Nat := 2 ^ 63 - 1

/-- How many entries fit into what `malloc` returns: the sum and the
product are `size_t`, and for too large a size the pointer is null. -/
def tableRoom (mT : Nat) : Nat :=
  let bytes := sizeofMpz * ((mT + 1) % 2 ^ 64) % 2 ^ 64
  if bytes ≤ ptrdiffMax then bytes / sizeofMpz else 0

/-- `1 << winsize` on int, widened to `size_t`. -/
def oneShl (winsize : Nat) : Option Nat :=
  if winsize < 31 then some (2 ^ winsize)
  else if winsize = 31 then some (2 ^ 64 - 2 ^ 31)
  else none

/-- `fbpowmod_init_extend`. The base of the table's exponents is `m_h`
truncated to 32 bits. The entries 0 to `m_t` are written. -/
def fbpowmodInitExtend (base : Int) (mod maxbits winsize : Nat) :
    Option FbInstance :=
  (oneShl winsize).bind fun mH =>
    let mT := roundup maxbits winsize
    if tableRoom mT ≤ mT then none
    else
      some
        { mMod := mod
          mTableG := (List.range (mT + 1)).map fun i =>
            powm base ((mH % 2 ^ 32) ^ i) mod
          mH := mH
          mT := mT
          mW := winsize }

/-- The loop that fills `m_e`: `room` entries are left in the buffer. -/
def fbDigits (mH mW : Nat) : Nat → Nat → Option (List Nat)
  | 0, mExp => if mExp = 0 then some [] else none
  | room + 1, mExp =>
      if mExp = 0 then some []
      else
        (fbDigits mH mW room (mExp / 2 ^ mW)).map
          ((mExp % mH % 2 ^ 32) :: ·)

/-- The inner loop for one digit value `j`, over the digits and the table
entries beside them. -/
def fbColumn (mMod j : Nat) : List (Nat × Nat) → Nat → Nat
  | [], temp => temp
  | (digit, g) :: rest, temp =>
      fbColumn mMod j rest (if digit = j then temp * g % mMod else temp)

/-- The outer loop, from the digit value `j` down to 1. -/
def fbLoop (mMod : Nat) (columns : List (Nat × Nat)) : Nat → Nat → Nat → Nat
  | 0, _, result => result
  | j + 1, temp, result =>
      let temp := fbColumn mMod (j + 1) columns temp
      fbLoop mMod columns j temp (result * temp % mMod)

/-- `fbpowmod_extend`. -/
def fbpowmodExtend (fb : FbInstance) (exp : Nat) : Option Nat :=
  (fbDigits fb.mH fb.mW (fb.mT + 1) exp).map fun mE =>
    fbLoop fb.mMod (mE.zip fb.mTableG) (fb.mH - 1) 1 1

-- =========================================================== the property

/-- The entries of `m_table_G` that the two loops read, from the digit
value `j` down to 1. -/
def fbReads (mE : List Nat) : Nat → List Nat
  | 0 => []
  | j + 1 => positions (· == j + 1) mE ++ fbReads mE j

/-- The entries that `fbpowmod_extend` reads. -/
def fbpowmodExtendReads (fb : FbInstance) (exp : Nat) : Option (List Nat) :=
  (fbDigits fb.mH fb.mW (fb.mT + 1) exp).map fun mE => fbReads mE (fb.mH - 1)

/-- The power comes out right, from entries of the table only. -/
structure PowerRight (base : Int) (mod exp : Nat) (fb : FbInstance) :
    Prop where
  power : fbpowmodExtend fb exp = some (powm base exp mod)
  inside : ∃ reads, fbpowmodExtendReads fb exp = some reads
    ∧ ∀ i ∈ reads, i < fb.mTableG.length

/-- Every table for `maxbits` bits with this window can be made and gives
every power of its base with an exponent of so many bits. -/
def FixedBaseRight (maxbits winsize : Nat) : Prop :=
  ∀ (base : Int) (mod : Nat), 2 ≤ mod →
    ∃ fb, fbpowmodInitExtend base mod maxbits winsize = some fb
      ∧ ∀ exp < 2 ^ maxbits, PowerRight base mod exp fb

/-- The table is no larger than what `malloc` serves. -/
def TableFits (maxbits winsize : Nat) : Prop :=
  sizeofMpz * (roundup maxbits winsize + 1) ≤ ptrdiffMax

/-- The digits of all exponents are digits base `2 ^ winsize`. -/
def WindowFits (maxbits winsize : Nat) : Prop :=
  winsize ≤ 30 ∨ (winsize = 31 ∧ maxbits ≤ 31)

end PrimiHub.Paillier
