/-
Packed plaintexts (algorithm/opt_paillier/src/crt_datapack.cc and the pack
functions of pybind_warpper/algorithm/opt_paillier_c2py.cc).

A block of up to `CRT_MOD_MAX_DIMENSION` signed numbers is packed into one
plaintext by the Chinese remainder theorem, over consecutive primes drawn
for the purpose. A list of any length is cut into blocks, each encrypted
on its own; packs are added block by block, and a decrypted block is
unpacked by taking remainders.

`pack_encrypt` and `pack_encrypt_crt` differ in the encryption they call
and in nothing else, so both are `packEncryptWith`. Each encryption draws
one random number; `draws` gives them, one per block. The Python layer
above adds packs only if their sizes and moduli are the same.

The strings between Python and C++ are decimal and exact, so the model
passes the numbers. What throws in the source has no result.
-/
import PrimiHub.Paillier.Basic

namespace PrimiHub.Paillier

open Lib

/-- `CRT_MOD_MAX_DIMENSION`. -/
def crtModMaxDimension : Nat := 28

/-- `CRT_MOD_SIZE`. -/
def crtModSize : Nat := 70

/-- `CrtMod`. -/
structure CrtMod where
  crtHalfMod : List Nat
  crtMod : List Nat
  crtSize : Nat
  modSize : Nat
  deriving DecidableEq, Repr

-- =============================================================== packing

/-- The loop of `init_crt`: the primes after `cur`. -/
def initCrtLoop : Nat → Nat → List Nat
  | 0, _ => []
  | k + 1, cur => nextprime cur :: initCrtLoop k (nextprime cur)

/-- `init_crt`, with the number it draws. -/
def initCrt (crtSize modSize draw : Nat) : CrtMod :=
  let mods := initCrtLoop crtSize (setbit (abyPrng draw modSize) modSize)
  { crtHalfMod := mods.map (· / 2)
    crtMod := mods
    crtSize := crtSize
    modSize := modSize }

/-- The loop of `data_packing_crt` over the numbers and their moduli. -/
def dataPackingLoop (muls : Nat) : List (Int × Nat) → Int → Int
  | [], res => res
  | (x, mod) :: rest, res =>
      let cur := if x < 0 then (x + mod) % mod else x
      let coef := muls / mod
      let cur := cur * coef * invert coef mod
      dataPackingLoop muls rest ((res + cur) % muls)

/-- `data_packing_crt`. -/
def dataPackingCrt (seq : List Int) (crtmod : CrtMod) : Option Int :=
  if crtmod.crtSize < seq.length then none
  else
    let mods := crtmod.crtMod.take seq.length
    some (dataPackingLoop mods.prod (seq.zip mods) 0)

/-- One remainder of `data_retrieve_crt`, in the signed range of its
modulus. -/
def retrieveOne (pack : Int) (mod half : Nat) : Int :=
  let cur := pack % mod
  if (half : Int) ≤ cur then cur - mod else cur

/-- `data_retrieve_crt`. -/
def dataRetrieveCrt (pack : Int) (crtmod : CrtMod) (dataSize : Nat) :
    Option (List Int) :=
  if crtmod.crtSize < dataSize then none
  else
    some (((crtmod.crtMod.zip crtmod.crtHalfMod).take dataSize).map fun m =>
      retrieveOne pack m.1 m.2)

-- ================================================================= packs

/-- The Python object of a packed ciphertext. -/
structure PackCipherText where
  ciphertexts : List Nat
  crtMod : CrtMod
  packSize : Nat
  deriving DecidableEq, Repr

/-- The loop over the blocks of `opt_paillier_pack_encrypt_warpper`;
`block` counts them. -/
def packEncryptLoop (encrypt : Int → Nat → Nat) (lbits : Nat)
    (crtmod : CrtMod) (draws : Nat → Nat) (block : Nat)
    (plainTexts : List Int) : Option (List Nat) :=
  if plainTexts = [] then some []
  else do
    let pack ← dataPackingCrt (plainTexts.take crtModMaxDimension) crtmod
    let cipherText := encrypt pack (abyPrng (draws block) lbits)
    let rest ← packEncryptLoop encrypt lbits crtmod draws (block + 1)
      (plainTexts.drop crtModMaxDimension)
    return cipherText :: rest
termination_by plainTexts.length
decreasing_by
  rename_i hne
  have hlen := List.length_pos_iff.mpr hne
  rw [List.length_drop, crtModMaxDimension]
  omega

/-- The common body of the two pack encryptions. Without moduli it draws
its own. -/
def packEncryptWith (encrypt : Int → Nat → Nat) (lbits crtDraw : Nat)
    (draws : Nat → Nat) (plainTexts : List Int) (crtMod : Option CrtMod) :
    Option PackCipherText :=
  let crtmod := crtMod.getD (initCrt crtModMaxDimension crtModSize crtDraw)
  (packEncryptLoop encrypt lbits crtmod draws 0 plainTexts).map fun ciphertexts =>
    { ciphertexts := ciphertexts
      crtMod := crtmod
      packSize := plainTexts.length }

/-- `opt_paillier_pack_encrypt_warpper`. -/
def optPaillierPackEncryptWarpper (pub : OptPublicKey) :=
  packEncryptWith (optPaillierEncrypt pub) pub.lbits

/-- `opt_paillier_pack_encrypt_crt_warpper`. -/
def optPaillierPackEncryptCrtWarpper (pub : OptPublicKey)
    (prv : OptSecretKey) :=
  packEncryptWith (optPaillierEncryptCrt pub prv) pub.lbits

/-- `opt_paillier_pack_add_warpper`, behind the tests of the Python
`opt_paillier_pack_add`. Reading a block the second pack does not have
throws. -/
def optPaillierPackAddWarpper (pub : OptPublicKey)
    (op1 op2 : PackCipherText) : Option PackCipherText :=
  if op1.packSize ≠ op2.packSize then none
  else if op1.crtMod ≠ op2.crtMod then none
  else if op2.ciphertexts.length < op1.ciphertexts.length then none
  else
    some
      { ciphertexts :=
          List.zipWith (optPaillierAdd pub) op1.ciphertexts op2.ciphertexts
        crtMod := op1.crtMod
        packSize := op1.packSize }

/-- Subtraction of `size_t`. -/
def sizeSub (a b : Nat) : Nat := if b ≤ a then a - b else a + 2 ^ 64 - b

/-- The loop over the blocks of `opt_paillier_pack_decrypt_crt_warpper`. -/
def packDecryptLoop (pub : OptPublicKey) (prv : OptSecretKey)
    (crtmod : CrtMod) : List Nat → Nat → Option (List Int)
  | [], _ => some []
  | cipherText :: rest, cipherTextNum => do
      let nums ← dataRetrieveCrt (optPaillierDecryptCrt pub prv cipherText)
        crtmod (min crtModMaxDimension cipherTextNum)
      let others ← packDecryptLoop pub prv crtmod rest
        (sizeSub cipherTextNum crtModMaxDimension)
      return nums ++ others

/-- `opt_paillier_pack_decrypt_crt_warpper`. -/
def optPaillierPackDecryptCrtWarpper (pub : OptPublicKey)
    (prv : OptSecretKey) (pack : PackCipherText) : Option (List Int) :=
  packDecryptLoop pub prv pack.crtMod pack.ciphertexts pack.packSize

end PrimiHub.Paillier
