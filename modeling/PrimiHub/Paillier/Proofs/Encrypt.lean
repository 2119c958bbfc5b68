/-
The three encryption paths are one function.

They differ only in how they compute the masking power `h_s ^ r` modulo
`n ^ 2`: directly, from the powers modulo `P ^ 2` and `Q ^ 2`, or from
powers out of the fixed-base tables. The recombination is the same for
the last two (`crtModNSquared_eq`), and the difference `cq - cp` in it may
be negative. The tables are made for one bit more than the exponents the
code draws, so the digits never leave the buffer.
-/
import PrimiHub.Paillier.Proofs.Decrypt
import PrimiHub.Paillier.Proofs.FixedBase

namespace PrimiHub.Paillier

open Lib

variable {pub : OptPublicKey} {prv : OptSecretKey}

/-- The recombination of two halves of one number. -/
theorem crtModNSquared_eq (hkey : GeneratedKey pub prv) {cp cq : Nat}
    {x : Int} (hp : (cp : Int) ≡ x [ZMOD prv.PSquared])
    (hq : (cq : Int) ≡ x [ZMOD prv.QSquared]) :
    (crtModNSquared pub prv cp cq : Int) = x % pub.nSquared := by
  obtain ⟨inv, hinv_eq, hinv⟩ := hkey.PSquared_inverse
  have hpos := hkey.nSquared_pos
  have hcombine := crt_combine hkey.coprime_squared hinv hp hq
  rw [← hkey.nSquared_mul] at hcombine
  rw [crtModNSquared, Int.toNat_of_nonneg (Int.emod_nonneg _ (by omega)),
    hinv_eq]
  push_cast
  exact hcombine

/-- A power of a reduced base. -/
theorem powm_mod_modEq (b exp : Nat) {mod : Nat} (hpos : 0 < mod) :
    (powm (b % mod : Nat) exp mod : Int) ≡ b ^ exp [ZMOD mod] := by
  refine (powm_modEq _ exp hpos).trans (Int.ModEq.pow exp ?_)
  push_cast
  exact Int.mod_modEq _ _

theorem GeneratedKey.PSquared_pos (hkey : GeneratedKey pub prv) :
    0 < prv.PSquared :=
  hkey.PSquared_eq ▸ Nat.mul_pos hkey.P_prime.pos hkey.P_prime.pos

theorem GeneratedKey.QSquared_pos (hkey : GeneratedKey pub prv) :
    0 < prv.QSquared :=
  hkey.QSquared_eq ▸ Nat.mul_pos hkey.Q_prime.pos hkey.Q_prime.pos

/-- `opt_paillier_mod_n_squared_crt` is exponentiation modulo `n ^ 2`. -/
theorem modNSquaredCrt_eq (hkey : GeneratedKey pub prv) (b exp : Nat) :
    optPaillierModNSquaredCrt pub prv b exp = powm b exp pub.nSquared := by
  have hpow : (b : Int) ^ exp ≡ b ^ exp [ZMOD pub.nSquared] := rfl
  have h := crtModNSquared_eq hkey (powm_mod_modEq b exp hkey.PSquared_pos)
    (powm_mod_modEq b exp hkey.QSquared_pos)
  rw [← powm_eq_of_modEq hkey.nSquared_pos hpow] at h
  exact_mod_cast h

/-- `opt_paillier_mod_n_squared_crt_fb` is exponentiation of `h_s`, for
the exponents the tables are made for. -/
theorem modNSquaredCrtFb_eq (hkey : GeneratedKey pub prv) {exp : Nat}
    (hexp : exp < 2 ^ (pub.lbits + 1)) :
    optPaillierModNSquaredCrtFb pub prv exp
      = some (powm pub.hS exp pub.nSquared) := by
  have hlbits := hkey.lbits_le
  have hP := fbpowmodExtend_eq hkey.PSquared_pos (by decide) (by decide)
    (by omega) hkey.fbP_eq hexp
  have hQ := fbpowmodExtend_eq hkey.QSquared_pos (by decide) (by decide)
    (by omega) hkey.fbQ_eq hexp
  have h := crtModNSquared_eq hkey
    (powm_mod_modEq pub.hS exp hkey.PSquared_pos)
    (powm_mod_modEq pub.hS exp hkey.QSquared_pos)
  have hpow : (pub.hS : Int) ^ exp ≡ pub.hS ^ exp [ZMOD pub.nSquared] := rfl
  rw [← powm_eq_of_modEq hkey.nSquared_pos hpow] at h
  rw [optPaillierModNSquaredCrtFb, hP, hQ]
  exact congrArg some (by exact_mod_cast h)

/-- For every generated key, every plaintext (in the domain or not) and
every exponent in the range the code draws from, the three paths return
the same ciphertext. -/
theorem encrypt_paths_eq {kSec : Nat} {tape : List Nat}
    (h : optPaillierKeygen kSec tape = some (pub, prv)) (m : Int) {r : Nat}
    (hr : r < 2 ^ pub.lbits) :
    optPaillierEncryptCrt pub prv m r = optPaillierEncrypt pub m r
    ∧ optPaillierEncryptCrtFb pub prv m r
      = some (optPaillierEncrypt pub m r) := by
  have hkey := keygen_generated h
  have hr' : r < 2 ^ (pub.lbits + 1) := by
    rw [Nat.pow_succ]
    omega
  constructor
  · rw [optPaillierEncryptCrt, modNSquaredCrt_eq hkey, optPaillierEncrypt]
  · rw [optPaillierEncryptCrtFb, modNSquaredCrtFb_eq hkey hr',
      Option.map_some, optPaillierEncrypt]

/-- An exponent whose windows are all different but one, which is zero. -/
def sampleExponent : Nat := 0xFEDCBA9876543210

/-- The sample key, with a negative plaintext. -/
theorem encrypt_paths_eq_sample :
    ∃ pub prv, optPaillierKeygen 112 sampleTape = some (pub, prv)
      ∧ optPaillierEncryptCrt pub prv (-5) sampleExponent
        = optPaillierEncrypt pub (-5) sampleExponent
      ∧ optPaillierEncryptCrtFb pub prv (-5) sampleExponent
        = some (optPaillierEncrypt pub (-5) sampleExponent) := by
  obtain ⟨pub, prv, h⟩ := keygen_sample
  have hlbits := (keygen_generated h).le_lbits
  have hexp : sampleExponent < 2 ^ pub.lbits := by
    have hsize : sampleExponent < 2 ^ 64 := by decide
    exact hsize.trans_le (Nat.pow_le_pow_right two_pos (by omega))
  exact ⟨pub, prv, h, encrypt_paths_eq h (-5) hexp⟩

end PrimiHub.Paillier
