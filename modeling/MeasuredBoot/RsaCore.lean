import MeasuredBoot.BitstreamDigest
import MeasuredBoot.Lib.Digits
import MeasuredBoot.Lib.Newton
import Mathlib.Data.BitVec

/-!
# The RSA core (`xsecure_rsa_core.c`, `xsecure_rsa.c`)

The core computes on a RAM of rows of six words; the driver moves the big-endian buffers of a key and a
signature there, from the last word on, gives it the inverse of the modulus, and moves the result back.
`rsaPublicEncrypt_computes`: with a core that exponentiates, what comes back is the power of the signature, for
each key size. `mod32Inverse_iff`: the inverse is one if and only if the modulus is odd.
-/

namespace MeasuredBoot.Rsa

open Prog
open MeasuredBoot.Stream (xilHtonl)

/-! ## The core -/

/-- The registers of the core; a write of `wrAddr` moves the six data registers to a row. -/
inductive RsaReg where
  | wrData (i : Nat)
  | wrAddr
  | rdAddr
  | minv (i : Nat)
  | control
  deriving DecidableEq

structure RsaCore where
  wrData : Nat → UInt32
  ram : Nat → Nat → UInt32
  rdAddr : Nat
  minv : Nat → UInt32
  control : UInt32

def RsaCore.write (c : RsaCore) : RsaReg → UInt32 → RsaCore
  | .wrData i, v => { c with wrData := Function.update c.wrData i v }
  | .wrAddr, v => { c with ram := Function.update c.ram v.toNat c.wrData }
  | .rdAddr, v => { c with rdAddr := v.toNat }
  | .minv i, v => { c with minv := Function.update c.minv i v }
  | .control, v => { c with control := v }

/-- What the hardware answers, each time it is asked. -/
structure RsaHw where
  /-- `XSecure_CryptoCheck`. -/
  cryptoCheck : Nat → UInt32
  /-- The status register. -/
  status : Nat → UInt32
  /-- The RAM behind an operation. -/
  operate : RsaCore → Nat → Nat → UInt32
  /-- `XGetPSVersion_Info`. -/
  psVersion : UInt32

structure RsaState where
  tick : Nat
  core : RsaCore

abbrev RsaM := EStateM Halt RsaState

def ask (f : Nat → UInt32) : RsaM UInt32 := fun s => .ok (f s.tick) { s with tick := s.tick + 1 }

/-! ## Source -/

def xsecureRsaMaxBuff : Nat := 6
def xsecureRsaMaxRdWrCnt : Nat := 22
def xsecureTimeoutMax : Nat := 0x1FFFFF
def xstFailure : UInt32 := 1
def xsecureRsaInvalidParam : UInt32 := 0x82
def xsecureRsa4096KeySize : Nat := 512

/-- `XSECURE_CSU_RSA_RAM_EXPO` to `XSECURE_CSU_RSA_RAM_RES_Y`. -/
inductive RamOffset where
  | expo
  | mod
  | digest
  | resY
  deriving DecidableEq

def RamOffset.row : RamOffset → Nat
  | .expo => 0
  | .mod => 1
  | .digest => 2
  | .resY => 4

/-- `XSecure_Rsa`: the buffers of the key, and the size of the operation. -/
structure XSecureRsa where
  mod : Mem
  modExt : Option Mem
  modExpo : Mem
  sizeInWords : Nat

/-- The word of a buffer at place `tmpIndex` of its part of the RAM, for a public operation. -/
def rsaWord (sizeInWords : Nat) (wrData : Mem) (ramOffset : RamOffset) (tmpIndex : Nat) : UInt32 :=
  if ramOffset = .expo then
    if tmpIndex = 0 then xilHtonl (word32 wrData 0) else 0
  else if tmpIndex < sizeInWords then xilHtonl (word32 wrData (sizeInWords - 1 - tmpIndex))
  else 0

section Write

variable (sizeInWords : Nat) (wrData : Mem) (ramOffset : RamOffset)

/-- The first `n` of the data registers. -/
def writeBuffers (dataOffset : Nat) : Nat → RsaCore → RsaCore
  | 0, c => c
  | n + 1, c => (writeBuffers dataOffset n c).write (.wrData n)
      (rsaWord sizeInWords wrData ramOffset (dataOffset * xsecureRsaMaxBuff + n))

def writeRows : Nat → RsaCore → RsaCore
  | 0, c => c
  | n + 1, c =>
    (writeBuffers sizeInWords wrData ramOffset n xsecureRsaMaxBuff (writeRows n c)).write .wrAddr
      (.ofNat (ramOffset.row * xsecureRsaMaxRdWrCnt + n))

def xsecureRsaWriteMem (c : RsaCore) : RsaCore :=
  writeRows sizeInWords wrData ramOffset xsecureRsaMaxRdWrCnt c

end Write

/-- `XSECURE_WORD_SIZE` passes of the loop. -/
def mod32InverseLoop (modVal : UInt32) : Nat → UInt32 → UInt32
  | 0, inv => inv
  | n + 1, inv => mod32InverseLoop modVal n (inv * (2 - modVal * inv))

def xsecureRsaMod32Inverse (rsa : XSecureRsa) (c : RsaCore) : RsaCore :=
  let modVal := xilHtonl (word32 rsa.mod (rsa.sizeInWords - 1))
  let inv := ~~~(mod32InverseLoop modVal 4 (2 - modVal)) + 1
  let c := c.write (.minv 0) (inv &&& 0xFF)
  let c := c.write (.minv 1) (inv >>> 8 &&& 0xFF)
  let c := c.write (.minv 2) (inv >>> 16 &&& 0xFF)
  c.write (.minv 3) (inv >>> 24 &&& 0xFF)

def xsecureRsaPutData (rsa : XSecureRsa) (c : RsaCore) : RsaCore :=
  let c := xsecureRsaWriteMem rsa.sizeInWords rsa.modExpo .expo c
  let c := xsecureRsaWriteMem rsa.sizeInWords rsa.mod .mod c
  match rsa.modExt with
  | some modExt => xsecureRsaWriteMem rsa.sizeInWords modExt .resY c
  | none => c

/-- The data registers of a row, from `index` on; nothing is stored once `TmpIndex` is negative. -/
def getBuffers (c : RsaCore) (row : Nat) : Nat → Nat → Nat × Mem → Nat × Mem
  | 0, _, r => r
  | n + 1, index, (left, rdData) =>
    match left with
    | 0 => (0, rdData)
    | tmpIndex + 1 =>
      getBuffers c row n (index + 1)
        (tmpIndex, rdData.store (4 * tmpIndex) (leBytes 4 (xilHtonl (c.ram row index)).toNat))

/-- The rows of the result; the first two words are left out. -/
def getRows (c : RsaCore) : Nat → Nat × Mem → Nat × Mem
  | 0, r => r
  | n + 1, r =>
    let index := if n = 0 then 2 else 0
    getBuffers c (RamOffset.resY.row * xsecureRsaMaxRdWrCnt + n) (xsecureRsaMaxBuff - index) index
      (getRows c n r)

def xsecureRsaGetData (sizeInWords : Nat) (c : RsaCore) (rdData : Mem) : Mem :=
  (getRows c xsecureRsaMaxRdWrCnt (sizeInWords, rdData)).2

/-- The length codes. -/
def rsaType (sizeInWords : Nat) : Option UInt32 :=
  match sizeInWords with
  | 16 => some 0x00
  | 18 => some 0x10
  | 22 => some 0x20
  | 24 => some 0x30
  | 31 => some 0x40
  | 32 => some 0x50
  | 36 => some 0x60
  | 44 => some 0x70
  | 48 => some 0x80
  | 62 => some 0x90
  | 64 => some 0xA0
  | 96 => some 0xB0
  | 128 => some 0xC0
  | _ => none

section Hw

variable (hw : RsaHw)

/-- `do … while (TimeOut < XSECURE_TIMEOUT_MAX)`. -/
def waitForDone : Nat → RsaM UInt32
  | 0 => pure xstFailure
  | polls + 1 => do
    let status ← ask hw.status
    if status &&& 4 = 4 then pure xstFailure
    else if status &&& 1 = 1 then pure xfsblSuccess
    else waitForDone polls

/-- A public operation (`XSECURE_RSA_SIGN_ENC`): the error code, and the result buffer. -/
def xsecureRsaOperation (rsa : XSecureRsa) (input result : Mem) (size : Nat) : RsaM (UInt32 × Mem) := do
  let rsa := { rsa with sizeInWords := size / 4 }
  match rsaType rsa.sizeInWords with
  | none => throw .hang
  | some code => do
    modify fun s => { s with core := xsecureRsaPutData rsa s.core }
    modify fun s => { s with core := xsecureRsaWriteMem rsa.sizeInWords input .digest s.core }
    modify fun s => { s with core := xsecureRsaMod32Inverse rsa s.core }
    modify fun s => { s with core := s.core.write .control (code + if rsa.modExt.isSome then 5 else 1) }
    let errorCode ← waitForDone hw xsecureTimeoutMax
    if errorCode ≠ xfsblSuccess then pure (errorCode, result)
    else do
      modify fun s => { s with core := { s.core with ram := hw.operate s.core } }
      let s ← get
      pure (errorCode, xsecureRsaGetData rsa.sizeInWords s.core result)

/-- `XSecure_RsaInitialize` of buffers that are there. -/
def xsecureRsaInitialize (mod modExt modExpo : Mem) : RsaM (UInt32 × XSecureRsa) := do
  let status ← ask hw.cryptoCheck
  pure (status, ⟨mod, some modExt, modExpo, xsecureRsa4096KeySize / 4⟩)

def xsecureIsNonZeroBuffer (data : Mem) (size : Nat) : Bool := (data.load 0 size).any (· != 0)

def xsecureRsaPublicEncrypt (rsa : XSecureRsa) (input : Mem) (size : Nat) (result : Mem) :
    RsaM (UInt32 × Mem) :=
  if xsecureIsNonZeroBuffer rsa.modExpo 4 then xsecureRsaOperation hw rsa input result size
  else pure (xsecureRsaInvalidParam, result)

end Hw

/-! ## Words of a big-endian buffer -/

theorem and_second_byte (n : Nat) : n &&& 0xFF00 = 2 ^ 8 * (n / 2 ^ 8 % 2 ^ 8) := by
  have hmask : 0xFF00 = 0xFF <<< 8 := rfl
  rw [← Nat.and_two_pow_sub_one_eq_mod, ← Nat.shiftRight_eq_div_pow, Nat.mul_comm, ← Nat.shiftLeft_eq, hmask]
  apply Nat.eq_of_testBit_eq
  intro i
  rw [Nat.testBit_and, Nat.testBit_shiftLeft, Nat.testBit_shiftLeft, Nat.testBit_and, Nat.testBit_shiftRight]
  by_cases hi : 8 ≤ i
  · rw [show 8 + (i - 8) = i by omega]
    simp [hi]
  · simp [hi]

/-- The bytes of a word, the other way round. -/
theorem toNat_xilHtonl (w : UInt32) : (xilHtonl w).toNat =
    2 ^ 24 * (w.toNat % 2 ^ 8) + 2 ^ 16 * (w.toNat / 2 ^ 8 % 2 ^ 8) + 2 ^ 8 * (w.toNat / 2 ^ 16 % 2 ^ 8) +
      w.toNat / 2 ^ 24 := by
  have hw := w.toNat_lt
  have htop : (w <<< 24).toNat = 2 ^ 24 * (w.toNat % 2 ^ 8) := by
    rw [UInt32.toNat_shiftLeft, Nat.shiftLeft_eq]
    simp
    omega
  have hupper : ((w &&& 0xFF00) <<< 8).toNat = 2 ^ 16 * (w.toNat / 2 ^ 8 % 2 ^ 8) := by
    rw [UInt32.toNat_shiftLeft, Nat.shiftLeft_eq, UInt32.toNat_and]
    simp [and_second_byte]
    omega
  have hlower : (w >>> 8 &&& 0xFF00).toNat = 2 ^ 8 * (w.toNat / 2 ^ 16 % 2 ^ 8) := by
    rw [UInt32.toNat_and, UInt32.toNat_shiftRight, Nat.shiftRight_eq_div_pow]
    simp [and_second_byte]
    omega
  have hlow : (w >>> 24).toNat = w.toNat / 2 ^ 24 := by
    rw [UInt32.toNat_shiftRight, Nat.shiftRight_eq_div_pow]
    rfl
  unfold xilHtonl
  simp only [UInt32.toNat_or, htop, hupper, hlower, hlow]
  rw [← Nat.two_pow_add_eq_or_of_lt (by omega : 2 ^ 16 * (w.toNat / 2 ^ 8 % 2 ^ 8) < 2 ^ 24)]
  have h16 : 2 ^ 24 * (w.toNat % 2 ^ 8) + 2 ^ 16 * (w.toNat / 2 ^ 8 % 2 ^ 8) =
      2 ^ 16 * (2 ^ 8 * (w.toNat % 2 ^ 8) + w.toNat / 2 ^ 8 % 2 ^ 8) := by omega
  rw [h16, ← Nat.two_pow_add_eq_or_of_lt (by omega : 2 ^ 8 * (w.toNat / 2 ^ 16 % 2 ^ 8) < 2 ^ 16)]
  have h8 : 2 ^ 16 * (2 ^ 8 * (w.toNat % 2 ^ 8) + w.toNat / 2 ^ 8 % 2 ^ 8) +
      2 ^ 8 * (w.toNat / 2 ^ 16 % 2 ^ 8) =
      2 ^ 8 * (2 ^ 8 * (2 ^ 8 * (w.toNat % 2 ^ 8) + w.toNat / 2 ^ 8 % 2 ^ 8) + w.toNat / 2 ^ 16 % 2 ^ 8) := by
    omega
  rw [h8, ← Nat.two_pow_add_eq_or_of_lt (by omega : w.toNat / 2 ^ 24 < 2 ^ 8)]

theorem toNat_xilHtonl_ofLE {w : UInt32} {a b c d : UInt8} (h : w.toNat = ofLE [a, b, c, d]) :
    (xilHtonl w).toNat = ofLE [d, c, b, a] := by
  have ha := a.toNat_lt
  have hb := b.toNat_lt
  have hc := c.toNat_lt
  have hd := d.toNat_lt
  simp only [ofLE] at h ⊢
  have h0 : w.toNat % 2 ^ 8 = a.toNat := by omega
  have h1 : w.toNat / 2 ^ 8 % 2 ^ 8 = b.toNat := by omega
  have h2 : w.toNat / 2 ^ 16 % 2 ^ 8 = c.toNat := by omega
  have h3 : w.toNat / 2 ^ 24 = d.toNat := by omega
  rw [toNat_xilHtonl, h0, h1, h2, h3]
  omega

theorem toNat_word32 (b : Mem) (k : Nat) : (word32 b k).toNat = ofLE (b.load (4 * k) 4) := by
  have hlt : ofLE (b.load (4 * k) 4) < 2 ^ 32 := by
    have h := ofLE_lt (b.load (4 * k) 4)
    rwa [Mem.length_load, show 256 ^ 4 = 2 ^ 32 by norm_num] at h
  exact UInt32.toNat_ofNat_of_lt' hlt

/-- The word of a big-endian buffer. -/
theorem toNat_bigEndian (b : Mem) (k : Nat) : (xilHtonl (word32 b k)).toNat = ofBE (b.load (4 * k) 4) :=
  toNat_xilHtonl_ofLE (toNat_word32 b k)

/-- And back: its bytes, most significant first. -/
theorem ofBE_leBytes_xilHtonl (w : UInt32) : ofBE (leBytes 4 (xilHtonl w).toNat) = w.toNat := by
  have hw : w.toNat = ofLE (leBytes 4 w.toNat) := by
    rw [ofLE_leBytes]
    have := w.toNat_lt
    rwa [show 256 ^ 4 = 2 ^ 32 by norm_num]
  obtain ⟨a, b, c, d, hbytes⟩ : ∃ a b c d, leBytes 4 w.toNat = [a, b, c, d] := ⟨_, _, _, _, rfl⟩
  rw [hbytes] at hw
  have hback : leBytes 4 (ofLE [d, c, b, a]) = [d, c, b, a] := leBytes_ofLE [d, c, b, a]
  rw [toNat_xilHtonl_ofLE hw, hback, hw]
  rfl

/-! ## The inverse of the modulus -/

section Inverse

theorem mod32InverseLoop_iterate (m : UInt32) (n : Nat) (x : UInt32) :
    (mod32InverseLoop m n x).toBitVec = (Newton.step m.toBitVec)^[n] x.toBitVec := by
  induction n generalizing x with
  | zero => rfl
  | succ n ih => exact ih (x * (2 - m * x))

/-- Four steps from `2 - m`: 2, 4, 8, 16 and then all 32 bits are right. -/
theorem mul_mod32InverseLoop {m : UInt32} (h : m.toNat % 2 = 1) :
    m * mod32InverseLoop m 4 (2 - m) = 1 := by
  have hodd : (2 : BitVec 32) ∣ 1 - m.toBitVec := by
    refine ⟨-BitVec.ofNat 32 (m.toNat / 2), ?_⟩
    have hm : m.toBitVec = BitVec.ofNat 32 (2 * (m.toNat / 2) + 1) := by
      rw [show 2 * (m.toNat / 2) + 1 = m.toNat by omega]
      simp
    rw [hm, BitVec.ofNat_add, BitVec.ofNat_mul]
    show 1 - (2 * BitVec.ofNat 32 (m.toNat / 2) + 1) = 2 * -BitVec.ofNat 32 (m.toNat / 2)
    ring
  have hseed : (2 : BitVec 32) ^ 2 ∣ 1 - m.toBitVec * (2 - m.toBitVec) := by
    have hsq : 1 - m.toBitVec * (2 - m.toBitVec) = (1 - m.toBitVec) ^ 2 := by ring
    rw [hsq]
    exact pow_dvd_pow_of_dvd hodd 2
  have hinv := Newton.mul_iterate_eq_one (n := 4) hseed (by decide)
  apply UInt32.toBitVec_inj.1
  rw [UInt32.toBitVec_mul, mod32InverseLoop_iterate]
  exact hinv

/-- The word in the four registers of a byte. -/
def RsaCore.minvWord (c : RsaCore) : UInt32 :=
  c.minv 0 ||| c.minv 1 <<< 8 ||| c.minv 2 <<< 16 ||| c.minv 3 <<< 24

theorem or_two_pow {a b i : Nat} (h : a < 2 ^ i) : a ||| 2 ^ i * b = 2 ^ i * b + a := by
  rw [Nat.or_comm, ← Nat.two_pow_add_eq_or_of_lt h]

theorem join_bytes (v : UInt32) :
    (v &&& (0xFF : UInt32)) ||| (v >>> 8 &&& (0xFF : UInt32)) <<< 8 |||
      (v >>> 16 &&& (0xFF : UInt32)) <<< 16 ||| (v >>> 24 &&& (0xFF : UInt32)) <<< 24 = v := by
  have hv := v.toNat_lt
  have hbyte (n : Nat) : n &&& 255 = n % 2 ^ 8 := Nat.and_two_pow_sub_one_eq_mod n 8
  have h0 : (v &&& (0xFF : UInt32)).toNat = v.toNat % 2 ^ 8 := by
    rw [UInt32.toNat_and]
    exact hbyte _
  have hshift (s : UInt32) (k : Nat) (hs : s.toNat = k) (hk : k ≤ 24) :
      ((v >>> s &&& (0xFF : UInt32)) <<< s).toNat = 2 ^ k * (v.toNat / 2 ^ k % 2 ^ 8) := by
    have hand : (v >>> s &&& (0xFF : UInt32)).toNat = v.toNat / 2 ^ k % 2 ^ 8 := by
      rw [UInt32.toNat_and, UInt32.toNat_shiftRight, hs, Nat.mod_eq_of_lt (by omega), Nat.shiftRight_eq_div_pow]
      exact hbyte _
    rw [UInt32.toNat_shiftLeft, hand, hs, Nat.mod_eq_of_lt (by omega : k < 32), Nat.shiftLeft_eq, Nat.mul_comm]
    refine Nat.mod_eq_of_lt ?_
    calc 2 ^ k * (v.toNat / 2 ^ k % 2 ^ 8) < 2 ^ k * 2 ^ 8 :=
          Nat.mul_lt_mul_of_pos_left (Nat.mod_lt _ (by decide)) (Nat.two_pow_pos k)
      _ = 2 ^ (k + 8) := (Nat.pow_add 2 k 8).symm
      _ ≤ 2 ^ 32 := Nat.pow_le_pow_right (by decide) (by omega)
  apply UInt32.toNat_inj.1
  simp only [UInt32.toNat_or, h0, hshift 8 8 rfl (by omega), hshift 16 16 rfl (by omega),
    hshift 24 24 rfl (by omega)]
  rw [or_two_pow (i := 8) (by omega), or_two_pow (i := 16) (by omega), or_two_pow (i := 24) (by omega)]
  omega

theorem not_add_one (v : UInt32) : ~~~v + 1 = -v := by
  apply UInt32.toBitVec_inj.1
  exact (BitVec.neg_eq_not_add _).symm

variable (rsa : XSecureRsa) (c : RsaCore)

/-- The least word of the modulus. -/
def XSecureRsa.modVal (rsa : XSecureRsa) : UInt32 := xilHtonl (word32 rsa.mod (rsa.sizeInWords - 1))

/-- The modulus. -/
def XSecureRsa.modulus (rsa : XSecureRsa) : Nat := ofBE (rsa.mod.load 0 (4 * rsa.sizeInWords))

theorem minvWord_mod32Inverse :
    (xsecureRsaMod32Inverse rsa c).minvWord = -mod32InverseLoop rsa.modVal 4 (2 - rsa.modVal) := by
  rw [← not_add_one]
  exact join_bytes _

theorem modulus_mod (h : 0 < rsa.sizeInWords) : rsa.modulus % 2 ^ 32 = rsa.modVal.toNat := by
  obtain ⟨n, hn⟩ : ∃ n, rsa.sizeInWords = n + 1 := ⟨rsa.sizeInWords - 1, by omega⟩
  have hlast := toNat_bigEndian rsa.mod n
  have hlt := (xilHtonl (word32 rsa.mod n)).toNat_lt
  unfold XSecureRsa.modulus XSecureRsa.modVal
  rw [hn, Nat.mul_succ, Mem.load_add, ofBE_append, Mem.length_load, Nat.zero_add, Nat.add_sub_cancel, ← hlast,
    show 256 ^ 4 = 2 ^ 32 by norm_num, Nat.add_mul_mod_self_left, Nat.mod_eq_of_lt hlt]

/-- What the four registers hold, for an odd modulus. -/
theorem mul_minvWord (h : 0 < rsa.sizeInWords) (hodd : rsa.modulus % 2 = 1) :
    (rsa.modulus * (xsecureRsaMod32Inverse rsa c).minvWord.toNat + 1) % 2 ^ 32 = 0 := by
  have hmod := modulus_mod rsa h
  have hm : rsa.modVal.toNat % 2 = 1 := by omega
  have hword : rsa.modVal * (xsecureRsaMod32Inverse rsa c).minvWord + 1 = 0 := by
    rw [minvWord_mod32Inverse, UInt32.mul_neg, mul_mod32InverseLoop hm]
    rfl
  have hnat := congrArg UInt32.toNat hword
  rw [UInt32.toNat_add, UInt32.toNat_mul, ← hmod, Nat.mod_mul_mod] at hnat
  rw [Nat.add_mod]
  exact hnat

/-- **The inverse of the modulus**: the four registers hold the negative of its inverse modulo `2 ^ 32`
if and only if the modulus is odd. -/
theorem mod32Inverse_iff (h : 0 < rsa.sizeInWords) :
    (rsa.modulus * (xsecureRsaMod32Inverse rsa c).minvWord.toNat + 1) % 2 ^ 32 = 0 ↔ rsa.modulus % 2 = 1 := by
  constructor
  · intro hzero
    by_contra heven
    have hdvd : 2 ∣ rsa.modulus * (xsecureRsaMod32Inverse rsa c).minvWord.toNat + 1 :=
      Nat.dvd_trans (by norm_num) (Nat.dvd_of_mod_eq_zero hzero)
    have heven' : 2 ∣ rsa.modulus * (xsecureRsaMod32Inverse rsa c).minvWord.toNat :=
      Dvd.dvd.mul_right (Nat.dvd_of_mod_eq_zero (by omega)) _
    omega
  · exact mul_minvWord rsa c h

end Inverse

/-! ## The RAM -/

/-- A word of a part of the RAM. -/
def RsaCore.region (c : RsaCore) (r : RamOffset) (k : Nat) : UInt32 :=
  c.ram (r.row * xsecureRsaMaxRdWrCnt + k / xsecureRsaMaxBuff) (k % xsecureRsaMaxBuff)

/-- The number there. -/
def RsaCore.value (c : RsaCore) (r : RamOffset) : Nat :=
  Nat.ofDigits (2 ^ 32) ((List.range 132).map fun k => (c.region r k).toNat)

section Ram

variable {sizeInWords dataOffset n i a k : Nat} {wrData : Mem} {r r' : RamOffset} {c : RsaCore}

theorem row_le (r : RamOffset) : r.row ≤ 4 := by
  cases r <;> decide

theorem writeBuffers_wrData (hi : i < n) :
    (writeBuffers sizeInWords wrData r dataOffset n c).wrData i =
      rsaWord sizeInWords wrData r (dataOffset * xsecureRsaMaxBuff + i) := by
  induction n with
  | zero => omega
  | succ n ih =>
    show Function.update _ n _ i = _
    by_cases h : i = n
    · rw [h, Function.update_self]
    · rw [Function.update_of_ne h]
      exact ih (by omega)

theorem writeBuffers_rest (n : Nat) :
    (writeBuffers sizeInWords wrData r dataOffset n c).ram = c.ram ∧
      (writeBuffers sizeInWords wrData r dataOffset n c).minv = c.minv := by
  induction n with
  | zero => exact ⟨rfl, rfl⟩
  | succ n ih => exact ih

theorem toNat_rowAddr (hn : n < xsecureRsaMaxRdWrCnt) :
    (UInt32.ofNat (r.row * xsecureRsaMaxRdWrCnt + n)).toNat = r.row * xsecureRsaMaxRdWrCnt + n := by
  have hrow := row_le r
  unfold xsecureRsaMaxRdWrCnt at *
  rw [UInt32.toNat_ofNat', Nat.mod_eq_of_lt (by omega)]

theorem writeRows_in (hn : n ≤ xsecureRsaMaxRdWrCnt) {d : Nat} (hd : d < n) (hi : i < xsecureRsaMaxBuff) :
    (writeRows sizeInWords wrData r n c).ram (r.row * xsecureRsaMaxRdWrCnt + d) i =
      rsaWord sizeInWords wrData r (d * xsecureRsaMaxBuff + i) := by
  induction n with
  | zero => omega
  | succ n ih =>
    show (Function.update (writeBuffers sizeInWords wrData r n xsecureRsaMaxBuff
      (writeRows sizeInWords wrData r n c)).ram (UInt32.ofNat (r.row * xsecureRsaMaxRdWrCnt + n)).toNat
        _ : Nat → Nat → UInt32) _ i = _
    rw [toNat_rowAddr (by omega)]
    by_cases h : d = n
    · rw [h, Function.update_self]
      exact writeBuffers_wrData hi
    · rw [Function.update_of_ne (by omega), (writeBuffers_rest _).1]
      exact ih (by omega) (by omega)

theorem writeRows_out (hn : n ≤ xsecureRsaMaxRdWrCnt)
    (ha : a < r.row * xsecureRsaMaxRdWrCnt ∨ r.row * xsecureRsaMaxRdWrCnt + n ≤ a) :
    (writeRows sizeInWords wrData r n c).ram a = c.ram a ∧
      (writeRows sizeInWords wrData r n c).minv = c.minv := by
  induction n with
  | zero => exact ⟨rfl, rfl⟩
  | succ n ih =>
    obtain ⟨hram, hminv⟩ := ih (by omega) (by omega)
    have hrest := @writeBuffers_rest sizeInWords n wrData r (writeRows sizeInWords wrData r n c) xsecureRsaMaxBuff
    refine ⟨?_, hrest.2.trans hminv⟩
    show Function.update _ (UInt32.ofNat (r.row * xsecureRsaMaxRdWrCnt + n)).toNat _ a = _
    rw [toNat_rowAddr (by omega), Function.update_of_ne (by omega), hrest.1, hram]

theorem region_writeMem (hk : k < 132) :
    (xsecureRsaWriteMem sizeInWords wrData r c).region r k = rsaWord sizeInWords wrData r k := by
  unfold RsaCore.region xsecureRsaWriteMem
  rw [writeRows_in (Nat.le_refl _) (by unfold xsecureRsaMaxBuff xsecureRsaMaxRdWrCnt; omega)
    (Nat.mod_lt _ (by decide)), Nat.mul_comm, Nat.div_add_mod]

theorem region_writeMem_other (h : r' ≠ r) (hk : k < 132) :
    (xsecureRsaWriteMem sizeInWords wrData r c).region r' k = c.region r' k := by
  unfold RsaCore.region xsecureRsaWriteMem
  refine congrFun (writeRows_out (Nat.le_refl _) ?_).1 _
  unfold xsecureRsaMaxBuff xsecureRsaMaxRdWrCnt
  cases r <;> cases r' <;> simp only [RamOffset.row, ne_eq, not_true_eq_false] at h ⊢ <;> omega

theorem value_of_ram {c' : RsaCore} (h : c.ram = c'.ram) (r : RamOffset) : c.value r = c'.value r := by
  unfold RsaCore.value RsaCore.region
  rw [h]

theorem value_writeMem_other (h : r' ≠ r) : (xsecureRsaWriteMem sizeInWords wrData r c).value r' = c.value r' := by
  unfold RsaCore.value
  refine congrArg _ (List.map_congr_left fun k hk => ?_)
  rw [region_writeMem_other h (List.mem_range.1 hk)]

/-- The buffer, as a number. -/
theorem value_writeMem (h : r ≠ .expo) (hsize : sizeInWords ≤ 132) :
    (xsecureRsaWriteMem sizeInWords wrData r c).value r = ofBE (wrData.load 0 (4 * sizeInWords)) := by
  have hword (k : Nat) (hk : k < sizeInWords) : (rsaWord sizeInWords wrData r k).toNat =
      ofBE (wrData.load (0 + 4 * (sizeInWords - 1 - k)) 4) := by
    rw [rsaWord, if_neg h, if_pos hk, toNat_bigEndian, Nat.zero_add]
  rw [ofBE_load_words, RsaCore.value,
    List.map_congr_left fun k hk => congrArg UInt32.toNat (region_writeMem (List.mem_range.1 hk)),
    ofDigits_range_zero hsize fun k hk => ?_]
  · exact congrArg _ (List.map_congr_left fun k hk => hword k (List.mem_range.1 hk))
  · rw [rsaWord, if_neg h, if_neg (by omega)]
    rfl

/-- Only the first word of an exponent counts. -/
theorem value_writeMem_expo :
    (xsecureRsaWriteMem sizeInWords wrData .expo c).value .expo = ofBE (wrData.load 0 4) := by
  rw [RsaCore.value,
    List.map_congr_left fun k hk => congrArg UInt32.toNat (region_writeMem (List.mem_range.1 hk)),
    ofDigits_range_zero (by decide : 1 ≤ 132) fun k hk => ?_]
  · show Nat.ofDigits (2 ^ 32) [(rsaWord sizeInWords wrData .expo 0).toNat] = _
    rw [Nat.ofDigits_singleton]
    exact toNat_bigEndian wrData 0
  · rw [rsaWord, if_pos rfl, if_neg (by omega)]
    rfl

end Ram

/-! ## The result -/

section Result

variable {c : RsaCore} {sizeInWords t row index n : Nat} {r : Nat × Mem}

/-- The first `t` words of the result are in the buffer, from its end on. -/
structure Got (c : RsaCore) (sizeInWords t : Nat) (r : Nat × Mem) : Prop where
  left : r.1 = sizeInWords - t
  words : ∀ j < t, j < sizeInWords →
    r.2.load (4 * (sizeInWords - 1 - j)) 4 = leBytes 4 (xilHtonl (c.region .resY (j + 2))).toNat

theorem Got.next (h : Got c sizeInWords t r) {m : Nat} (hleft : r.1 = m + 1) {w : UInt32}
    (hw : w = c.region .resY (t + 2)) :
    Got c sizeInWords (t + 1) (m, r.2.store (4 * m) (leBytes 4 (xilHtonl w).toNat)) := by
  have hcount : m + 1 = sizeInWords - t := hleft.symm.trans h.left
  have hm : m = sizeInWords - 1 - t := by omega
  refine ⟨show m = sizeInWords - (t + 1) by omega, fun j hj hjs => ?_⟩
  by_cases hjt : j = t
  · subst hjt
    rw [← hm, ← hw]
    exact Mem.load_store _ _ _
  · have hlen : (leBytes 4 (xilHtonl w).toNat).length = 4 := length_leBytes _ _
    rw [Mem.load_store_disj (by rw [hlen]; omega)]
    exact h.words j (by omega) hjs

theorem got_getBuffers (h : Got c sizeInWords t r) (hrow : ∀ i < n, c.ram row (index + i) = c.region .resY (t + i + 2)) :
    Got c sizeInWords (t + n) (getBuffers c row n index r) := by
  induction n generalizing t index r with
  | zero => exact h
  | succ n ih =>
    obtain ⟨left, rdData⟩ := r
    cases left with
    | zero =>
      have hall : sizeInWords ≤ t := by
        have hzero : 0 = sizeInWords - t := h.left
        omega
      exact ⟨show 0 = sizeInWords - (t + (n + 1)) by omega, fun j _ hjs => h.words j (by omega) hjs⟩
    | succ m =>
      have hfirst := h.next rfl (hrow 0 (by omega))
      rw [show t + (n + 1) = t + 1 + n by omega]
      refine ih hfirst fun i hi => ?_
      have hi' := hrow (i + 1) (by omega)
      rwa [show index + (i + 1) = index + 1 + i by omega, show t + (i + 1) = t + 1 + i by omega] at hi'

theorem got_getRows (rdData : Mem) (n : Nat) :
    Got c sizeInWords (xsecureRsaMaxBuff * n - 2) (getRows c n (sizeInWords, rdData)) := by
  induction n with
  | zero => exact ⟨rfl, fun j hj => absurd hj (Nat.not_lt_zero j)⟩
  | succ n ih =>
    have hsteps : xsecureRsaMaxBuff * (n + 1) - 2 =
        xsecureRsaMaxBuff * n - 2 + (xsecureRsaMaxBuff - if n = 0 then 2 else 0) := by
      unfold xsecureRsaMaxBuff
      split <;> omega
    rw [hsteps]
    refine got_getBuffers ih fun i hi => ?_
    -- the place in the row is the place in the result, two words on
    have hplace : xsecureRsaMaxBuff * n - 2 + i + 2 = xsecureRsaMaxBuff * n + ((if n = 0 then 2 else 0) + i) := by
      unfold xsecureRsaMaxBuff
      split <;> omega
    have hin : (if n = 0 then 2 else 0) + i < xsecureRsaMaxBuff := by
      unfold xsecureRsaMaxBuff at *
      split <;> omega
    unfold RsaCore.region
    rw [hplace, Nat.mul_add_div (by decide), Nat.div_eq_of_lt hin, Nat.add_zero, Nat.mul_add_mod, Nat.mod_eq_of_lt hin]

/-- The result, without its first two words. -/
def RsaCore.result (c : RsaCore) (words : Nat) : Nat :=
  Nat.ofDigits (2 ^ 32) ((List.range words).map fun j => (c.region .resY (j + 2)).toNat)

theorem ofBE_getData (rdData : Mem) (hsize : sizeInWords ≤ 130) :
    ofBE ((xsecureRsaGetData sizeInWords c rdData).load 0 (4 * sizeInWords)) = c.result sizeInWords := by
  have hgot := @got_getRows c sizeInWords rdData xsecureRsaMaxRdWrCnt
  rw [ofBE_load_words]
  refine congrArg _ (List.map_congr_left fun j hj => ?_)
  have hlt := List.mem_range.1 hj
  have hword := hgot.words j (by unfold xsecureRsaMaxBuff xsecureRsaMaxRdWrCnt; omega) hlt
  rw [Nat.zero_add]
  exact (congrArg ofBE hword).trans (ofBE_leBytes_xilHtonl _)

end Result

/-! ## The operation -/

/-- The core exponentiates: with the inverse of the modulus in its registers, and in place of the result
what `ext` says of the modulus, the power stands behind the first two words of the result. -/
structure RsaHw.Exponentiates (hw : RsaHw) (ext : Nat → Nat) : Prop where
  power : ∀ (c : RsaCore) (words : Nat) (code : UInt32), rsaType words = some code → c.control = code + 5 →
    c.value .mod < 2 ^ (32 * words) → (c.value .mod * c.minvWord.toNat + 1) % 2 ^ 32 = 0 →
    c.value .resY = ext (c.value .mod) →
    { c with ram := hw.operate c }.result words = c.value .digest ^ c.value .expo % c.value .mod

/-- The status register shows the end of the operation, and no error before, in the polls there are. -/
def RsaHw.Done (hw : RsaHw) (tick polls : Nat) : Prop :=
  ∃ k < polls, hw.status (tick + k) &&& 1 = 1 ∧ ∀ j ≤ k, hw.status (tick + j) &&& 4 ≠ 4

section Operation

variable {hw : RsaHw} {s : RsaState} {words : Nat} {code : UInt32} {ext : Nat → Nat}

theorem RsaHw.Done.succ_iff {tick polls : Nat} : hw.Done tick (polls + 1) ↔
    hw.status tick &&& 4 ≠ 4 ∧ (hw.status tick &&& 1 = 1 ∨ hw.Done (tick + 1) polls) := by
  constructor
  · rintro ⟨k, hk, hdone, herr⟩
    refine ⟨herr 0 (Nat.zero_le k), ?_⟩
    cases k with
    | zero => exact .inl hdone
    | succ k =>
      refine .inr ⟨k, by omega, ?_, fun j hj => ?_⟩
      · rwa [show tick + 1 + k = tick + (k + 1) by omega]
      · rw [show tick + 1 + j = tick + (j + 1) by omega]
        exact herr (j + 1) (by omega)
  · rintro ⟨herr, hdone | ⟨k, hk, hdone, hrest⟩⟩
    · exact ⟨0, by omega, hdone, fun j hj => by rwa [Nat.le_zero.1 hj]⟩
    · refine ⟨k + 1, by omega, ?_, fun j hj => ?_⟩
      · rwa [show tick + (k + 1) = tick + 1 + k by omega]
      · cases j with
        | zero => exact herr
        | succ j =>
          rw [show tick + (j + 1) = tick + 1 + j by omega]
          exact hrest j (by omega)

theorem waitForDone_run (polls : Nat) (s : RsaState) :
    ∃ status t, waitForDone hw polls s = .ok status t ∧ t.core = s.core ∧
      (status = xfsblSuccess ↔ hw.Done s.tick polls) := by
  have hfail : xstFailure ≠ xfsblSuccess := by decide
  induction polls generalizing s with
  | zero =>
    refine ⟨_, _, rfl, rfl, iff_of_false hfail ?_⟩
    rintro ⟨k, hk, -⟩
    omega
  | succ polls ih =>
    rw [waitForDone, bind_apply, RsaHw.Done.succ_iff]
    show ∃ status t, (if hw.status s.tick &&& 4 = 4 then pure xstFailure
      else if hw.status s.tick &&& 1 = 1 then pure xfsblSuccess else waitForDone hw polls : RsaM UInt32)
        { s with tick := s.tick + 1 } = _ ∧ _
    by_cases herr : hw.status s.tick &&& 4 = 4
    · rw [if_pos herr]
      exact ⟨_, _, rfl, rfl, iff_of_false hfail fun h => h.1 herr⟩
    rw [if_neg herr]
    by_cases hdone : hw.status s.tick &&& 1 = 1
    · rw [if_pos hdone]
      exact ⟨_, _, rfl, rfl, iff_of_true rfl ⟨herr, .inl hdone⟩⟩
    rw [if_neg hdone]
    obtain ⟨status, t, hrun, hcore, hiff⟩ := ih { s with tick := s.tick + 1 }
    exact ⟨status, t, hrun, hcore, hiff.trans ⟨fun h => ⟨herr, .inr h⟩, fun h => h.2.resolve_left hdone⟩⟩

theorem rsaType_le (h : rsaType words = some code) : 16 ≤ words ∧ words ≤ 128 := by
  unfold rsaType at h
  split at h
  all_goals cases h
  all_goals exact ⟨by decide, by decide⟩

theorem isNonZeroBuffer_iff (data : Mem) : xsecureIsNonZeroBuffer data 4 = true ↔ ofBE (data.load 0 4) ≠ 0 := by
  simp only [xsecureIsNonZeroBuffer, Mem.load, List.any_cons, List.any_nil, ofBE, ofLE, List.reverse_cons,
    List.reverse_nil, List.nil_append, List.cons_append, Bool.or_eq_true, bne_iff_ne, ne_eq, ← UInt8.toNat_inj]
  simp
  omega

/-- The core when the operation starts. -/
def startCore (rsa : XSecureRsa) (input : Mem) (code : UInt32) (c : RsaCore) : RsaCore :=
  (xsecureRsaMod32Inverse rsa (xsecureRsaWriteMem rsa.sizeInWords input .digest (xsecureRsaPutData rsa c))).write
    .control (code + if rsa.modExt.isSome then 5 else 1)

variable {mod modExt modExpo input : Mem} {c : RsaCore}

theorem ram_mod32Inverse (rsa : XSecureRsa) (c : RsaCore) : (xsecureRsaMod32Inverse rsa c).ram = c.ram := by
  unfold xsecureRsaMod32Inverse
  rfl

theorem ram_startCore (rsa : XSecureRsa) : (startCore rsa input code c).ram =
    (xsecureRsaWriteMem rsa.sizeInWords input .digest (xsecureRsaPutData rsa c)).ram := by
  unfold startCore
  exact ram_mod32Inverse rsa _

theorem minvWord_startCore (rsa : XSecureRsa) :
    (startCore rsa input code c).minvWord = (xsecureRsaMod32Inverse rsa c).minvWord := by
  have hwrite (c : RsaCore) (v : UInt32) : (c.write .control v).minvWord = c.minvWord := rfl
  rw [startCore, hwrite, minvWord_mod32Inverse, minvWord_mod32Inverse]

theorem value_startCore (hsize : words ≤ 132) :
    let start := startCore ⟨mod, some modExt, modExpo, words⟩ input code c
    start.value .expo = ofBE (modExpo.load 0 4) ∧ start.value .mod = ofBE (mod.load 0 (4 * words)) ∧
      start.value .resY = ofBE (modExt.load 0 (4 * words)) ∧
      start.value .digest = ofBE (input.load 0 (4 * words)) := by
  intro start
  have hram (r : RamOffset) : start.value r = (xsecureRsaWriteMem words input .digest
      (xsecureRsaWriteMem words modExt .resY (xsecureRsaWriteMem words mod .mod
        (xsecureRsaWriteMem words modExpo .expo c)))).value r := value_of_ram (ram_startCore _) r
  refine ⟨?_, ?_, ?_, ?_⟩
  · rw [hram, value_writeMem_other (by decide), value_writeMem_other (by decide), value_writeMem_other (by decide),
      value_writeMem_expo]
  · rw [hram, value_writeMem_other (by decide), value_writeMem_other (by decide),
      value_writeMem (by decide) hsize]
  · rw [hram, value_writeMem_other (by decide), value_writeMem (by decide) hsize]
  · rw [hram, value_writeMem (by decide) hsize]

/-- What the core computes is the power. -/
theorem result_startCore (h : hw.Exponentiates ext) (hcode : rsaType words = some code)
    (hodd : ofBE (mod.load 0 (4 * words)) % 2 = 1)
    (hext : ofBE (modExt.load 0 (4 * words)) = ext (ofBE (mod.load 0 (4 * words)))) :
    let start := startCore ⟨mod, some modExt, modExpo, words⟩ input code c
    { start with ram := hw.operate start }.result words =
      ofBE (input.load 0 (4 * words)) ^ ofBE (modExpo.load 0 4) % ofBE (mod.load 0 (4 * words)) := by
  intro start
  obtain ⟨hlo, hhi⟩ := rsaType_le hcode
  obtain ⟨hexpo, hmod, hresY, hdigest⟩ := @value_startCore words code mod modExt modExpo input c (by omega)
  have hlt : start.value .mod < 2 ^ (32 * words) := by
    have hmodlt := ofBE_lt (mod.load 0 (4 * words))
    rw [Mem.length_load, show 256 = 2 ^ 8 by norm_num, ← pow_mul, show 8 * (4 * words) = 32 * words by omega] at hmodlt
    rwa [hmod]
  have hminv : (start.value .mod * start.minvWord.toNat + 1) % 2 ^ 32 = 0 := by
    rw [hmod, minvWord_startCore]
    exact mul_minvWord ⟨mod, some modExt, modExpo, words⟩ c (by show 0 < words; omega) hodd
  have hpower := h.power start words code hcode rfl hlt hminv (by rw [hresY, hmod, hext])
  rw [hpower, hdigest, hexpo, hmod]

/-- A public operation returns; it succeeds if and only if the exponent is not zero and the core says it is done
in time, and then gives the result the core left. -/
theorem rsaPublicEncrypt_run (hcode : rsaType words = some code) (n : Nat) (result : Mem) (s : RsaState) :
    ∃ status out t,
      xsecureRsaPublicEncrypt hw ⟨mod, some modExt, modExpo, n⟩ input (4 * words) result s = .ok (status, out) t ∧
      (status = xfsblSuccess ↔ ofBE (modExpo.load 0 4) ≠ 0 ∧ hw.Done s.tick xsecureTimeoutMax) ∧
      (status = xfsblSuccess → ofBE (out.load 0 (4 * words)) =
        let start := startCore ⟨mod, some modExt, modExpo, words⟩ input code s.core
        { start with ram := hw.operate start }.result words) := by
  have hinvalid : xsecureRsaInvalidParam ≠ xfsblSuccess := by decide
  obtain ⟨hlo, hhi⟩ := rsaType_le hcode
  unfold xsecureRsaPublicEncrypt
  by_cases hexpo : xsecureIsNonZeroBuffer modExpo 4 = true
  · rw [if_pos hexpo]
    obtain ⟨start, hstart⟩ : ∃ start, start = startCore ⟨mod, some modExt, modExpo, words⟩ input code s.core :=
      ⟨_, rfl⟩
    obtain ⟨status, t, hwait, hcore, hiff⟩ := @waitForDone_run hw xsecureTimeoutMax { s with core := start }
    have hrun : xsecureRsaOperation hw ⟨mod, some modExt, modExpo, n⟩ input result (4 * words) s =
        (waitForDone hw xsecureTimeoutMax >>= fun errorCode =>
          if errorCode ≠ xfsblSuccess then pure (errorCode, result)
          else do
            modify fun s => { s with core := { s.core with ram := hw.operate s.core } }
            let s ← get
            pure (errorCode, xsecureRsaGetData words s.core result) : RsaM (UInt32 × Mem))
          { s with core := start } := by
      unfold xsecureRsaOperation
      simp only [Nat.mul_div_cancel_left words (by decide : 0 < 4), hcode, hstart]
      rfl
    rw [hrun, bind_apply, hwait]
    have hsucc : status = xfsblSuccess ↔ ofBE (modExpo.load 0 4) ≠ 0 ∧ hw.Done s.tick xsecureTimeoutMax :=
      hiff.trans ⟨fun hd => ⟨(isNonZeroBuffer_iff modExpo).1 hexpo, hd⟩, fun hd => hd.2⟩
    by_cases hs : status = xfsblSuccess
    · refine ⟨status, xsecureRsaGetData words { t.core with ram := hw.operate t.core } result,
        { t with core := { t.core with ram := hw.operate t.core } }, ?_, hsucc, fun _ => ?_⟩
      · dsimp only
        rw [if_neg (not_not_intro hs)]
        rfl
      · rw [ofBE_getData _ (by omega), hcore, hstart]
    · refine ⟨status, result, t, ?_, hsucc, fun hs' => absurd hs' hs⟩
      dsimp only
      rw [if_pos hs]
      rfl
  · rw [if_neg hexpo]
    exact ⟨_, _, _, rfl, iff_of_false hinvalid fun hn => hexpo ((isNonZeroBuffer_iff modExpo).2 hn.1),
      fun hs => absurd hs hinvalid⟩

/-- **A public operation computes the power**: it succeeds if and only if the exponent is not zero and the
core says it is done in time; then what comes back is the signature to the exponent, modulo the modulus, all
of them big-endian numbers. For each key size, an odd modulus and its extension. -/
theorem rsaPublicEncrypt_computes (h : hw.Exponentiates ext) (hcode : rsaType words = some code)
    (hodd : ofBE (mod.load 0 (4 * words)) % 2 = 1)
    (hext : ofBE (modExt.load 0 (4 * words)) = ext (ofBE (mod.load 0 (4 * words)))) (n : Nat) (result : Mem)
    (s : RsaState) :
    ∃ status out t,
      xsecureRsaPublicEncrypt hw ⟨mod, some modExt, modExpo, n⟩ input (4 * words) result s = .ok (status, out) t ∧
      (status = xfsblSuccess ↔ ofBE (modExpo.load 0 4) ≠ 0 ∧ hw.Done s.tick xsecureTimeoutMax) ∧
      (status = xfsblSuccess → ofBE (out.load 0 (4 * words)) =
        ofBE (input.load 0 (4 * words)) ^ ofBE (modExpo.load 0 4) % ofBE (mod.load 0 (4 * words))) := by
  obtain ⟨status, out, t, hrun, hiff, hout⟩ := @rsaPublicEncrypt_run hw words code mod modExt modExpo input hcode
    n result s
  exact ⟨status, out, t, hrun, hiff, fun hs => (hout hs).trans (result_startCore h hcode hodd hext)⟩

end Operation

/-! ### A core -/

/-- A core that is done at once, and leaves the power behind the first two words of the result. -/
def powerHw : RsaHw where
  cryptoCheck _ := xfsblSuccess
  status _ := 1
  operate c row i :=
    .ofNat (c.value .digest ^ c.value .expo % c.value .mod / (2 ^ 32) ^ (row * 6 + i - 530))
  psVersion := 3

/-- `R * R` modulo the modulus, of 4096 bits. -/
def squaredExt (n : Nat) : Nat := 2 ^ 8192 % n

theorem powerHw_exponentiates (ext : Nat → Nat) : powerHw.Exponentiates ext := by
  refine ⟨fun c words code _ _ hlt hminv _ => ?_⟩
  have hpos : 0 < c.value .mod := by
    refine Nat.pos_of_ne_zero fun hzero => ?_
    rw [hzero, Nat.zero_mul] at hminv
    simp at hminv
  generalize hx : c.value .digest ^ c.value .expo % c.value .mod = x
  have hxlt : x < (2 ^ 32) ^ words := by
    rw [← pow_mul, ← hx]
    exact lt_trans (Nat.mod_lt _ hpos) hlt
  have hword (j : Nat) : (({ c with ram := powerHw.operate c } : RsaCore).region .resY (j + 2)).toNat =
      x / (2 ^ 32) ^ j % 2 ^ 32 := by
    have hplace : (RamOffset.resY.row * xsecureRsaMaxRdWrCnt + (j + 2) / xsecureRsaMaxBuff) * 6 +
        (j + 2) % xsecureRsaMaxBuff - 530 = j := by
      unfold RamOffset.row xsecureRsaMaxRdWrCnt xsecureRsaMaxBuff
      simp only
      omega
    show (UInt32.ofNat (c.value .digest ^ c.value .expo % c.value .mod / (2 ^ 32) ^ _)).toNat = _
    rw [hx, hplace, UInt32.toNat_ofNat']
  unfold RsaCore.result
  simp only [hword]
  rw [ofDigits_range_div, Nat.mod_eq_of_lt hxlt]

/-- The key of modulus `2 ^ 4096 - 1` and exponent 65537. -/
def onesKey : XSecureRsa where
  mod _ := 0xFF
  modExt := some fun i => if i = 511 then 1 else 0
  modExpo i := if i = 1 ∨ i = 3 then 1 else 0
  sizeInWords := 128

def twoSignature : Mem := fun i => if i = 511 then 2 else 0

def idleState : RsaState := ⟨0, ⟨fun _ => 0, fun _ _ => 0, 0, fun _ => 0, 0⟩⟩

theorem mod32Inverse_iff_onesKey :
    (onesKey.modulus * (xsecureRsaMod32Inverse onesKey idleState.core).minvWord.toNat + 1) % 2 ^ 32 = 0 :=
  (mod32Inverse_iff onesKey idleState.core (by decide)).2 (by decide +kernel)

/-- The power of 2: `2 ^ 65537` is 2 modulo `2 ^ 4096 - 1`. -/
theorem rsaPublicEncrypt_computes_onesKey :
    ∃ status out t,
      xsecureRsaPublicEncrypt powerHw onesKey twoSignature (4 * 128) (fun _ => 0) idleState = .ok (status, out) t ∧
      status = xfsblSuccess ∧ ofBE (out.load 0 (4 * 128)) = 2 := by
  obtain ⟨status, out, t, hrun, hiff, hpower⟩ := @rsaPublicEncrypt_computes powerHw 128 0xC0 squaredExt
    onesKey.mod (fun i => if i = 511 then 1 else 0) onesKey.modExpo twoSignature
    (powerHw_exponentiates squaredExt) rfl (by decide +kernel) (by decide +kernel) 128 (fun _ => 0) idleState
  have hsucc : status = xfsblSuccess :=
    hiff.2 ⟨by decide +kernel, 0, by decide, by decide, fun j hj => by rw [Nat.le_zero.1 hj]; decide⟩
  refine ⟨status, out, t, hrun, hsucc, (hpower hsucc).trans ?_⟩
  decide +kernel

end MeasuredBoot.Rsa
