import MeasuredBoot.Status
import Mathlib.Data.Nat.Basic

/-!
# The geometry of a DIMM from its SPD

What `XFsbl_DdrComputeDimmParameters` makes of the bytes of the EEPROM, up to the fields that the address map
is computed from: the memory type, the ranks, the width of the bus and the numbers of address
bits. The timing parameters, the capacity and the part number are not among them.
-/

namespace MeasuredBoot.Ddr

/-! ## Source -/

/-- `SpdData` of `XFsbl_DdrInit`. -/
abbrev Spd := Fin 512 → UInt8

def spdMemtypeDdr3 : UInt8 := 0x0B
def spdMemtypeDdr4 : UInt8 := 0x0C
def spdMemtypeLpddr3 : UInt8 := 0x0F
def spdMemtypeLpddr4 : UInt8 := 0x10

def ddr3SpdModuletypeMask : UInt8 := 0x0F
def ddr3SpdModuletypeRdimm : UInt8 := 0x01
def ddr3SpdModuletypeUdimm : UInt8 := 0x02
def ddr3SpdModuletypeSoDimm : UInt8 := 0x03
def ddr3SpdModuletypeMicroDimm : UInt8 := 0x04
def ddr3SpdModuletypeMiniRdimm : UInt8 := 0x05
def ddr3SpdModuletypeMiniUdimm : UInt8 := 0x06
def ddr3SpdModuletypeMiniCdimm : UInt8 := 0x07
def ddr3SpdModuletype72bSoUdimm : UInt8 := 0x08
def ddr3SpdModuletype72bSoRdimm : UInt8 := 0x09
def ddr3SpdModuletype72bSoCdimm : UInt8 := 0x0A
def ddr3SpdModuletypeLrdimm : UInt8 := 0x0B
def ddr3SpdModuletype16bSoDimm : UInt8 := 0x0C
def ddr3SpdModuletype32bSoDimm : UInt8 := 0x0D

def ddr4SpdModuletypeMask : UInt8 := 0x0F
def ddr4SpdModuletypeRdimm : UInt8 := 0x01
def ddr4SpdModuletypeUdimm : UInt8 := 0x02
def ddr4SpdModuletypeSoDimm : UInt8 := 0x03
def ddr4SpdModuletype72bSoRdimm : UInt8 := 0x08
def ddr4SpdModuletype72bSoUdimm : UInt8 := 0x09

/-- `XFsbl_DimmParams`. -/
structure DimmParams where
  memType : UInt8
  nRanks : Nat
  busWidth : Nat
  uDimm : Nat
  rDimm : Nat
  numRankAddr : Nat
  numRowAddr : Nat
  numColAddr : Nat
  numBankAddr : Nat
  numBgAddr : Nat
  deriving DecidableEq, Inhabited

/-- `while (XVal != 1U) { RVal = RVal + 1U; XVal = XVal >> 1U; }`; a word is 1 after 31 steps. -/
def getLog2Loop : Nat → Nat → Nat → Nat
  | 0, _, rVal => rVal
  | steps + 1, xVal, rVal =>
    if xVal ≠ 1 then getLog2Loop steps (xVal >>> 1) (rVal + 1) else rVal

def getLog2 (xVal : Nat) : Nat := if xVal = 0 then 0 else getLog2Loop 32 xVal 0

/-- The type, the ranks and the bus, from the two bytes that hold `Organization` and `BusWidth`. -/
def organization (spd : Spd) (org bus : Fin 512) (d : DimmParams) : DimmParams :=
  { d with
    memType := spd 2
    nRanks := (spd org >>> 3 &&& 0x7).toNat + 1
    busWidth := 1 <<< (3 + (spd bus &&& 0x7).toNat)
    rDimm := 0 }

/-- The numbers of address bits, from `Addressing` and `DensityBanks`. -/
def addressing (spd : Spd) (d : DimmParams) : DimmParams :=
  { d with
    numRowAddr := (spd 5 >>> 3 &&& 0x7).toNat + 12
    numColAddr := (spd 5 &&& 0x7).toNat + 9
    numBankAddr := (spd 4 >>> 4 &&& 0x3).toNat + 2
    numBgAddr := (spd 4 >>> 6 &&& 0x3).toNat
    numRankAddr := getLog2 d.nRanks }

def computeDdr4Params (spd : Spd) (d : DimmParams) : UInt32 × DimmParams :=
  let d := organization spd 12 13 d
  let moduleType := spd 3 &&& ddr4SpdModuletypeMask
  if moduleType = ddr4SpdModuletypeRdimm ∨ moduleType = ddr4SpdModuletype72bSoRdimm then
    (xfsblSuccess, addressing spd { d with rDimm := 1 })
  else if moduleType = ddr4SpdModuletypeUdimm ∨ moduleType = ddr4SpdModuletypeSoDimm ∨
      moduleType = ddr4SpdModuletype72bSoUdimm then
    (xfsblSuccess, addressing spd { d with uDimm := 1 })
  else (xfsblFailure, d)

/-- An unbuffered DDR3 module leaves `UDimm` as it was. -/
def computeDdr3Params (spd : Spd) (d : DimmParams) : UInt32 × DimmParams :=
  let d := organization spd 7 8 d
  let moduleType := spd 3 &&& ddr3SpdModuletypeMask
  if moduleType = ddr3SpdModuletypeRdimm ∨ moduleType = ddr3SpdModuletypeMiniRdimm ∨
      moduleType = ddr3SpdModuletype72bSoRdimm then
    (xfsblSuccess, addressing spd { d with rDimm := 1 })
  else if moduleType = ddr3SpdModuletypeUdimm ∨ moduleType = ddr3SpdModuletypeSoDimm ∨
      moduleType = ddr3SpdModuletypeMicroDimm ∨ moduleType = ddr3SpdModuletypeMiniUdimm ∨
      moduleType = ddr3SpdModuletypeMiniCdimm ∨ moduleType = ddr3SpdModuletype72bSoUdimm ∨
      moduleType = ddr3SpdModuletype72bSoCdimm ∨ moduleType = ddr3SpdModuletypeLrdimm ∨
      moduleType = ddr3SpdModuletype16bSoDimm ∨ moduleType = ddr3SpdModuletype32bSoDimm then
    (xfsblSuccess, addressing spd d)
  else (xfsblFailure, d)

def computeLpDdrParams (spd : Spd) (d : DimmParams) : UInt32 × DimmParams :=
  (xfsblSuccess, addressing spd (organization spd 12 13 d))

def ddrComputeDimmParameters (spd : Spd) (d : DimmParams) : UInt32 × DimmParams :=
  if spd 2 = spdMemtypeDdr4 then computeDdr4Params spd d
  else if spd 2 = spdMemtypeDdr3 then computeDdr3Params spd d
  else if spd 2 = spdMemtypeLpddr3 ∨ spd 2 = spdMemtypeLpddr4 then computeLpDdrParams spd d
  else (xfsblFailure, d)

/-! ## The logarithm -/

theorem getLog2Loop_eq {steps xVal : Nat} (h0 : xVal ≠ 0) (h : xVal < 2 ^ steps) (rVal : Nat) :
    getLog2Loop steps xVal rVal = rVal + xVal.log2 := by
  induction steps generalizing xVal rVal with
  | zero => omega
  | succ steps ih =>
    rw [getLog2Loop, Nat.log2_def]
    by_cases h1 : xVal = 1
    · simp [h1]
    · have hhalf : xVal >>> 1 = xVal / 2 := Nat.shiftRight_one xVal
      rw [if_pos h1, if_pos (by omega), hhalf, ih (by omega) (by rw [Nat.pow_succ] at h; omega)]
      omega

theorem getLog2_eq {xVal : Nat} (h : xVal < 2 ^ 32) : getLog2 xVal = xVal.log2 := by
  rw [getLog2]
  split
  · rename_i h0
    rw [h0, Nat.log2_zero]
  · rename_i h0
    rw [getLog2Loop_eq h0 h, Nat.zero_add]

/-! ## What the fields can be -/

/-- The geometries an SPD can encode. -/
structure Encoded (d : DimmParams) : Prop where
  ranks : 1 ≤ d.nRanks ∧ d.nRanks ≤ 8
  rankAddr : d.numRankAddr = d.nRanks.log2
  row : 12 ≤ d.numRowAddr ∧ d.numRowAddr ≤ 19
  col : 9 ≤ d.numColAddr ∧ d.numColAddr ≤ 16
  bank : 2 ≤ d.numBankAddr ∧ d.numBankAddr ≤ 5
  bg : d.numBgAddr ≤ 3

theorem and_le_mask (x mask : UInt8) : (x &&& mask).toNat ≤ mask.toNat := by
  rw [UInt8.toNat_and]
  exact Nat.and_le_right

theorem encoded_addressing {d : DimmParams} (spd : Spd) (h : 1 ≤ d.nRanks ∧ d.nRanks ≤ 8) :
    Encoded (addressing spd d) where
  ranks := h
  rankAddr := getLog2_eq (Nat.lt_of_le_of_lt h.2 (by decide))
  row := ⟨Nat.le_add_left .., Nat.add_le_add_right (and_le_mask _ _) 12⟩
  col := ⟨Nat.le_add_left .., Nat.add_le_add_right (and_le_mask _ _) 9⟩
  bank := ⟨Nat.le_add_left .., Nat.add_le_add_right (and_le_mask _ _) 2⟩
  bg := and_le_mask _ _

theorem ranks_organization (spd : Spd) (org bus : Fin 512) (d : DimmParams) :
    1 ≤ (organization spd org bus d).nRanks ∧ (organization spd org bus d).nRanks ≤ 8 :=
  ⟨Nat.le_add_left .., Nat.add_le_add_right (and_le_mask _ _) 1⟩

/-- **Every geometry that is computed with success is one of them.** -/
theorem encoded_of_success {spd : Spd} {d d' : DimmParams}
    (h : ddrComputeDimmParameters spd d = (xfsblSuccess, d')) : Encoded d' := by
  have hfail : xfsblFailure ≠ xfsblSuccess := by decide
  have hranks (org bus : Fin 512) := ranks_organization spd org bus d
  unfold ddrComputeDimmParameters at h
  split at h
  · simp only [computeDdr4Params] at h
    split at h
    · cases h
      exact encoded_addressing spd (hranks 12 13)
    · split at h
      · cases h
        exact encoded_addressing spd (hranks 12 13)
      · exact absurd (Prod.mk.inj h).1 hfail
  · split at h
    · simp only [computeDdr3Params] at h
      split at h
      · cases h
        exact encoded_addressing spd (hranks 7 8)
      · split at h
        · cases h
          exact encoded_addressing spd (hranks 7 8)
        · exact absurd (Prod.mk.inj h).1 hfail
    · split at h
      · cases h
        exact encoded_addressing spd (hranks 12 13)
      · exact absurd (Prod.mk.inj h).1 hfail

end MeasuredBoot.Ddr
