import MeasuredBoot.DdrHif
import MeasuredBoot.Lib.Lanes
import Mathlib.Logic.Function.Basic

/-!
# `XFsbl_DdrCalcAddrMap`

The searches over the HIF table, the twelve address map registers, and what the controller reads from them: the
position on the host interface of each address bit of the DRAM.
-/

namespace MeasuredBoot.Ddr

open Table Lanes

/-! ## Source -/

def xfsblMaxRows : Nat := 18
def xfsblMaxColumns : Nat := 12
def xfsblMaxBanks : Nat := 3
def xfsblMaxBankGroups : Nat := 2

def xfsblDdrcBaseAddr : UInt32 := 0xFD070000

structure DdrcInitData where
  addrMapRowBit : Nat → UInt32
  addrMapColBit : Nat → UInt32
  addrMapBankBit : Nat → UInt32
  addrMapBgBit : Nat → UInt32
  addrMapCsBit0 : UInt32
  addrMapRowBits2To10 : UInt32
  pDimm : DimmParams

/-- `for (; count != 0; bit++, count--) map[bit] = f(bit);` -/
def forBits (f : Nat → Option UInt32) : Nat → Nat → (Nat → UInt32) → Option (Nat → UInt32)
  | _, 0, map => some map
  | bit, count + 1, map =>
    (f bit).bind fun field => forBits f (bit + 1) count (Function.update map bit field)

/-- The field of a bit: how far above `first` its code is found, or `unused` if the DIMM does not have
the bit. -/
def calcBit (t : List Nat) (code first bit num : Nat) (unused : UInt32) : Option UInt32 :=
  if bit < num then (search t code first).map fun index => .ofNat (index - first)
  else some unused

def ddrCalcBankAddr (d : DdrcInitData) (t : List Nat) : Option DdrcInitData := do
  let map ← forBits (fun bankBit => calcBit t (hifBank bankBit) (bankBit + 2) bankBit
    d.pDimm.numBankAddr 0x1F) 0 xfsblMaxBanks d.addrMapBankBit
  return { d with addrMapBankBit := map }

/-- The index is compared with the one the search began at. -/
def ddrCalcBgAddr (d : DdrcInitData) (t : List Nat) : Option DdrcInitData := do
  let map ← forBits (fun bgBit =>
    if bgBit < d.pDimm.numBgAddr then
      (search t (hifBg bgBit) (bgBit + 2)).map fun index =>
        if bgBit + 2 ≤ index then .ofNat (index - (bgBit + 2)) else 0
    else some 0x1F) 0 xfsblMaxBankGroups d.addrMapBgBit
  return { d with addrMapBgBit := map }

def ddrCalcColAddr (d : DdrcInitData) (t : List Nat) : Option DdrcInitData := do
  let map ← forBits (fun colBit => calcBit t (hifColumn colBit) colBit colBit
    d.pDimm.numColAddr 0xF) 2 (xfsblMaxColumns - 2) d.addrMapColBit
  return { d with addrMapColBit := map }

def ddrCalcRowAddr (d : DdrcInitData) (t : List Nat) : Option DdrcInitData := do
  let d := { d with addrMapRowBits2To10 := 15 }
  let map ← forBits (fun rowBit => calcBit t (hifRow rowBit) (rowBit + 6) rowBit
    d.pDimm.numRowAddr 0xF) 0 xfsblMaxRows d.addrMapRowBit
  return { d with addrMapRowBit := map }

/-- `RegVal[12U]`. -/
def regVal (d : DdrcInitData) : Nat → UInt32
  | 0 => lane 0x1F d.addrMapCsBit0 0
  | 1 =>
    lane 0x1F (d.addrMapBankBit 2) 16 ||| lane 0x1F (d.addrMapBankBit 1) 8 |||
      lane 0x1F (d.addrMapBankBit 0) 0
  | 2 =>
    lane 0xF (d.addrMapColBit 5) 24 ||| lane 0xF (d.addrMapColBit 4) 16 |||
      lane 0xF (d.addrMapColBit 3) 8 ||| lane 0xF (d.addrMapColBit 2) 0
  | 3 =>
    lane 0xF (d.addrMapColBit 9) 24 ||| lane 0xF (d.addrMapColBit 8) 16 |||
      lane 0xF (d.addrMapColBit 7) 8 ||| lane 0xF (d.addrMapColBit 6) 0
  | 4 => lane 0xF (d.addrMapColBit 11) 8 ||| lane 0xF (d.addrMapColBit 10) 0
  | 5 =>
    lane 0xF (d.addrMapRowBit 11) 24 ||| lane 0xF d.addrMapRowBits2To10 16 |||
      lane 0xF (d.addrMapRowBit 1) 8 ||| lane 0xF (d.addrMapRowBit 0) 0
  | 6 =>
    lane 0xF (d.addrMapRowBit 15) 24 ||| lane 0xF (d.addrMapRowBit 14) 16 |||
      lane 0xF (d.addrMapRowBit 13) 8 ||| lane 0xF (d.addrMapRowBit 12) 0
  | 7 => lane 0xF (d.addrMapRowBit 17) 8 ||| lane 0xF (d.addrMapRowBit 16) 0
  | 8 => lane 0x1F (d.addrMapBgBit 1) 8 ||| lane 0x1F (d.addrMapBgBit 0) 0
  | 9 =>
    lane 0xF (d.addrMapRowBit 5) 24 ||| lane 0xF (d.addrMapRowBit 4) 16 |||
      lane 0xF (d.addrMapRowBit 3) 8 ||| lane 0xF (d.addrMapRowBit 2) 0
  | 10 =>
    lane 0xF (d.addrMapRowBit 9) 24 ||| lane 0xF (d.addrMapRowBit 8) 16 |||
      lane 0xF (d.addrMapRowBit 7) 8 ||| lane 0xF (d.addrMapRowBit 6) 0
  | _ => lane 0xF (d.addrMapRowBit 10) 0

/-- The address of a register. -/
def addrMapReg (index : Nat) : UInt32 := xfsblDdrcBaseAddr + 0x200 + .ofNat (index * 4)

/-- The writes to the registers, in order. -/
def registers (d : DdrcInitData) : List (UInt32 × UInt32) :=
  (List.range 12).map fun index => (addrMapReg index, regVal d index)

/-- The data and the writes to the registers; nothing if an index leaves the table. -/
def ddrCalcAddrMap (b : Build) (d : DdrcInitData) :
    Option (DdrcInitData × List (UInt32 × UInt32)) := do
  let t ← hifTable b d.pDimm
  let d ← ddrCalcBankAddr d t.toList
  let d ← ddrCalcColAddr d t.toList
  let d ← ddrCalcRowAddr d t.toList
  let d ← ddrCalcBgAddr d t.toList
  let d := { d with addrMapCsBit0 := 0x1F }
  return (d, registers d)

/-! ## What the controller reads -/

/-- The address bits of a DRAM. -/
inductive DramBit
  | column (n : Nat)
  | bank (n : Nat)
  | bankGroup (n : Nat)
  | row (n : Nat)
  | rank (n : Nat)
  deriving DecidableEq, Inhabited

/-- Where a bit is selected: the register, the lane, and the HIF index a field of 0 stands for. -/
structure Selector where
  reg : Nat
  shift : UInt32
  mask : UInt32
  base : Nat

/-- The selectors of the controller. It has none for columns from 12 on, rows from 18 on, banks from 3
on, bank groups from 2 on and ranks from 1 on. -/
def selector (csBase : Nat) : DramBit → Option Selector
  | .column n =>
    if n < 2 then none
    else if n < 6 then some ⟨2, .ofNat (8 * (n - 2)), 0xF, n⟩
    else if n < 10 then some ⟨3, .ofNat (8 * (n - 6)), 0xF, n⟩
    else if n < 12 then some ⟨4, .ofNat (8 * (n - 10)), 0xF, n⟩
    else none
  | .bank n => if n < 3 then some ⟨1, .ofNat (8 * n), 0x1F, n + 2⟩ else none
  | .bankGroup n => if n < 2 then some ⟨8, .ofNat (8 * n), 0x1F, n + 2⟩ else none
  | .row n =>
    if n < 2 then some ⟨5, .ofNat (8 * n), 0xF, n + 6⟩
    else if n < 6 then some ⟨9, .ofNat (8 * (n - 2)), 0xF, n + 6⟩
    else if n < 10 then some ⟨10, .ofNat (8 * (n - 6)), 0xF, n + 6⟩
    else if n < 11 then some ⟨11, 0, 0xF, n + 6⟩
    else if n < 12 then some ⟨5, 24, 0xF, n + 6⟩
    else if n < 16 then some ⟨6, .ofNat (8 * (n - 12)), 0xF, n + 6⟩
    else if n < 18 then some ⟨7, .ofNat (8 * (n - 16)), 0xF, n + 6⟩
    else none
  | .rank n => if n < 1 then some ⟨0, 0, 0x1F, csBase⟩ else none

/-- The HIF index in a field; a field of ones, which is what the source writes for a bit the DIMM does not have, selects
none. -/
def Selector.position (s : Selector) (writes : List (UInt32 × UInt32)) : Option Nat :=
  (writes.lookup (addrMapReg s.reg)).bind fun word =>
    let field := ofLane s.mask word s.shift
    if field = s.mask then none else some (field.toNat + s.base)

/-- Where the registers put a bit. -/
def position (csBase : Nat) (writes : List (UInt32 × UInt32)) (x : DramBit) : Option Nat :=
  (selector csBase x).bind fun s => s.position writes

/-- The bits that have to be put somewhere: the columns from 2 on, and all others. -/
def DramBit.Needed (d : DimmParams) : DramBit → Prop
  | .column n => 2 ≤ n ∧ n < d.numColAddr
  | .bank n => n < d.numBankAddr
  | .bankGroup n => n < d.numBgAddr
  | .row n => n < d.numRowAddr
  | .rank n => n < d.numRankAddr

/-- **Every bit has a place and no two bits have the same one.** -/
structure Places (csBase : Nat) (d : DimmParams) (writes : List (UInt32 × UInt32)) : Prop where
  placed : ∀ x : DramBit, x.Needed d → ∃ p, position csBase writes x = some p
  distinct : ∀ x y : DramBit, x.Needed d → y.Needed d →
    position csBase writes x = position csBase writes y → x = y

end MeasuredBoot.Ddr
