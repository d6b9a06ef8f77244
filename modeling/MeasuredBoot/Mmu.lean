import Mathlib.Data.Nat.Bitwise
import Mathlib.Logic.Function.Basic
import Mathlib.Tactic.NormNum

/-!
# The DDR in the translation tables (`XFsbl_MarkDdrAsReserved`, `XFsbl_SetTlbAttributes`)

The DDR is hidden until it is initialised: its blocks are marked as reserved or as memory in the table of level 2
below 4 GB, in blocks of 2 MB, and in the table of level 1 above, in blocks of 1 GB. `markDdr_walk` says what marking
does to the translation of every address.
-/

namespace MeasuredBoot.Mmu

/-! ## Source -/

def blockSize2MB : Nat := 0x200000
def blockSize1GB : Nat := 0x40000000
def addressLimit4GB : Nat := 0x100000000
def blockSizeA53_64 : Nat := 0x200000
def numBlocksA53_64 : Nat := 0x400
def blockSizeA53_64High : Nat := 0x40000000
def attribMemoryA53_64 : Nat := 0x705
def attribReservedA53 : Nat := 0x0

/-- `MMUTableL1` and `MMUTableL2`, entry by entry. -/
@[ext] structure Tables where
  l1 : Nat → Nat
  l2 : Nat → Nat

/-- `XFSBL_PS_HI_DDR_START_ADDRESS` and `XFSBL_PS_HI_DDR_END_ADDRESS`. -/
structure HiDdr where
  startAddress : Nat
  endAddress : Nat
  aligned : startAddress % blockSize1GB = 0
  above : addressLimit4GB ≤ startAddress
  ordered : startAddress ≤ endAddress
  below : endAddress < 2 ^ 40

/-- `NUM_BLOCKS_A53_64_HIGH`. -/
def HiDdr.numBlocks (d : HiDdr) : Nat := (d.endAddress - d.startAddress + 1) / blockSizeA53_64High

def xfsblSetTlbAttributes (addr attrib : Nat) (t : Tables) : Tables :=
  if addr < addressLimit4GB then
    { t with l2 := Function.update t.l2 (addr / blockSize2MB) (addr - addr % blockSize2MB ||| attrib) }
  else
    { t with l1 := Function.update t.l1 (addr / blockSize1GB) (addr - addr % blockSize1GB ||| attrib) }

/-- The first `n` passes of a loop over blocks. -/
def markBlocks (startAddress blockSize attrib : Nat) : Nat → Tables → Tables
  | 0, t => t
  | n + 1, t => xfsblSetTlbAttributes (startAddress + n * blockSize) attrib
      (markBlocks startAddress blockSize attrib n t)

def xfsblMarkDdrAsReserved (hi : Option HiDdr) (cond : Bool) (t : Tables) : Tables :=
  let attrib := if cond then attribReservedA53 else attribMemoryA53_64
  let t := markBlocks 0 blockSizeA53_64 attrib numBlocksA53_64 t
  hi.elim t fun d => markBlocks d.startAddress blockSizeA53_64High attrib d.numBlocks t

/-! ## Translation -/

/-- The descriptor of an address, and the size of its block: an entry of level 1 is a block, or names a table of
level 2. -/
def Tables.descriptor (t : Tables) (tableL2 va : Nat) : Nat × Nat :=
  let d := t.l1 (va / blockSize1GB)
  if d % 4 = 3 then
    (t.l2 ((d - d % 0x1000 - tableL2) / 8 + va % blockSize1GB / blockSize2MB), blockSize2MB)
  else (d, blockSize1GB)

/-- The address behind a descriptor, and its attributes; none is a fault. -/
def translate (va : Nat) (d : Nat × Nat) : Option (Nat × Nat) :=
  if d.1 % 4 = 1 then some (d.1 % 2 ^ 48 / d.2 * d.2 + va % d.2, d.1 - d.1 % 2 ^ 48 / d.2 * d.2) else none

def Tables.walk (t : Tables) (tableL2 va : Nat) : Option (Nat × Nat) := translate va (t.descriptor tableL2 va)

/-- The first four entries of level 1 name the tables of level 2, which lie one behind the other; the others are
blocks, or reserved. -/
structure Linked (tableL2 : Nat) (t : Tables) : Prop where
  aligned : tableL2 % 0x1000 = 0
  tables : ∀ g < 4, t.l1 g = tableL2 + g * 0x1000 + 3
  blocks : ∀ g, 4 ≤ g → t.l1 g % 4 ≠ 3

/-- The addresses of the loops. -/
def marked (hi : Option HiDdr) (va : Nat) : Bool :=
  va < numBlocksA53_64 * blockSizeA53_64 ||
    hi.elim false fun d => d.startAddress ≤ va && va < d.startAddress + d.numBlocks * blockSizeA53_64High

section Mark

variable {t : Tables} {tableL2 attrib g n va : Nat} {hi : Option HiDdr}

theorem markBlocks_low (hn : n ≤ 2048) : markBlocks 0 blockSizeA53_64 attrib n t =
    { t with l2 := fun i => if i < n then i * blockSize2MB ||| attrib else t.l2 i } := by
  induction n with
  | zero => rfl
  | succ n ih =>
    have haddr : 0 + n * blockSizeA53_64 = n * blockSize2MB := Nat.zero_add _
    rw [markBlocks, ih (by omega), haddr]
    unfold xfsblSetTlbAttributes
    rw [if_pos (by unfold blockSize2MB addressLimit4GB; omega), Nat.mul_mod_left, Nat.sub_zero,
      Nat.mul_div_cancel _ (by decide)]
    refine Tables.ext rfl (funext fun i => ?_)
    dsimp only
    by_cases hlast : i = n
    · rw [hlast, Function.update_self, if_pos (Nat.lt_succ_self n)]
    · rw [Function.update_of_ne hlast]
      by_cases hlt : i < n
      · rw [if_pos hlt, if_pos (by omega)]
      · rw [if_neg hlt, if_neg (by omega)]

theorem markBlocks_high (hg : 4 ≤ g) : markBlocks (g * blockSize1GB) blockSizeA53_64High attrib n t =
    { t with l1 := fun i => if g ≤ i ∧ i < g + n then i * blockSize1GB ||| attrib else t.l1 i } := by
  induction n with
  | zero =>
    refine Tables.ext (funext fun i => (if_neg ?_).symm) rfl
    omega
  | succ n ih =>
    have haddr : g * blockSize1GB + n * blockSizeA53_64High = (g + n) * blockSize1GB := (Nat.add_mul ..).symm
    rw [markBlocks, ih, haddr]
    unfold xfsblSetTlbAttributes
    rw [if_neg (by unfold blockSize1GB addressLimit4GB; omega), Nat.mul_mod_left, Nat.sub_zero,
      Nat.mul_div_cancel _ (by decide)]
    refine Tables.ext (funext fun i => ?_) rfl
    dsimp only
    by_cases hlast : i = g + n
    · rw [hlast, Function.update_self, if_pos (by omega)]
    · rw [Function.update_of_ne hlast]
      by_cases hin : g ≤ i ∧ i < g + n
      · rw [if_pos hin, if_pos (by omega)]
      · rw [if_neg hin, if_neg (by omega)]

/-- Below 4 GB an address is translated by the table of level 2. -/
theorem descriptor_low (h : Linked tableL2 t) (hva : va < addressLimit4GB) :
    t.descriptor tableL2 va = (t.l2 (va / blockSize2MB), blockSize2MB) := by
  have haligned := h.aligned
  have hgb : va / blockSize1GB < 4 := by
    unfold addressLimit4GB at hva
    unfold blockSize1GB
    omega
  unfold Tables.descriptor
  rw [h.tables _ hgb]
  dsimp only
  rw [if_pos (by omega)]
  have hindex : (tableL2 + va / blockSize1GB * 0x1000 + 3 - (tableL2 + va / blockSize1GB * 0x1000 + 3) % 0x1000 -
      tableL2) / 8 + va % blockSize1GB / blockSize2MB = va / blockSize2MB := by
    unfold blockSize1GB blockSize2MB
    omega
  rw [hindex]

/-- Above, by a block of level 1. -/
theorem descriptor_high (h : Linked tableL2 t) (hva : addressLimit4GB ≤ va) :
    t.descriptor tableL2 va = (t.l1 (va / blockSize1GB), blockSize1GB) := by
  have hgb : 4 ≤ va / blockSize1GB := by
    unfold addressLimit4GB at hva
    unfold blockSize1GB
    omega
  exact if_neg (h.blocks _ hgb)

theorem or_attrib {size : Nat} (hsize : size = blockSize2MB ∨ size = blockSize1GB) (i : Nat) :
    i * size ||| attribMemoryA53_64 = i * size + attribMemoryA53_64 := by
  rcases hsize with rfl | rfl
  · rw [Nat.mul_comm]
    exact (Nat.two_pow_add_eq_or_of_lt (i := 21) (by decide) i).symm
  · rw [Nat.mul_comm]
    exact (Nat.two_pow_add_eq_or_of_lt (i := 30) (by decide) i).symm

/-- An address in a block of memory is its own. -/
theorem translate_memory {size : Nat} (hsize : size = blockSize2MB ∨ size = blockSize1GB) (hva : va < 2 ^ 40) :
    translate va (va / size * size ||| attribMemoryA53_64, size) = some (va, attribMemoryA53_64) := by
  rw [or_attrib hsize]
  unfold translate attribMemoryA53_64
  dsimp only
  rcases hsize with rfl | rfl
  · unfold blockSize2MB
    rw [if_pos (by omega), show (va / 0x200000 * 0x200000 + 0x705) % 2 ^ 48 / 0x200000 * 0x200000 =
      va / 0x200000 * 0x200000 by omega]
    exact congrArg some (Prod.ext (by dsimp only; omega) (by dsimp only; omega))
  · unfold blockSize1GB
    rw [if_pos (by omega), show (va / 0x40000000 * 0x40000000 + 0x705) % 2 ^ 48 / 0x40000000 * 0x40000000 =
      va / 0x40000000 * 0x40000000 by omega]
    exact congrArg some (Prod.ext (by dsimp only; omega) (by dsimp only; omega))

/-- One in a reserved block is a fault. -/
theorem translate_reserved {size : Nat} (hsize : size = blockSize2MB ∨ size = blockSize1GB) :
    translate va (va / size * size ||| attribReservedA53, size) = none := by
  have hzero : va / size * size ||| attribReservedA53 = va / size * size := Nat.or_zero _
  rw [hzero]
  refine if_neg ?_
  dsimp only
  rcases hsize with rfl | rfl
  · unfold blockSize2MB
    omega
  · unfold blockSize1GB
    omega

theorem translate_marked {size : Nat} (hsize : size = blockSize2MB ∨ size = blockSize1GB) (hva : va < 2 ^ 40)
    (cond : Bool) :
    translate va (va / size * size ||| if cond then attribReservedA53 else attribMemoryA53_64, size) =
      if cond then none else some (va, attribMemoryA53_64) := by
  cases cond with
  | true => exact translate_reserved hsize
  | false => exact translate_memory hsize hva

/-- The entries of level 1 that the second loop writes. -/
def highEntry (hi : Option HiDdr) (i : Nat) : Bool :=
  hi.elim false fun d => d.startAddress / blockSize1GB ≤ i && i < d.startAddress / blockSize1GB + d.numBlocks

theorem highEntry_ge {i : Nat} (h : highEntry hi i = true) : 4 ≤ i := by
  cases hi with
  | none => exact (Bool.false_ne_true h).elim
  | some d =>
    have habove := d.above
    have hle : d.startAddress / blockSize1GB ≤ i := of_decide_eq_true (Bool.and_eq_true_iff.1 h).1
    unfold addressLimit4GB at habove
    unfold blockSize1GB at hle
    omega

/-- Both loops, entry by entry. -/
theorem markDdr_tables (hi : Option HiDdr) (cond : Bool) (t : Tables) : xfsblMarkDdrAsReserved hi cond t =
    { l1 := fun i => if highEntry hi i then
        i * blockSize1GB ||| if cond then attribReservedA53 else attribMemoryA53_64 else t.l1 i
      l2 := fun i => if i < numBlocksA53_64 then
        i * blockSize2MB ||| if cond then attribReservedA53 else attribMemoryA53_64 else t.l2 i } := by
  unfold xfsblMarkDdrAsReserved
  dsimp only
  rw [markBlocks_low (by decide)]
  cases hi with
  | none => rfl
  | some d =>
    have haligned := d.aligned
    have habove := d.above
    have hstart : d.startAddress = d.startAddress / blockSize1GB * blockSize1GB := by
      unfold blockSize1GB at *
      omega
    have hg : 4 ≤ d.startAddress / blockSize1GB := by
      unfold addressLimit4GB at habove
      unfold blockSize1GB
      omega
    dsimp only [Option.elim]
    rw [hstart, markBlocks_high hg]
    refine Tables.ext (funext fun i => ?_) rfl
    dsimp only [highEntry, Option.elim]
    simp only [Bool.and_eq_true, decide_eq_true_eq]

/-- No table is named by an entry that is written. -/
theorem entry_mod (i : Nat) (cond : Bool) :
    (i * blockSize1GB ||| if cond then attribReservedA53 else attribMemoryA53_64) % 4 ≠ 3 := by
  have hblock : i * blockSize1GB % 4 = 0 := by
    unfold blockSize1GB
    omega
  cases cond with
  | true =>
    have hzero : i * blockSize1GB ||| attribReservedA53 = i * blockSize1GB := Nat.or_zero _
    rw [if_pos rfl, hzero, hblock]
    decide
  | false =>
    have hattrib : (i * blockSize1GB + attribMemoryA53_64) % 4 = 1 := by
      unfold attribMemoryA53_64
      omega
    rw [if_neg Bool.false_ne_true, or_attrib (.inr rfl), hattrib]
    decide

theorem l1_markDdr (hi : Option HiDdr) (cond : Bool) (t : Tables) (g : Nat) : (xfsblMarkDdrAsReserved hi cond t).l1 g =
    if highEntry hi g then g * blockSize1GB ||| if cond then attribReservedA53 else attribMemoryA53_64 else t.l1 g :=
  congrFun (congrArg Tables.l1 (markDdr_tables hi cond t)) g

theorem l1_low (hi : Option HiDdr) (cond : Bool) (t : Tables) (hg : g < 4) :
    (xfsblMarkDdrAsReserved hi cond t).l1 g = t.l1 g := by
  have hlow : ¬ highEntry hi g = true := fun hhigh => Nat.not_le_of_lt hg (highEntry_ge hhigh)
  exact (l1_markDdr hi cond t g).trans (if_neg hlow)

theorem l1_high (h : t.l1 g % 4 ≠ 3) (hi : Option HiDdr) (cond : Bool) :
    (xfsblMarkDdrAsReserved hi cond t).l1 g % 4 ≠ 3 := by
  rw [l1_markDdr]
  by_cases hhigh : highEntry hi g = true
  · rw [if_pos hhigh]
    exact entry_mod g cond
  · rw [if_neg hhigh]
    exact h

theorem linked_markDdr (h : Linked tableL2 t) (hi : Option HiDdr) (cond : Bool) :
    Linked tableL2 (xfsblMarkDdrAsReserved hi cond t) where
  aligned := h.aligned
  tables g hg := (l1_low hi cond t hg).trans (h.tables g hg)
  blocks g hg := l1_high (h.blocks g hg) hi cond

/-- The second loop covers whole blocks. -/
theorem highEntry_iff (hva : addressLimit4GB ≤ va) : highEntry hi (va / blockSize1GB) = marked hi va := by
  have hlow : ¬ va < numBlocksA53_64 * blockSizeA53_64 := Nat.not_lt_of_le (Nat.le_trans (by decide) hva)
  unfold marked
  rw [decide_eq_false hlow, Bool.false_or]
  cases hi with
  | none => rw [highEntry, Option.elim_none, Option.elim_none]
  | some d =>
    have hpos : 0 < blockSize1GB := by decide
    have hstart : d.startAddress / blockSize1GB * blockSize1GB = d.startAddress :=
      Nat.div_mul_cancel (Nat.dvd_of_mod_eq_zero d.aligned)
    have hsize : blockSizeA53_64High = blockSize1GB := rfl
    have hfirst : d.startAddress / blockSize1GB ≤ va / blockSize1GB ↔ d.startAddress ≤ va := by
      rw [Nat.le_div_iff_mul_le hpos, hstart]
    have hlast : va / blockSize1GB < d.startAddress / blockSize1GB + d.numBlocks ↔
        va < d.startAddress + d.numBlocks * blockSizeA53_64High := by
      rw [Nat.div_lt_iff_lt_mul hpos, Nat.add_mul, hstart, hsize]
    rw [highEntry, Option.elim_some, Option.elim_some, decide_eq_decide.2 hfirst, decide_eq_decide.2 hlast]

theorem marked_lt (h : marked hi va = true) : va < 2 ^ 40 := by
  unfold marked numBlocksA53_64 blockSizeA53_64 at h
  rcases Bool.or_eq_true_iff.1 h with hlow | hhigh
  · have hlt := of_decide_eq_true hlow
    omega
  · cases hi with
    | none => exact (Bool.false_ne_true hhigh).elim
    | some d =>
      have hbelow := d.below
      have hordered := d.ordered
      have hlt : va < d.startAddress + d.numBlocks * blockSizeA53_64High :=
        of_decide_eq_true (Bool.and_eq_true_iff.1 hhigh).2
      unfold HiDdr.numBlocks blockSizeA53_64High at hlt
      omega

/-- **What marking the DDR does**: an address of the first 2 GB, or of the whole blocks of 1 GB of the high DDR, is a
fault afterwards, or translated to itself as memory; every other address is translated as before. -/
theorem markDdr_walk (h : Linked tableL2 t) (hi : Option HiDdr) (cond : Bool) (va : Nat) :
    (xfsblMarkDdrAsReserved hi cond t).walk tableL2 va =
      if marked hi va then (if cond then none else some (va, attribMemoryA53_64)) else t.walk tableL2 va := by
  have hlinked := linked_markDdr h hi cond
  unfold Tables.walk
  rcases Nat.lt_or_ge va addressLimit4GB with hva | hva
  · rw [descriptor_low hlinked hva, descriptor_low h hva, markDdr_tables]
    dsimp only
    by_cases hlow : va / blockSize2MB < numBlocksA53_64
    · have hmarked : marked hi va = true := by
        have hlt : va < numBlocksA53_64 * blockSizeA53_64 := by
          unfold blockSize2MB at hlow
          unfold numBlocksA53_64 blockSizeA53_64 at *
          omega
        rw [marked, decide_eq_true hlt, Bool.true_or]
      rw [if_pos hlow, if_pos hmarked]
      exact translate_marked (.inl rfl) (marked_lt hmarked) cond
    · have hmarked : ¬ marked hi va = true := by
        intro hm
        rcases Bool.or_eq_true_iff.1 hm with hlt | hhigh
        · have hlt' := of_decide_eq_true hlt
          unfold blockSize2MB at hlow
          unfold numBlocksA53_64 blockSizeA53_64 at *
          omega
        · cases hi with
          | none => exact (Bool.false_ne_true hhigh).elim
          | some d =>
            have habove := d.above
            have hle : d.startAddress ≤ va := of_decide_eq_true (Bool.and_eq_true_iff.1 hhigh).1
            omega
      rw [if_neg hlow, if_neg hmarked]
  · rw [descriptor_high hlinked hva, descriptor_high h hva, markDdr_tables]
    dsimp only
    rw [highEntry_iff hva]
    by_cases hmarked : marked hi va = true
    · rw [if_pos hmarked, if_pos hmarked]
      exact translate_marked (.inr rfl) (marked_lt hmarked) cond
    · rw [if_neg hmarked, if_neg hmarked]

end Mark

/-! ### The tables of the reset -/

/-- The tables as they are linked, the DDR reserved: `MMUTableL2` at `0xFFFC4000`. -/
def resetTables : Tables where
  l1 g := if g < 4 then 0xFFFC4000 + g * 0x1000 + 3 else g * blockSize1GB
  l2 i := i * blockSize2MB

theorem linked_resetTables : Linked 0xFFFC4000 resetTables where
  aligned := by decide
  tables g hg := if_pos hg
  blocks g hg := by
    show (if g < 4 then _ else g * blockSize1GB) % 4 ≠ 3
    rw [if_neg (by omega)]
    unfold blockSize1GB
    omega

/-- High DDR of 2 GB and a half. -/
def highDdr : HiDdr where
  startAddress := 0x800000000
  endAddress := 0x89FFFFFFF
  aligned := by decide
  above := by decide
  ordered := by decide
  below := by decide

/-- Of the last half block nothing is memory. -/
theorem markDdr_walk_resetTables :
    (xfsblMarkDdrAsReserved (some highDdr) false resetTables).walk 0xFFFC4000 0x87FFFFFFF = some (0x87FFFFFFF, 0x705) ∧
      (xfsblMarkDdrAsReserved (some highDdr) false resetTables).walk 0xFFFC4000 0x880000000 = none := by
  rw [markDdr_walk linked_resetTables, markDdr_walk linked_resetTables]
  exact ⟨by decide +kernel, by decide +kernel⟩

end MeasuredBoot.Mmu
