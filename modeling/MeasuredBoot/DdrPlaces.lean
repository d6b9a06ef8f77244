import MeasuredBoot.DdrAddrMap
import Mathlib.Tactic.IntervalCases

/-!
# Which geometries the address map places

`ddrCalcAddrMap_places_iff`: for every geometry an SPD can encode and every mapping, the map is computed inside its
table and gives each address bit of the DRAM a place of its own if and only if the geometry `Fits`: one
rank on a bus of more than 32 bits, no more address bits than the controller has selectors for, and
no more bank groups than the mapping lays out. The condition is met by what the layouts locate
(`located`); what fails otherwise is a search that walks off the table or a bit without a selector.
-/

namespace MeasuredBoot.Ddr

open Table Lanes

/-! ## The loops over the bits -/

section Bits

variable {f : Nat → Option UInt32} {map map' : Nat → UInt32} {bit count : Nat}

theorem forBits_outside (h : forBits f bit count map = some map') {n : Nat}
    (hn : n < bit ∨ bit + count ≤ n) : map' n = map n := by
  induction count generalizing bit map with
  | zero =>
    cases h
    rfl
  | succ count ih =>
    obtain ⟨field, -, h⟩ := Option.bind_eq_some_iff.mp h
    rw [ih h (by omega), Function.update_of_ne (by omega)]

/-- Each bit of the loop gets its field. -/
theorem forBits_inside (h : forBits f bit count map = some map') {n : Nat} (hlo : bit ≤ n)
    (hhi : n < bit + count) : f n = some (map' n) := by
  induction count generalizing bit map with
  | zero => omega
  | succ count ih =>
    obtain ⟨field, hfield, h⟩ := Option.bind_eq_some_iff.mp h
    rcases Nat.eq_or_lt_of_le hlo with rfl | hlt
    · rw [hfield, forBits_outside h (.inl (Nat.lt_succ_self _)), Function.update_self]
    · exact ih h hlt (by omega)

theorem forBits_exists (map : Nat → UInt32)
    (h : ∀ n, bit ≤ n → n < bit + count → ∃ field, f n = some field) :
    ∃ map', forBits f bit count map = some map' := by
  induction count generalizing bit map with
  | zero => exact ⟨map, rfl⟩
  | succ count ih =>
    obtain ⟨field, hfield⟩ := h bit (Nat.le_refl _) (by omega)
    have hrest : ∀ n, bit + 1 ≤ n → n < bit + 1 + count → ∃ field, f n = some field :=
      fun n hlo hhi => h n (by omega) (by omega)
    obtain ⟨map', hmap'⟩ := ih (Function.update map bit field) hrest
    refine ⟨map', ?_⟩
    rw [forBits, hfield, Option.bind_some]
    exact hmap'

end Bits

/-- The comparison in the loop over the bank groups always holds. -/
theorem calcBit_bg (t : List Nat) (num : Nat) :
    (fun bgBit => if bgBit < num then (search t (hifBg bgBit) (bgBit + 2)).map fun index =>
        if bgBit + 2 ≤ index then UInt32.ofNat (index - (bgBit + 2)) else 0
      else some 0x1F) =
      fun bgBit => calcBit t (hifBg bgBit) (bgBit + 2) bgBit num 0x1F := by
  funext bgBit
  unfold calcBit
  split
  · refine Option.map_congr fun index hindex => ?_
    rw [if_pos (le_of_search (Option.mem_def.mp hindex))]
  · rfl

/-! ## The bits and their fields -/

namespace DramBit

def index : DramBit → Nat
  | column n | bank n | bankGroup n | row n | rank n => n

/-- The code of the bit in the table. -/
def code : DramBit → Nat
  | column n => hifColumn n
  | bank n => hifBank n
  | bankGroup n => hifBg n
  | row n => hifRow n
  | rank n => hifRank n

/-- How many such bits the DIMM has. -/
def num (d : DimmParams) : DramBit → Nat
  | column _ => d.numColAddr
  | bank _ => d.numBankAddr
  | bankGroup _ => d.numBgAddr
  | row _ => d.numRowAddr
  | rank _ => d.numRankAddr

/-- The field the source computes for the bit. -/
def field (d : DdrcInitData) : DramBit → UInt32
  | column n => d.addrMapColBit n
  | bank n => d.addrMapBankBit n
  | bankGroup n => d.addrMapBgBit n
  | row n => d.addrMapRowBit n
  | rank _ => d.addrMapCsBit0

/-- The HIF index a field of 0 stands for. -/
def base (csBase : Nat) : DramBit → Nat
  | column n => n
  | bank n | bankGroup n => n + 2
  | row n => n + 6
  | rank _ => csBase

def mask : DramBit → UInt32
  | column _ | row _ => 0xF
  | bank _ | bankGroup _ | rank _ => 0x1F

/-- The bits the controller has a selector for. -/
def Selectable : DramBit → Prop
  | column n => 2 ≤ n ∧ n < 12
  | bank n => n < 3
  | bankGroup n => n < 2
  | row n => n < 18
  | rank n => n < 1

def IsRank : DramBit → Prop
  | rank _ => True
  | _ => False

theorem index_lt_of_needed {d : DimmParams} {x : DramBit} (h : x.Needed d) :
    x.index < x.num d := by
  cases x with
  | column n => exact h.2
  | bank n => exact h
  | bankGroup n => exact h
  | row n => exact h
  | rank n => exact h

theorem needed_of_index_lt {d : DimmParams} {x : DramBit} (hsel : x.Selectable)
    (h : x.index < x.num d) : x.Needed d := by
  cases x with
  | column n => exact ⟨hsel.1, h⟩
  | bank n => exact h
  | bankGroup n => exact h
  | row n => exact h
  | rank n => exact h

theorem num_lt {d : DimmParams} (he : Encoded d) (x : DramBit) : x.num d < 100 := by
  obtain ⟨hranks, hrank, hrow, hcol, hbank, hbg⟩ := he
  have hlog := Nat.log2_le_self d.nRanks
  cases x <;> simp only [num] <;> omega

end DramBit

theorem selector_spec {csBase : Nat} {x : DramBit} {s : Selector}
    (h : selector csBase x = some s) :
    x.Selectable ∧ s.reg < 12 ∧ s.base = x.base csBase ∧ s.mask = x.mask := by
  rcases x with n | n | n | n | n <;> simp only [selector] at h <;> split_ifs at h <;> cases h <;>
    simp [DramBit.Selectable, DramBit.base, DramBit.mask] <;> omega

theorem selector_exists {x : DramBit} (csBase : Nat) (h : x.Selectable) :
    ∃ s, selector csBase x = some s := by
  cases hs : selector csBase x with
  | some s => exact ⟨s, rfl⟩
  | none =>
    exfalso
    rcases x with n | n | n | n | n <;> simp only [selector, DramBit.Selectable] at h hs <;>
      split_ifs at hs <;> omega

theorem lookup_registers (d : DdrcInitData) {i : Nat} (hi : i < 12) :
    (registers d).lookup (addrMapReg i) = some (regVal d i) := by
  interval_cases i <;> rfl

/-- Each register has the fields of its bits in their lanes. -/
theorem ofLane_regVal {csBase : Nat} {x : DramBit} {s : Selector}
    (h : selector csBase x = some s) (d : DdrcInitData) :
    ofLane s.mask (regVal d s.reg) s.shift = x.field d &&& s.mask := by
  rcases x with n | n | n | n | n <;> simp only [selector] at h <;> split_ifs at h <;> cases h <;>
    interval_cases n <;>
      simp (disch := decide) only [regVal, DramBit.field, Nat.reduceSub, Nat.reduceMul,
        UInt32.reduceOfNat, ofLane_or, ofLane_lane, ofLane_lane_other, UInt32.or_zero,
        UInt32.zero_or]

/-- **The controller reads the field of each bit, masked.** -/
theorem position_registers {csBase : Nat} {x : DramBit} {s : Selector}
    (h : selector csBase x = some s) (d : DdrcInitData) :
    position csBase (registers d) x =
      if x.field d &&& x.mask = x.mask then none
      else some ((x.field d &&& x.mask).toNat + x.base csBase) := by
  obtain ⟨-, hreg, hbase, hmask⟩ := selector_spec h
  rw [position, h, Option.bind_some, Selector.position, lookup_registers d hreg, Option.bind_some,
    ofLane_regVal h, hbase, hmask]

theorem position_unselectable {csBase : Nat} {x : DramBit} (h : ¬ x.Selectable)
    (writes : List (UInt32 × UInt32)) : position csBase writes x = none := by
  rw [position, Option.bind_eq_none_iff]
  exact fun s hs => absurd (selector_spec hs).1 h

/-! ## What a run computes -/

/-- The field of a bit, as the searches over the table give it. -/
def DramBit.search (t : HifAddr) (d : DimmParams) (x : DramBit) : Option UInt32 :=
  calcBit t.toList x.code (x.base 0) x.index (x.num d) x.mask

/-- **A run ends only with a table it stayed in, and with every bit found in it.** -/
theorem ddrCalcAddrMap_some {b : Build} {d d' : DdrcInitData} {writes : List (UInt32 × UInt32)}
    (h : ddrCalcAddrMap b d = some (d', writes)) :
    ∃ t, hifTable b d.pDimm = some t ∧ writes = registers d' ∧ d'.addrMapCsBit0 = 0x1F ∧
      ∀ x : DramBit, x.Selectable → ¬ x.IsRank → x.search t d.pDimm = some (x.field d') := by
  simp only [ddrCalcAddrMap, ddrCalcBankAddr, ddrCalcColAddr, ddrCalcRowAddr, ddrCalcBgAddr,
    calcBit_bg, Option.bind_eq_bind, Option.pure_def, Option.bind_assoc, Option.bind_some,
    Option.bind_eq_some_iff, Option.some.injEq, Prod.mk.injEq] at h
  obtain ⟨t, ht, bank, hbank, col, hcol, row, hrow, bg, hbg, rfl, rfl⟩ := h
  refine ⟨t, ht, rfl, rfl, fun x hx hrank => ?_⟩
  cases x with
  | column n => exact forBits_inside hcol hx.1 hx.2
  | bank n => exact forBits_inside hbank (Nat.zero_le n) hx
  | bankGroup n => exact forBits_inside hbg (Nat.zero_le n) (Nat.lt_of_lt_of_le hx (by decide))
  | row n => exact forBits_inside hrow (Nat.zero_le n) hx
  | rank n => exact absurd trivial hrank

/-- It ends if they are all found. -/
theorem ddrCalcAddrMap_exists {b : Build} {d : DdrcInitData} {t : HifAddr}
    (ht : hifTable b d.pDimm = some t) (h : ∀ x : DramBit, x.Selectable → ¬ x.IsRank →
      ∃ field, x.search t d.pDimm = some field) :
    ∃ d' writes, ddrCalcAddrMap b d = some (d', writes) := by
  obtain ⟨bank, hbank⟩ : ∃ map, forBits (fun n => calcBit t.toList (hifBank n) (n + 2) n
      d.pDimm.numBankAddr 0x1F) 0 xfsblMaxBanks d.addrMapBankBit = some map :=
    forBits_exists _ fun n _ hn => h (.bank n) (by simpa [DramBit.Selectable, xfsblMaxBanks] using hn) id
  obtain ⟨col, hcol⟩ : ∃ map, forBits (fun n => calcBit t.toList (hifColumn n) n n
      d.pDimm.numColAddr 0xF) 2 (xfsblMaxColumns - 2) d.addrMapColBit = some map :=
    forBits_exists _ fun n hlo hn => h (.column n) ⟨hlo, hn⟩ id
  obtain ⟨row, hrow⟩ : ∃ map, forBits (fun n => calcBit t.toList (hifRow n) (n + 6) n
      d.pDimm.numRowAddr 0xF) 0 xfsblMaxRows d.addrMapRowBit = some map :=
    forBits_exists _ fun n _ hn => h (.row n) (by simpa [DramBit.Selectable, xfsblMaxRows] using hn) id
  obtain ⟨bg, hbg⟩ : ∃ map, forBits (fun n => calcBit t.toList (hifBg n) (n + 2) n
      d.pDimm.numBgAddr 0x1F) 0 xfsblMaxBankGroups d.addrMapBgBit = some map :=
    forBits_exists _ fun n _ hn => h (.bankGroup n) (by simpa [DramBit.Selectable, xfsblMaxBankGroups] using hn) id
  simp only [ddrCalcAddrMap, ddrCalcBankAddr, ddrCalcColAddr, ddrCalcRowAddr, ddrCalcBgAddr,
    calcBit_bg, ht, hbank, hcol, hrow, hbg, Option.bind_eq_bind, Option.pure_def,
    Option.bind_some]
  exact ⟨_, _, rfl⟩

/-! ## What fits -/

/-- The bank groups a mapping lays out; the video mapping does so for DDR4 only, and has to leave rows
for the place behind the banks. -/
def LaysOut (b : Build) (d : DimmParams) : Prop :=
  match b.mapping d with
  | .video => d.memType = spdMemtypeDdr4 ∧ d.numBgAddr ≤ 1 ∧
      calcBufWidth d b.videoBuf ≤ d.numColAddr + 4 + d.numRowAddr
  | .hif => d.numBgAddr = 0
  | .brc => d.numBgAddr ≤ 1
  | .memMap | .ddr4 => d.numBgAddr ≤ 2

/-- **The geometries the map places.** -/
structure Fits (b : Build) (d : DimmParams) : Prop where
  bus : 32 < d.busWidth
  rank : d.nRanks = 1
  col : d.numColAddr ≤ 12
  bank : d.numBankAddr ≤ 3
  row : d.numRowAddr ≤ 18
  laysOut : LaysOut b d

theorem sub32_of_le {x y : Nat} (h : y ≤ x) (hx : x < 2 ^ 32) : sub32 x y = x - y := by
  rw [sub32, Nat.add_comm, Nat.add_sub_assoc h, Nat.add_mod_left, Nat.mod_eq_of_lt (by omega)]

/-- A difference that wraps is far above the size of the table. -/
theorem lt_sub32 {x y : Nat} (h : x < y) (hy : y ≤ 2 ^ 31) : 40 < sub32 x y := by
  rw [sub32, Nat.mod_eq_of_lt (by omega)]
  omega

/-- A wide bus leaves the width of the buffer as the loop finds it. -/
theorem calcBufWidth_wide {d : DimmParams} (h : 32 < d.busWidth) (videoBuf : Nat) :
    20 ≤ calcBufWidth d videoBuf ∧ calcBufWidth d videoBuf ≤ 26 := by
  have h16 : d.busWidth ≠ 16 := by omega
  have h32 : d.busWidth ≠ 32 := by omega
  simp only [calcBufWidth, h16, h32, if_false, bufWidthLoop]
  split_ifs <;> omega

/-- The rows of the video mapping in front of the banks. -/
theorem rows_wide {d : DimmParams} (he : Encoded d) (h : 32 < d.busWidth) (videoBuf : Nat) :
    sub32 (sub32 (calcBufWidth d videoBuf) d.numColAddr) 4 =
      calcBufWidth d videoBuf - d.numColAddr - 4 := by
  have hw := calcBufWidth_wide h videoBuf
  have hc := he.col
  have hdiff := sub32_of_le (by omega : d.numColAddr ≤ calcBufWidth d videoBuf) (by omega)
  rw [hdiff, sub32_of_le (by omega) (by omega)]

variable {b : Build} {d : DimmParams}

theorem Fits.no_rank (he : Encoded d) (hf : Fits b d) : d.numRankAddr = 0 := by
  rw [he.rankAddr, hf.rank]
  rfl

theorem Fits.bg_le (hf : Fits b d) : d.numBgAddr ≤ 2 := by
  have hl := hf.laysOut
  unfold LaysOut at hl
  cases hm : b.mapping d <;> simp only [hm] at hl <;> omega

theorem Fits.selectable (he : Encoded d) (hf : Fits b d) {x : DramBit} (hx : x.Needed d) :
    x.Selectable ∧ ¬ x.IsRank := by
  have hrank := hf.no_rank he
  have hbg := hf.bg_le
  cases x with
  | column n => exact ⟨⟨hx.1, Nat.lt_of_lt_of_le hx.2 hf.col⟩, id⟩
  | bank n => exact ⟨Nat.lt_of_lt_of_le hx hf.bank, id⟩
  | bankGroup n => exact ⟨Nat.lt_of_lt_of_le hx hbg, id⟩
  | row n => exact ⟨Nat.lt_of_lt_of_le hx hf.row, id⟩
  | rank n => exact absurd hx (by simp [DramBit.Needed, hrank])

/-- Located where its selector reaches. -/
def DramBit.InReach (segs : List (Nat × Nat)) (x : DramBit) : Prop :=
  Within segs x.code (x.base 0) (x.base 0 + x.mask.toNat)

section Reach

variable {segs : List (Nat × Nat)} {cols n : Nat}

theorem inReach_column :
    (DramBit.column n).InReach segs ↔ Within segs (100 + n) n (n + 15) := Iff.rfl

theorem inReach_bank :
    (DramBit.bank n).InReach segs ↔ Within segs (300 + n) (n + 2) (n + 2 + 31) := Iff.rfl

theorem inReach_bankGroup :
    (DramBit.bankGroup n).InReach segs ↔ Within segs (400 + n) (n + 2) (n + 2 + 31) := Iff.rfl

theorem inReach_row :
    (DramBit.row n).InReach segs ↔ Within segs (200 + n) (n + 6) (n + 6 + 15) := Iff.rfl

/-- The columns in front, as the mappings lay them out that do not fix the first four codes. -/
theorem column_front (h : n < cols) : (DramBit.column n).InReach ((100, cols) :: segs) := by
  rw [inReach_column, within_here (by omega)]
  omega

/-- The columns around the first bank group. -/
theorem column_fixed (h : n < cols) (hle : cols ≤ 12) :
    (DramBit.column n).InReach ((100, 3) :: (400, 1) :: (103, cols - 3) :: segs) := by
  rw [inReach_column]
  by_cases h3 : n < 3
  · rw [within_here (by omega)]
    omega
  · rw [within_skip (by omega), within_skip (by omega), within_here (by omega)]
    omega

theorem bankGroup_fixed : (DramBit.bankGroup 0).InReach ((100, 3) :: (400, 1) :: segs) := by
  rw [inReach_bankGroup, within_skip (by omega), within_here (by omega)]
  omega

end Reach

/-- **Each bit that fits is located in the layout, in reach of its selector.** -/
theorem located (he : Encoded d) (hf : Fits b d) {x : DramBit} (hx : x.Needed d) :
    x.InReach (layout b d) := by
  have hsel := hf.selectable he hx
  have hl := hf.laysOut
  have hv := rows_wide he hf.bus b.videoBuf
  have hwidth := calcBufWidth_wide hf.bus b.videoBuf
  obtain ⟨-, -, hrow, hcol, hbank, -⟩ := he
  obtain ⟨-, -, hcol', hbank', hrow', -⟩ := hf
  unfold LaysOut at hl
  unfold layout
  cases hm : b.mapping d with
  | video =>
    simp only [hm] at hl ⊢
    obtain ⟨htype, hbg, hrows⟩ := hl
    have hbehind := sub32_of_le
      (by omega : calcBufWidth d b.videoBuf - d.numColAddr - 4 ≤ d.numRowAddr) (by omega)
    rw [if_neg (not_not_intro htype), hv, hbehind]
    cases x with
    | column n => exact column_fixed hx.2 hcol'
    | bank n =>
      have hn : n < d.numBankAddr := hx
      rw [inReach_bank]
      simp (disch := omega) only [within_skip, within_here]
      omega
    | bankGroup n =>
      have hn : n < d.numBgAddr := hx
      obtain rfl : n = 0 := by omega
      exact bankGroup_fixed
    | row n =>
      have hn : n < d.numRowAddr := hx
      rw [inReach_row]
      -- the rows are split by the banks
      by_cases hfront : n < calcBufWidth d b.videoBuf - d.numColAddr - 4
      · simp (disch := omega) only [within_skip, within_here]
        omega
      · simp (disch := omega) only [within_skip, within_here]
        omega
    | rank n => exact absurd trivial hsel.2
  | hif =>
    simp only [hm] at hl ⊢
    cases x with
    | column n => exact column_front hx.2
    | bank n =>
      have hn : n < d.numBankAddr := hx
      rw [inReach_bank]
      simp (disch := omega) only [within_skip, within_here]
      omega
    | bankGroup n =>
      have hn : n < d.numBgAddr := hx
      omega
    | row n =>
      have hn : n < d.numRowAddr := hx
      rw [inReach_row]
      simp (disch := omega) only [within_skip, within_here]
      omega
    | rank n => exact absurd trivial hsel.2
  | brc =>
    simp only [hm] at hl ⊢
    cases x with
    | column n => exact column_fixed hx.2 hcol'
    | bank n =>
      have hn : n < d.numBankAddr := hx
      rw [inReach_bank]
      simp (disch := omega) only [within_skip, within_here]
      omega
    | bankGroup n =>
      have hn : n < d.numBgAddr := hx
      obtain rfl : n = 0 := by omega
      exact bankGroup_fixed
    | row n =>
      have hn : n < d.numRowAddr := hx
      rw [inReach_row]
      simp (disch := omega) only [within_skip, within_here]
      omega
    | rank n => exact absurd trivial hsel.2
  | memMap =>
    simp only [hm] at hl ⊢
    cases x with
    | column n => exact column_fixed hx.2 hcol'
    | bank n =>
      have hn : n < d.numBankAddr := hx
      rw [inReach_bank]
      simp (disch := omega) only [within_skip, within_here]
      omega
    | bankGroup n =>
      have hn : n < d.numBgAddr := hx
      rcases Nat.eq_zero_or_pos n with rfl | hpos
      · exact bankGroup_fixed
      · rw [inReach_bankGroup]
        simp (disch := omega) only [within_skip, within_here]
        omega
    | row n =>
      have hn : n < d.numRowAddr := hx
      rw [inReach_row]
      simp (disch := omega) only [within_skip, within_here]
      omega
    | rank n => exact absurd trivial hsel.2
  | ddr4 =>
    simp only [hm] at hl ⊢
    cases x with
    | column n => exact column_front hx.2
    | bank n =>
      have hn : n < d.numBankAddr := hx
      rw [inReach_bank]
      simp (disch := omega) only [within_skip, within_here]
      omega
    | bankGroup n =>
      have hn : n < d.numBgAddr := hx
      rw [inReach_bankGroup]
      simp (disch := omega) only [within_skip, within_here]
      omega
    | row n =>
      have hn : n < d.numRowAddr := hx
      rw [inReach_row]
      simp (disch := omega) only [within_skip, within_here]
      omega
    | rank n => exact absurd trivial hsel.2

/-- A field below its mask is kept. -/
theorem toNat_field {x : DramBit} {k : Nat} (h : k < x.mask.toNat) :
    (UInt32.ofNat k &&& x.mask).toNat = k := by
  have hmask : x.mask.toNat = 2 ^ 4 - 1 ∨ x.mask.toNat = 2 ^ 5 - 1 := by
    cases x <;> simp [DramBit.mask]
  have hk : k < 2 ^ 32 := by omega
  rw [UInt32.toNat_and, UInt32.toNat_ofNat', Nat.mod_eq_of_lt hk]
  rcases hmask with hmask | hmask
  · rw [hmask, Nat.and_two_pow_sub_one_eq_mod, Nat.mod_eq_of_lt (by omega)]
  · rw [hmask, Nat.and_two_pow_sub_one_eq_mod, Nat.mod_eq_of_lt (by omega)]

/-- A bit located in reach is found by its search. -/
theorem search_of_located {p : Nat} {t : HifAddr} {x : DramBit}
    (ht : hifAddr b d (.replicate 40 0) = some t) (hx : x.Needed d)
    (hloc : locate (layout b d) x.code = some p) (hlo : x.base 0 ≤ p) :
    x.search t d = some (.ofNat (p - x.base 0)) := by
  have hfound := search_of_idxOf? (idxOf?_of_layout ht hloc) hlo
  rw [DramBit.search, calcBit, if_pos (DramBit.index_lt_of_needed hx), hfound, Option.map_some]

/-- A bit the DIMM does not have is not searched for. -/
theorem search_unneeded {t : HifAddr} {x : DramBit} (hsel : x.Selectable) (hx : ¬ x.Needed d) :
    x.search t d = some x.mask :=
  if_neg fun h => hx (DramBit.needed_of_index_lt hsel h)

/-- The controller reads the place from the field. -/
theorem position_of_field {csBase p : Nat} {d' : DdrcInitData} {x : DramBit} (hsel : x.Selectable)
    (hrank : ¬ x.IsRank) (hlo : x.base 0 ≤ p) (hhi : p < x.base 0 + x.mask.toNat)
    (hfield : x.field d' = .ofNat (p - x.base 0)) :
    position csBase (registers d') x = some p := by
  obtain ⟨s, hs⟩ := selector_exists csBase hsel
  have hbase : x.base csBase = x.base 0 := by
    cases x <;> first | rfl | exact absurd trivial hrank
  have hkept := toNat_field (by omega : p - x.base 0 < x.mask.toNat)
  have hne : UInt32.ofNat (p - x.base 0) &&& x.mask ≠ x.mask := by
    intro heq
    rw [heq] at hkept
    omega
  rw [position_registers hs, hfield, if_neg hne, hkept, hbase]
  exact congrArg some (Nat.sub_add_cancel hlo)

/-- Codes of bits below 100 are those of one bit. -/
theorem code_inj {x y : DramBit} (hx : x.index < 100) (hy : y.index < 100)
    (h : x.code = y.code) : x = y := by
  cases x <;> cases y <;>
    simp only [DramBit.index, DramBit.code, hifColumn, hifBank, hifBg, hifRow, hifRank,
      DramBit.column.injEq, DramBit.bank.injEq, DramBit.bankGroup.injEq, DramBit.row.injEq,
      DramBit.rank.injEq, reduceCtorEq] at hx hy h ⊢ <;> omega

/-- A layout that fits has room in the table. -/
theorem length_layout (he : Encoded d) (hf : Fits b d) : (expand (layout b d)).length ≤ 40 := by
  have hrank := hf.no_rank he
  have hl := hf.laysOut
  have hv := rows_wide he hf.bus b.videoBuf
  have hwidth := calcBufWidth_wide hf.bus b.videoBuf
  obtain ⟨-, -, hrow, hcol, hbank, -⟩ := he
  obtain ⟨-, -, hcol', hbank', hrow', -⟩ := hf
  unfold LaysOut at hl
  unfold layout
  cases hm : b.mapping d with
  | video =>
    simp only [hm] at hl ⊢
    obtain ⟨htype, hbg, hrows⟩ := hl
    have hbehind := sub32_of_le
      (by omega : calcBufWidth d b.videoBuf - d.numColAddr - 4 ≤ d.numRowAddr) (by omega)
    rw [if_neg (not_not_intro htype), hv, hbehind, length_expand]
    simp only [List.map_cons, List.map_nil, List.sum_cons, List.sum_nil]
    omega
  | _ =>
    simp only [hm] at hl
    simp only [length_expand, List.map_cons, List.map_nil, List.sum_cons, List.sum_nil]
    omega

/-! ## The theorem -/

/-- What fits is placed. -/
theorem places_of_fits (csBase : Nat) {data : DdrcInitData} (he : Encoded data.pDimm)
    (hf : Fits b data.pDimm) : ∃ d' writes, ddrCalcAddrMap b data = some (d', writes) ∧
      Places csBase data.pDimm writes := by
  obtain ⟨t, ht⟩ := hifAddr_of_length (length_layout he hf)
  have htable := (hifTable_wide hf.bus).trans ht
  have hplace (x : DramBit) (hx : x.Needed data.pDimm) :
      x.Selectable ∧ ¬ x.IsRank ∧ x.InReach (layout b data.pDimm) :=
    ⟨(hf.selectable he hx).1, (hf.selectable he hx).2, located he hf hx⟩
  obtain ⟨d', writes, hrun⟩ := ddrCalcAddrMap_exists htable fun x hsel hrank => by
    by_cases hx : x.Needed data.pDimm
    · obtain ⟨-, -, p, hloc, hlo, -⟩ := hplace x hx
      exact ⟨_, search_of_located ht hx hloc hlo⟩
    · exact ⟨_, search_unneeded hsel hx⟩
  refine ⟨d', writes, hrun, ?_⟩
  obtain ⟨t', ht', rfl, -, hfields⟩ := ddrCalcAddrMap_some hrun
  obtain rfl : t' = t := Option.some.inj (ht'.symm.trans htable)
  have hposition (x : DramBit) (hx : x.Needed data.pDimm) :
      ∃ p, locate (layout b data.pDimm) x.code = some p ∧
        position csBase (registers d') x = some p := by
    obtain ⟨hsel, hrank, p, hloc, hlo, hhi⟩ := hplace x hx
    have hsearch := (hfields x hsel hrank).symm.trans (search_of_located ht hx hloc hlo)
    exact ⟨p, hloc, position_of_field hsel hrank hlo hhi (Option.some.inj hsearch)⟩
  refine ⟨fun x hx => ?_, fun x y hx hy hxy => ?_⟩
  · obtain ⟨p, -, hp⟩ := hposition x hx
    exact ⟨p, hp⟩
  · obtain ⟨p, hlocx, hpx⟩ := hposition x hx
    obtain ⟨q, hlocy, hpy⟩ := hposition y hy
    obtain rfl : p = q := Option.some.inj (hpx.symm.trans (hxy.trans hpy))
    have hindex (z : DramBit) (hz : z.Needed data.pDimm) : z.index < 100 :=
      Nat.lt_trans (DramBit.index_lt_of_needed hz) (DramBit.num_lt he z)
    exact code_inj (hindex x hx) (hindex y hy) (locate_inj hlocx hlocy)

/-- A needed bit that is searched for is in the table behind the start of its search. -/
theorem mem_of_search_some {t : HifAddr} {x : DramBit} {field : UInt32} (hx : x.Needed d)
    (h : x.search t d = some field) : x.code ∈ t.toList.drop (x.base 0) := by
  rw [DramBit.search, calcBit, if_pos (DramBit.index_lt_of_needed hx), Option.map_eq_some_iff] at h
  obtain ⟨p, hp, -⟩ := h
  exact mem_of_search hp

/-- A mapping lays out no bank group whose code is in none of its stretches. -/
theorem bg_le_of_mem {t : HifAddr} {n : Nat} (ht : hifAddr b d (.replicate 40 0) = some t)
    (hin : n < d.numBgAddr → hifBg n ∈ t.toList) (hnot : hifBg n ∉ expand (layout b d)) :
    d.numBgAddr ≤ n := by
  by_contra hlt
  exact notMem_of_layout ht (by simp [hifBg]) hnot (hin (Nat.lt_of_not_le hlt))

/-- The stretches of the video mapping of DDR4, with what it puts in front of the banks and behind them. -/
def videoLayout (d : DimmParams) (front behind : Nat) : List (Nat × Nat) :=
  [(100, 3), (400, 1), (103, d.numColAddr - 3), (200, front), (300, d.numBankAddr),
    (200 + front, behind), (500, d.numRankAddr)]

theorem layout_video (he : Encoded d) (hbus : 32 < d.busWidth) (hm : b.mapping d = .video)
    (htype : d.memType = spdMemtypeDdr4) :
    layout b d = videoLayout d (calcBufWidth d b.videoBuf - d.numColAddr - 4)
      (sub32 d.numRowAddr (calcBufWidth d b.videoBuf - d.numColAddr - 4)) := by
  rw [← rows_wide he hbus b.videoBuf]
  simp only [layout, videoLayout, hm, htype, ne_eq, not_true_eq_false, if_false]

theorem le_length_videoLayout (d : DimmParams) (front behind : Nat) :
    behind ≤ (expand (videoLayout d front behind)).length := by
  simp only [videoLayout, length_expand, List.map_cons, List.map_nil, List.sum_cons, List.sum_nil]
  omega

/-- With fewer rows than stand in front of the banks, the rows behind them run off the table. -/
theorem rows_of_video (hlen : (expand (layout b d)).length ≤ 40) (he : Encoded d)
    (hbus : 32 < d.busWidth) (hm : b.mapping d = .video) (htype : d.memType = spdMemtypeDdr4) :
    calcBufWidth d b.videoBuf ≤ d.numColAddr + 4 + d.numRowAddr := by
  by_contra hlt
  have hwidth := calcBufWidth_wide hbus b.videoBuf
  have hfew : d.numRowAddr < calcBufWidth d b.videoBuf - d.numColAddr - 4 := by omega
  have hwrap := lt_sub32 hfew (by omega)
  rw [layout_video he hbus hm htype] at hlen
  exact absurd (Nat.lt_of_lt_of_le hwrap (le_length_videoLayout ..)) (Nat.not_lt_of_le hlen)

/-- It lays out one bank group. -/
theorem bg_one_videoLayout {front behind : Nat} (h : front + behind ≤ 19) (he : Encoded d) :
    hifBg 1 ∉ expand (videoLayout d front behind) := by
  have hcol := he.col
  have hbank := he.bank
  simp [videoLayout, hifBg]
  omega

/-- If column 2 and the bank groups are found, the mapping lays the groups out. -/
theorem laysOut_of_search {t : HifAddr} (he : Encoded d) (hbus : 32 < d.busWidth)
    (ht : hifTable b d = some t) (hcol2 : hifColumn 2 ∈ t.toList.drop 2)
    (hbg : ∀ n, n < d.numBgAddr → n < 2 ∧ hifBg n ∈ t.toList) : LaysOut b d := by
  have hadd := (hifTable_wide hbus).symm.trans ht
  have hle : d.numBgAddr ≤ 2 := by
    by_contra hlt
    exact absurd (hbg 2 (Nat.lt_of_not_le hlt)).1 (Nat.lt_irrefl 2)
  have hrow := he.row
  have hcol := he.col
  have hbank := he.bank
  unfold LaysOut
  cases hm : b.mapping d with
  | video =>
    have htype : d.memType = spdMemtypeDdr4 := by
      by_contra hne
      exact column_two_video ht hm hne hcol2
    have hrows := rows_of_video (toList_of_hifAddr hadd).1 he hbus hm htype
    refine ⟨htype, bg_le_of_mem hadd (fun h => (hbg 1 h).2) ?_, hrows⟩
    have hwidth := calcBufWidth_wide hbus b.videoBuf
    have hbehind := sub32_of_le
      (by omega : calcBufWidth d b.videoBuf - d.numColAddr - 4 ≤ d.numRowAddr) (by omega)
    rw [layout_video he hbus hm htype, hbehind]
    exact bg_one_videoLayout (by omega) he
  | hif =>
    refine Nat.le_zero.mp (bg_le_of_mem hadd (fun h => (hbg 0 h).2) ?_)
    simp [layout, hm, hifBg]
    omega
  | brc =>
    refine bg_le_of_mem hadd (fun h => (hbg 1 h).2) ?_
    simp [layout, hm, hifBg]
    omega
  | memMap => exact hle
  | ddr4 => exact hle

/-- What is placed fits. -/
theorem fits_of_places {csBase : Nat} {data d' : DdrcInitData} {writes : List (UInt32 × UInt32)}
    (he : Encoded data.pDimm) (hrun : ddrCalcAddrMap b data = some (d', writes))
    (hplaces : Places csBase data.pDimm writes) : Fits b data.pDimm := by
  obtain ⟨t, htable, rfl, hcs, hfields⟩ := ddrCalcAddrMap_some hrun
  have hselectable (x : DramBit) (hx : x.Needed data.pDimm) : x.Selectable := by
    by_contra hnot
    obtain ⟨p, hp⟩ := hplaces.placed x hx
    rw [position_unselectable hnot] at hp
    cases hp
  have hin (x : DramBit) (hx : x.Needed data.pDimm) (hrank : ¬ x.IsRank) :
      x.code ∈ t.toList.drop (x.base 0) :=
    mem_of_search_some hx (hfields x (hselectable x hx) hrank)
  have hcol2 : (DramBit.column 2).Needed data.pDimm := ⟨Nat.le_refl 2, by have := he.col; omega⟩
  have hbus : 32 < data.pDimm.busWidth := by
    by_contra hnarrow
    exact column_two_narrow htable (Nat.le_of_not_lt hnarrow) (hin _ hcol2 id)
  have hrank0 : data.pDimm.numRankAddr = 0 := by
    by_contra hne
    have hx : (DramBit.rank 0).Needed data.pDimm := Nat.pos_of_ne_zero hne
    obtain ⟨p, hp⟩ := hplaces.placed _ hx
    obtain ⟨s, hs⟩ := selector_exists csBase (hselectable _ hx)
    rw [position_registers hs, DramBit.field, hcs] at hp
    cases hp
  refine ⟨hbus, ?_, ?_, ?_, ?_, ?_⟩
  · have hne : data.pDimm.nRanks ≠ 0 := Nat.ne_of_gt he.ranks.1
    have hlog := (Nat.log2_lt (k := 1) hne).mp (by rw [← he.rankAddr, hrank0]; exact Nat.one_pos)
    have hpos := he.ranks.1
    omega
  · by_contra hlt
    exact absurd (hselectable (.column 12) ⟨by decide, Nat.lt_of_not_le hlt⟩).2 (Nat.lt_irrefl 12)
  · by_contra hlt
    exact Nat.lt_irrefl 3 (hselectable (.bank 3) (Nat.lt_of_not_le hlt))
  · by_contra hlt
    exact Nat.lt_irrefl 18 (hselectable (.row 18) (Nat.lt_of_not_le hlt))
  · exact laysOut_of_search he hbus htable (hin _ hcol2 id) fun n hn =>
      ⟨hselectable (.bankGroup n) hn, List.mem_of_mem_drop (hin (.bankGroup n) hn id)⟩

/-- **The address map of a DIMM is computed inside the table and places each of its address bits if and only if the
DIMM fits the mapping.** The HIF index that a field of 0 stands for is given by the source for each bit
but the rank. -/
theorem ddrCalcAddrMap_places_iff (csBase : Nat) (b : Build) {spd : Spd} {data : DdrcInitData}
    {d : DimmParams} (h : ddrComputeDimmParameters spd data.pDimm = (xfsblSuccess, d)) :
    (∃ d' writes, ddrCalcAddrMap b { data with pDimm := d } = some (d', writes) ∧
      Places csBase d writes) ↔ Fits b d := by
  have he := encoded_of_success h
  constructor
  · rintro ⟨d', writes, hrun, hplaces⟩
    exact fits_of_places he hrun hplaces
  · intro hf
    exact places_of_fits csBase he hf

/-- The SPD of a DDR4 UDIMM with one rank, 15 rows, 10 columns, 4 banks in each of 4 groups and the bus of the
byte `BusWidth`. -/
def udimmSpd (busWidth : UInt8) : Spd
  | 2 => 0x0C
  | 3 => 0x02
  | 4 => 0x85
  | 5 => 0x19
  | 12 => 0x01
  | 13 => busWidth
  | _ => 0

/-- `DdrData` of `XFsbl_DdrInit`. -/
def ddrData : DdrcInitData :=
  ⟨fun _ => 0, fun _ => 0, fun _ => 0, fun _ => 0, 0, 0, ⟨0, 0, 0, 0, 0, 0, 0, 0, 0, 0⟩⟩

def udimm (busWidth : Nat) : DimmParams := ⟨0x0C, 1, busWidth, 1, 0, 0, 15, 10, 2, 2⟩

theorem udimm_success : ddrComputeDimmParameters (udimmSpd 0x03) ddrData.pDimm =
    (xfsblSuccess, udimm 64) := by decide +kernel

/-- On 64 bits it is placed. -/
theorem ddrCalcAddrMap_places_iff_udimm :
    ∃ d' writes, ddrCalcAddrMap ⟨0, 0, 0, 0⟩ { ddrData with pDimm := udimm 64 } =
      some (d', writes) ∧ Places 6 (udimm 64) writes :=
  (ddrCalcAddrMap_places_iff 6 ⟨0, 0, 0, 0⟩ udimm_success).mpr
    ⟨by decide, by decide, by decide, by decide, by decide, by simp [LaysOut, Build.mapping, udimm, spdMemtypeDdr4]⟩

/-- On 32 bits the search for column 2 walks off the table. -/
theorem not_ddrCalcAddrMap_places : ¬ ∀ (csBase : Nat) (b : Build) (spd : Spd)
    (data : DdrcInitData) (d : DimmParams),
    ddrComputeDimmParameters spd data.pDimm = (xfsblSuccess, d) →
      ∃ d' writes, ddrCalcAddrMap b { data with pDimm := d } = some (d', writes) ∧
        Places csBase d writes := by
  intro h
  have hsuccess : ddrComputeDimmParameters (udimmSpd 0x02) ddrData.pDimm =
      (xfsblSuccess, udimm 32) := by decide +kernel
  obtain ⟨d', writes, hrun, -⟩ := h 6 ⟨0, 0, 0, 0⟩ (udimmSpd 0x02) ddrData (udimm 32) hsuccess
  have hnone : (ddrCalcAddrMap ⟨0, 0, 0, 0⟩ { ddrData with pDimm := udimm 32 }).isNone := by
    decide +kernel
  rw [hrun] at hnone
  cases hnone

end MeasuredBoot.Ddr
