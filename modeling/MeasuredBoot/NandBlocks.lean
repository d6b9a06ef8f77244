import MeasuredBoot.Initialization
import MeasuredBoot.Lib.Bytes
import Mathlib.Data.List.Flatten
import Mathlib.Tactic.Ring

/-!
# Bad blocks of a NAND (`XFsbl_NandCopy`)

`XFsbl_NandCopy` moves the start of a read one block on for each bad block among the first `k + 1`
physical blocks of the image, where `k` is the logical block of the start. The driver is not part of the
source: it is taken to skip each bad block it meets. `readsLogical_iff` says when the two give the bytes of
the good blocks in order.
-/

namespace MeasuredBoot.Nand

/-! ## Good blocks

A chip is `n` blocks of which `bad` are left out. -/

section Good

variable {bad : Nat → Bool} {n : Nat}

/-- The good blocks from `q` on. -/
def goodsFrom (bad : Nat → Bool) (n q : Nat) : List Nat := (List.range' q (n - q)).filter fun p => !bad p

/-- How many of the blocks `q, …, q + m - 1` are good. -/
def goodCount (bad : Nat → Bool) (q m : Nat) : Nat := (List.range' q m).countP fun p => !bad p

/-- How many of the blocks `q, …, q + m - 1` are bad. -/
def badCount (bad : Nat → Bool) (q m : Nat) : Nat := (List.range' q m).countP bad

theorem goodCount_add (bad : Nat → Bool) (q a b : Nat) :
    goodCount bad q (a + b) = goodCount bad q a + goodCount bad (q + a) b := by
  unfold goodCount
  rw [← List.range'_append_1, List.countP_append]

theorem goodCount_add_badCount (bad : Nat → Bool) (q m : Nat) : goodCount bad q m + badCount bad q m = m := by
  have h := List.length_eq_countP_add_countP bad (l := List.range' q m)
  rw [List.length_range'] at h
  simp only [goodCount, badCount]
  simp only [Bool.not_eq_true, Bool.decide_eq_false] at h
  omega

theorem badCount_succ (q m : Nat) :
    badCount bad q (m + 1) = badCount bad (q + 1) m + if bad q then 1 else 0 := by
  rw [badCount, List.range'_succ, List.countP_cons]
  rfl

theorem goodCount_eq_self (bad : Nat → Bool) {q m : Nat} :
    goodCount bad q m = m ↔ ∀ p, q ≤ p → p < q + m → bad p = false := by
  have h := List.countP_eq_length (p := fun p => !bad p) (l := List.range' q m)
  rw [List.length_range'] at h
  rw [goodCount, h]
  simp only [List.mem_range'_1, and_imp, Bool.not_eq_true']

theorem goodCount_eq_zero {q m : Nat} :
    goodCount bad q m = 0 ↔ ∀ p, q ≤ p → p < q + m → bad p = true := by
  rw [goodCount, List.countP_eq_zero]
  simp only [List.mem_range'_1, and_imp, Bool.not_eq_true', Bool.not_eq_false]

theorem goodsFrom_add (q a : Nat) (h : q + a ≤ n) :
    goodsFrom bad n q = (List.range' q a).filter (fun p => !bad p) ++ goodsFrom bad n (q + a) := by
  unfold goodsFrom
  rw [show n - q = a + (n - (q + a)) by omega, ← List.range'_append_1, List.filter_append]

theorem length_filter_good (q a : Nat) :
    ((List.range' q a).filter fun p => !bad p).length = goodCount bad q a :=
  List.countP_eq_length_filter.symm

theorem length_goodsFrom (q : Nat) : (goodsFrom bad n q).length = goodCount bad q (n - q) :=
  length_filter_good q (n - q)

theorem nodup_goodsFrom (q : Nat) : (goodsFrom bad n q).Nodup := (List.nodup_range' ..).filter _

theorem goodsFrom_good {p : Nat} (hb : bad p = false) (h : p < n) :
    goodsFrom bad n p = p :: goodsFrom bad n (p + 1) := by
  rw [goodsFrom_add p 1 (by omega)]
  simp [hb]

/-- The good block with `k` good ones before it. -/
theorem goodsFrom_getElem? {q k p : Nat} (h : (goodsFrom bad n q)[k]? = some p) :
    q ≤ p ∧ p < n ∧ bad p = false ∧ goodCount bad q (p - q) = k := by
  have hm := List.mem_of_getElem? h
  rw [goodsFrom, List.mem_filter, List.mem_range'_1] at hm
  obtain ⟨⟨h1, h2⟩, h3⟩ := hm
  refine ⟨h1, by omega, by simpa using h3, ?_⟩
  have hb : bad p = false := by simpa using h3
  have he := @goodsFrom_add bad n q (p - q) (by omega)
  rw [show q + (p - q) = p by omega, goodsFrom_good hb (by omega)] at he
  have hp : (goodsFrom bad n q)[goodCount bad q (p - q)]? = some p := by
    rw [he, List.getElem?_append_right (by rw [length_filter_good]), length_filter_good, Nat.sub_self]
    rfl
  have hlt : k < (goodsFrom bad n q).length := (List.getElem?_eq_some_iff.mp h).1
  exact ((List.getElem?_inj hlt (nodup_goodsFrom q)).mp (h.trans hp.symm)).symm

/-- Blocks of which `k` are good in front of a list with more than `k`. -/
theorem goodsFrom_split {b a k : Nat} (hk : k < (goodsFrom bad n b).length) (h : goodCount bad b a = k) :
    ∃ ps, ps.length = k ∧ goodsFrom bad n b = ps ++ goodsFrom bad n (b + a) := by
  have hba : b + a ≤ n := by
    by_contra hlt
    have hadd := goodCount_add bad b (n - b) (a - (n - b))
    rw [show n - b + (a - (n - b)) = a by omega, h, ← length_goodsFrom] at hadd
    omega
  exact ⟨_, (length_filter_good b a).trans h, goodsFrom_add b a hba⟩

theorem goodsFrom_of_bad {b : Nat} (hb : b ≤ n) (h : ∀ p, p < b → bad p = true) :
    goodsFrom bad n 0 = goodsFrom bad n b := by
  rw [goodsFrom_add 0 b (by omega), Nat.zero_add, List.filter_eq_nil_iff.mpr, List.nil_append]
  intro p hp
  rw [List.mem_range'_1] at hp
  simp [h p (by omega)]

/-- Moved by the bad blocks among the first `k + 1`, the start is at the `k`-th good block exactly if no bad
block follows in the way. -/
theorem goodsFrom_moved {b k p : Nat} (hp : (goodsFrom bad n b)[k]? = some p) :
    (goodsFrom bad n (b + (k + badCount bad b (k + 1))))[0]? = some p ↔
      goodCount bad b (k + badCount bad b (k + 1)) = k := by
  have hk : k < (goodsFrom bad n b).length := (List.getElem?_eq_some_iff.mp hp).1
  constructor
  · intro hq
    obtain ⟨hbp, -, -, hcount⟩ := goodsFrom_getElem? hp
    obtain ⟨hqp, -, -, hzero⟩ := goodsFrom_getElem? hq
    have hadd := goodCount_add bad b (k + badCount bad b (k + 1))
      (p - (b + (k + badCount bad b (k + 1))))
    rw [show k + badCount bad b (k + 1) + (p - (b + (k + badCount bad b (k + 1)))) = p - b by omega] at hadd
    omega
  · intro h
    obtain ⟨ps, hlen, hsplit⟩ := goodsFrom_split hk h
    rw [hsplit, List.getElem?_append_right (by omega), hlen, Nat.sub_self] at hp
    exact hp

theorem goodCount_moved {b k : Nat} :
    goodCount bad b (k + badCount bad b (k + 1)) = k ↔
      ∀ p, b + k < p → p < b + k + badCount bad b (k + 1) → bad p = false := by
  have hsum := goodCount_add_badCount bad b (k + 1)
  cases hc : badCount bad b (k + 1) with
  | zero =>
    have hadd := goodCount_add bad b k 1
    have hle := goodCount_add_badCount bad b k
    have hle' := goodCount_add_badCount bad (b + k) 1
    exact iff_of_true (by simp only [Nat.add_zero]; omega) fun p h1 h2 => by omega
  | succ c =>
    have hadd := goodCount_add bad b (k + 1) c
    rw [show k + 1 + c = k + (c + 1) by omega] at hadd
    have hself := @goodCount_eq_self bad (b + (k + 1)) c
    constructor
    · intro h p h1 h2
      exact hself.mp (by omega) p (by omega) (by omega)
    · intro h
      have := hself.mpr fun p h1 h2 => h p (by omega) (by omega)
      omega

/-! ### Their bytes -/

variable {flash : Nat → UInt8} {size : Nat}

/-- The bytes of block `p`, each block of `size`. -/
def blockBytes (flash : Nat → UInt8) (size p : Nat) : List UInt8 := (List.range' (p * size) size).map flash

/-- The `len` bytes at `off` of the good blocks from `q` on, one behind the other. -/
def goodBytes (flash : Nat → UInt8) (size : Nat) (goods : List Nat) (off len : Nat) : List UInt8 :=
  ((goods.flatMap (blockBytes flash size)).drop off).take len

theorem length_flatMap_blockBytes (flash : Nat → UInt8) (size : Nat) (ps : List Nat) :
    (ps.flatMap (blockBytes flash size)).length = ps.length * size := by
  induction ps with
  | nil => simp
  | cons p ps ih =>
    rw [List.flatMap_cons, List.length_append, ih, List.length_cons, Nat.add_mul]
    simp only [blockBytes, List.length_map, List.length_range']
    omega

/-- Whole blocks are left out by their count. -/
theorem goodBytes_append (flash : Nat → UInt8) (size : Nat) (ps qs : List Nat) (off len : Nat) :
    goodBytes flash size (ps ++ qs) (ps.length * size + off) len = goodBytes flash size qs off len := by
  unfold goodBytes
  rw [List.flatMap_append, ← List.drop_drop, ← length_flatMap_blockBytes flash size ps,
    List.drop_left]

@[simp] theorem goodBytes_zero (ps : List Nat) (off : Nat) : goodBytes flash size ps off 0 = [] :=
  List.take_zero ..

/-- The first byte is in the `k`-th good block. -/
theorem goodBytes_head (flash : Nat → UInt8) {size : Nat} {ps : List Nat} {k p off len : Nat} (hp : ps[k]? = some p) (h : off < size)
    (hl : 0 < len) :
    (goodBytes flash size ps (k * size + off) len)[0]? = some (flash (p * size + off)) := by
  obtain ⟨hlt, hget⟩ := List.getElem?_eq_some_iff.mp hp
  have hsplit := List.take_append_drop k ps
  rw [List.drop_eq_getElem_cons hlt, hget] at hsplit
  have happ := goodBytes_append flash size (ps.take k) (p :: ps.drop (k + 1)) off len
  rw [hsplit, List.length_take, Nat.min_eq_left (Nat.le_of_lt hlt)] at happ
  rw [happ, goodBytes, List.getElem?_take_of_lt hl, List.getElem?_drop, List.flatMap_cons,
    List.getElem?_append_left (by simpa [blockBytes] using h)]
  simp [blockBytes, h]

end Good

/-! ## The source -/

/-- What `XFsbl_NandCopy` reads of `NandInstPtr`. A block has more than one byte. -/
structure NandPsu where
  blockSize : UInt32
  numBlocks : Nat
  bad : Nat → Bool
  one_lt : 1 < blockSize.toNat

/-- `XNandPsu_Read` over the content of the flash: its status for an offset and a length, and the bytes
it delivers. -/
abbrev Driver := (Nat → UInt8) → UInt64 → UInt64 → UInt32 × List UInt8

def xstSuccess : UInt32 := 0

def xstFailure : UInt32 := 1

def xfsblErrorNandRead : UInt32 := 0x2D

/-- The loop over `NoofBlocks`. -/
def realAddress (g : NandPsu) : Nat → UInt32 → UInt32 → UInt32
  | 0, _, realSrcAddress => realSrcAddress
  | noofBlocks + 1, currentBlock, realSrcAddress =>
    let realSrcAddress :=
      if g.bad currentBlock.toNat then realSrcAddress + g.blockSize else realSrcAddress
    realAddress g noofBlocks (currentBlock + 1) realSrcAddress

def xfsblNandCopy (g : NandPsu) (driver : Driver) (flash : Nat → UInt8) (multiBootOffset : UInt32)
    (m : Mem) (srcAddress : UInt32) (destAddress : UInt64) (length : UInt32) : UInt32 × Mem :=
  let flashImageOffsetAddress := multiBootOffset * xfsblImageSearchOffset
  let currentBlock := flashImageOffsetAddress / g.blockSize
  let noofBlocks := (srcAddress - flashImageOffsetAddress) / g.blockSize + 1
  let realSrcAddress := realAddress g noofBlocks.toNat currentBlock srcAddress
  let (status, bytes) := driver flash realSrcAddress.toUInt64 length.toUInt64
  let m := m.store destAddress.toNat bytes
  if status ≠ xstSuccess then (xfsblErrorNandRead, m) else (status, m)

/-! ## The driver -/

namespace NandPsu

variable (g : NandPsu)

/-- The size of a block. -/
def size : Nat := g.blockSize.toNat

/-- The good blocks from `q` on. -/
def goods (q : Nat) : List Nat := goodsFrom g.bad g.numBlocks q

/-- The good blocks from `q` on hold `len` bytes at `off`. -/
def Fits (q off len : Nat) : Prop := len = 0 ∨ off + len ≤ (g.goods q).length * g.size

end NandPsu

/-- The driver reads from its start address on, leaves out each bad block it meets, and fails where the
good blocks do not hold the length. -/
structure SkipsBadBlocks (g : NandPsu) (driver : Driver) : Prop where
  read (flash : Nat → UInt8) (offset length : UInt64) :
    g.Fits (offset.toNat / g.size) (offset.toNat % g.size) length.toNat →
      driver flash offset length = (xstSuccess, goodBytes flash g.size (g.goods (offset.toNat / g.size))
        (offset.toNat % g.size) length.toNat)
  fails (flash : Nat → UInt8) (offset length : UInt64) :
    ¬ g.Fits (offset.toNat / g.size) (offset.toNat % g.size) length.toNat →
      (driver flash offset length).1 ≠ xstSuccess

/-! ## The start of the read -/

section Start

variable {g : NandPsu}

theorem realAddress_toNat (k : Nat) (cur real : UInt32) (h : cur.toNat + k < 2 ^ 32) :
    (realAddress g k cur real).toNat = (real.toNat + badCount g.bad cur.toNat k * g.size) % 2 ^ 32 := by
  induction k generalizing cur real with
  | zero => simp [realAddress, badCount, Nat.mod_eq_of_lt real.toNat_lt]
  | succ k ih =>
    have hc : (cur + 1).toNat = cur.toNat + 1 := by
      rw [UInt32.toNat_add, UInt32.toNat_one]
      omega
    rw [realAddress, ih _ _ (by omega), hc, badCount_succ]
    split
    next hb =>
      rw [UInt32.toNat_add, Nat.mod_add_mod, NandPsu.size]
      congr 1
      ring
    next hb => simp

/-- A start that wrapped is right only at the first block of the chip, with the image in the last block
below 4 GiB and nothing good up to there. -/
theorem start_wrapped {b k q w p : Nat} (hw : 0 < w)
    (hq : q * g.size + w * 2 ^ 32 = (b + (k + badCount g.bad b (k + 1))) * g.size)
    (hk : (b + k) * g.size < 2 ^ 32) (hp : (g.goods b)[k]? = some p) (hpq : (g.goods q)[0]? = some p) :
    (b + 1) * g.size = 2 ^ 32 ∧ ∀ x, x ≤ b → g.bad x = true := by
  obtain ⟨hbp, -, hgood, hcount⟩ := goodsFrom_getElem? hp
  obtain ⟨hqp, -, -, hzero⟩ := goodsFrom_getElem? hpq
  have hsum := goodCount_add_badCount g.bad b (k + 1)
  have hcq : b + k + q < b + (k + badCount g.bad b (k + 1)) := by
    refine Nat.lt_of_mul_lt_mul_right (a := g.size) ?_
    rw [Nat.add_mul _ q]
    omega
  have hqb : q ≤ b := by
    by_contra hlt
    have hadd := goodCount_add g.bad b (q - b) (p - q)
    rw [show q - b + (p - q) = p - b by omega, show b + (q - b) = q by omega] at hadd
    have hle := goodCount_add_badCount g.bad b (q - b)
    have hone := goodCount_add g.bad b k 1
    rw [show q - b = k by omega] at hadd
    omega
  have hadd := goodCount_add g.bad q (b - q) (p - b)
  rw [show b - q + (p - b) = p - q by omega, show q + (b - q) = b by omega] at hadd
  obtain rfl : k = 0 := by omega
  obtain rfl : q = 0 := by omega
  have hone : badCount g.bad b (0 + 1) = 1 := by omega
  have hne : b ≠ p := by
    rintro rfl
    simp [badCount, hgood] at hone
  rw [hone, Nat.zero_mul, Nat.zero_add, Nat.zero_add] at hq
  rw [Nat.add_zero] at hk
  refine ⟨?_, fun x hx => goodCount_eq_zero.mp hzero x (by omega) (by omega)⟩
  have hsize : g.size < 2 ^ 32 := g.blockSize.toNat_lt
  have hw1 : w = 1 := by
    rw [Nat.add_mul] at hq
    omega
  rw [← hq, hw1, Nat.one_mul]

/-- Where the read starts. -/
theorem realAddress_start {base src : UInt32} {b : Nat} (hbase : base.toNat = b * g.size)
    (hsrc : base ≤ src) :
    (realAddress g ((src - base) / g.blockSize + 1).toNat (base / g.blockSize) src).toNat =
      (src.toNat + badCount g.bad b ((src.toNat - b * g.size) / g.size + 1) * g.size) % 2 ^ 32 := by
  have hone : 1 < g.size := g.one_lt
  have hsize : g.blockSize.toNat = g.size := rfl
  have hcur : (base / g.blockSize).toNat = b := by
    rw [UInt32.toNat_div, hbase, hsize, Nat.mul_div_cancel b (by omega)]
  have hle : base.toNat ≤ src.toNat := UInt32.le_iff_toNat_le.mp hsrc
  have hdiv : ((src - base) / g.blockSize).toNat = (src.toNat - b * g.size) / g.size := by
    rw [UInt32.toNat_div, UInt32.toNat_sub_of_le _ _ hsrc, hbase, hsize]
  have hlt := src.toNat_lt
  have hk : (src.toNat - b * g.size) / g.size ≤ (src.toNat - b * g.size) / 2 :=
    Nat.div_le_div_left hone (by omega)
  have hcount : ((src - base) / g.blockSize + 1).toNat = (src.toNat - b * g.size) / g.size + 1 := by
    rw [UInt32.toNat_add, hdiv, UInt32.toNat_one]
    omega
  have hb : b * 2 ≤ b * g.size := Nat.mul_le_mul_left b hone
  rw [realAddress_toNat _ _ _ (by omega), hcur, hcount]

end Start

/-! ## Logical blocks -/

section Logical

variable {g : NandPsu} {driver : Driver} {multiBootOffset srcAddress length : UInt32} {b : Nat}

/-- `XFsbl_NandCopy` succeeds with the bytes at `SrcAddress` in the good blocks from block `b` on, where the
image starts. -/
def ReadsLogical (g : NandPsu) (driver : Driver) (multiBootOffset : UInt32) (b : Nat)
    (srcAddress length : UInt32) : Prop :=
  ∀ flash m destAddress,
    xfsblNandCopy g driver flash multiBootOffset m srcAddress destAddress length =
      (xfsblSuccess, m.store destAddress.toNat
        (goodBytes flash g.size (g.goods b) (srcAddress.toNat - b * g.size) length.toNat))

/-- No block that the start has to be moved over is missed: none of those behind block `b + k` is bad. Or the
address wraps to the start of the chip, and the blocks up to the image are all bad. -/
def StartRight (g : NandPsu) (b : Nat) (srcAddress : UInt32) : Prop :=
  let k := (srcAddress.toNat - b * g.size) / g.size
  let c := badCount g.bad b (k + 1)
  (srcAddress.toNat + c * g.size < 2 ^ 32 ∧ ∀ p, b + k < p → p < b + k + c → g.bad p = false) ∨
    ((b + 1) * g.size = 2 ^ 32 ∧ ∀ p, p ≤ b → g.bad p = true)

/-- The good blocks that the read starts in are those behind the first `k` of the image. -/
theorem startRight_goods {k R : Nat} (hlen : k < (g.goods b).length)
    (hk : (srcAddress.toNat - b * g.size) / g.size = k) (hb : b * g.size ≤ srcAddress.toNat)
    (hR : (srcAddress.toNat + badCount g.bad b (k + 1) * g.size) % 2 ^ 32 = R)
    (h : StartRight g b srcAddress) :
    R % g.size = (srcAddress.toNat - b * g.size) % g.size ∧
      ∃ ps, ps.length = k ∧ g.goods b = ps ++ g.goods (R / g.size) := by
  have hpos : 0 < g.size := Nat.lt_of_succ_lt g.one_lt
  have hdiv := Nat.div_add_mod (srcAddress.toNat - b * g.size) g.size
  rw [hk] at hdiv
  have hlt := Nat.mod_lt (srcAddress.toNat - b * g.size) hpos
  generalize (srcAddress.toNat - b * g.size) % g.size = o at hdiv hlt ⊢
  have hsrc : srcAddress.toNat = o + g.size * (b + k) := by
    rw [Nat.mul_add, Nat.mul_comm g.size b]
    omega
  unfold StartRight at h
  simp only [hk] at h
  rcases h with ⟨hnowrap, hnone⟩ | ⟨hend, hall⟩
  · rw [Nat.mod_eq_of_lt hnowrap, hsrc] at hR
    have hR' : R = o + g.size * (b + (k + badCount g.bad b (k + 1))) := by
      rw [← hR]
      ring
    rw [hR', Nat.add_mul_mod_self_left, Nat.mod_eq_of_lt hlt, Nat.add_mul_div_left _ _ hpos,
      Nat.div_eq_of_lt hlt, Nat.zero_add]
    exact ⟨rfl, goodsFrom_split hlen (goodCount_moved.mpr hnone)⟩
  · have h32 := srcAddress.toNat_lt
    have hk0 : k = 0 := by
      have : b + k < b + 1 := by
        refine Nat.lt_of_mul_lt_mul_left (a := g.size) ?_
        rw [Nat.mul_comm g.size (b + 1)]
        omega
      omega
    subst hk0
    have hbad : badCount g.bad b (0 + 1) = 1 := by simp [badCount, hall b (Nat.le_refl b)]
    have hR' : R = o := by
      rw [← hR, hbad, hsrc]
      rw [show o + g.size * (b + 0) + 1 * g.size = o + (b + 1) * g.size by ring, hend,
        Nat.add_mod_right, Nat.mod_eq_of_lt (Nat.lt_trans hlt g.blockSize.toNat_lt)]
    rw [hR', Nat.mod_eq_of_lt hlt, Nat.div_eq_of_lt hlt]
    refine ⟨rfl, [], rfl, (goodsFrom_of_bad ?_ fun p hp => hall p (by omega)).symm⟩
    by_contra hn
    rw [NandPsu.goods, length_goodsFrom, show g.numBlocks - b = 0 by omega] at hlen
    exact absurd hlen (by simp [goodCount])

/-- A read whose first byte is right starts right. -/
theorem startRight_of_first {k o R p : Nat} (hk : (srcAddress.toNat - b * g.size) / g.size = k)
    (ho : (srcAddress.toNat - b * g.size) % g.size = o) (hb : b * g.size ≤ srcAddress.toNat)
    (hR : (srcAddress.toNat + badCount g.bad b (k + 1) * g.size) % 2 ^ 32 = R)
    (hp : (g.goods b)[k]? = some p) (hp' : (g.goods (R / g.size))[0]? = some p) (hmod : R % g.size = o) :
    StartRight g b srcAddress := by
  have hpos : 0 < g.size := Nat.lt_of_succ_lt g.one_lt
  have hdiv := Nat.div_add_mod' (srcAddress.toNat - b * g.size) g.size
  have hdivR := Nat.div_add_mod' R g.size
  have hwrap := Nat.div_add_mod' (srcAddress.toNat + badCount g.bad b (k + 1) * g.size) (2 ^ 32)
  have h32 := srcAddress.toNat_lt
  rw [hk, ho] at hdiv
  rw [hmod] at hdivR
  rw [hR] at hwrap
  have hq : R / g.size * g.size + (srcAddress.toNat + badCount g.bad b (k + 1) * g.size) / 2 ^ 32 * 2 ^ 32 =
      (b + (k + badCount g.bad b (k + 1))) * g.size := by
    rw [Nat.add_mul, Nat.add_mul]
    omega
  unfold StartRight
  simp only [hk]
  rcases Nat.eq_zero_or_pos ((srcAddress.toNat + badCount g.bad b (k + 1) * g.size) / 2 ^ 32) with hw | hw
  · rw [hw, Nat.zero_mul, Nat.add_zero] at hq
    rw [Nat.eq_of_mul_eq_mul_right hpos hq] at hp'
    exact .inl ⟨Nat.lt_of_div_eq_zero (by decide) hw, goodCount_moved.mp ((goodsFrom_moved hp).mp hp')⟩
  · exact .inr (start_wrapped hw hq (by rw [Nat.add_mul]; omega) hp hp')

/-- The copy of a length that fits behind the start. -/
theorem nandCopy_fits (h : SkipsBadBlocks g driver) (flash : Nat → UInt8) (m : Mem) (destAddress : UInt64)
    {base : UInt32} (hbase : multiBootOffset * xfsblImageSearchOffset = base) {R : Nat}
    (hR : (realAddress g ((srcAddress - base) / g.blockSize + 1).toNat (base / g.blockSize)
      srcAddress).toNat = R) (hf : g.Fits (R / g.size) (R % g.size) length.toNat) :
    xfsblNandCopy g driver flash multiBootOffset m srcAddress destAddress length =
      (xfsblSuccess, m.store destAddress.toNat
        (goodBytes flash g.size (g.goods (R / g.size)) (R % g.size) length.toNat)) := by
  subst hR hbase
  have hread := h.read flash (realAddress g _ _ srcAddress).toUInt64 length.toUInt64 hf
  unfold xfsblNandCopy
  simp only [hread]
  rfl

theorem nandCopy_not_fits (h : SkipsBadBlocks g driver) (flash : Nat → UInt8) (m : Mem)
    (destAddress : UInt64) {base : UInt32} (hbase : multiBootOffset * xfsblImageSearchOffset = base) {R : Nat}
    (hR : (realAddress g ((srcAddress - base) / g.blockSize + 1).toNat (base / g.blockSize)
      srcAddress).toNat = R) (hf : ¬ g.Fits (R / g.size) (R % g.size) length.toNat) :
    (xfsblNandCopy g driver flash multiBootOffset m srcAddress destAddress length).1 =
      xfsblErrorNandRead := by
  subst hR hbase
  have hfails := h.fails flash (realAddress g _ _ srcAddress).toUInt64 length.toUInt64 hf
  unfold xfsblNandCopy
  simp only
  rw [if_pos hfails]

/-- For every pattern of bad blocks, image base block, address and length within the good blocks. -/
theorem readsLogical_iff (h : SkipsBadBlocks g driver)
    (hbase : (multiBootOffset * xfsblImageSearchOffset).toNat = b * g.size)
    (hsrc : multiBootOffset * xfsblImageSearchOffset ≤ srcAddress)
    (hfits : g.Fits b (srcAddress.toNat - b * g.size) length.toNat) :
    ReadsLogical g driver multiBootOffset b srcAddress length ↔
      length = 0 ∨ StartRight g b srcAddress := by
  have hpos : 0 < g.size := Nat.lt_of_succ_lt g.one_lt
  have hR := realAddress_start (g := g) hbase hsrc
  have hle : b * g.size ≤ srcAddress.toNat := hbase ▸ UInt32.le_iff_toNat_le.mp hsrc
  by_cases hz : length = 0
  · subst hz
    refine iff_of_true (fun flash m destAddress => ?_) (.inl rfl)
    rw [nandCopy_fits h _ _ _ rfl hR (.inl rfl)]
    simp
  have hl : 0 < length.toNat := Nat.pos_of_ne_zero fun h0 => hz (UInt32.toNat_inj.mp h0)
  have hcap := hfits.resolve_left (by omega)
  have hdiv := Nat.div_add_mod' (srcAddress.toNat - b * g.size) g.size
  have hlt := Nat.mod_lt (srcAddress.toNat - b * g.size) hpos
  have hmod : (srcAddress.toNat + badCount g.bad b ((srcAddress.toNat - b * g.size) / g.size + 1) *
      g.size) % 2 ^ 32 % g.size < g.size := Nat.mod_lt _ hpos
  have hlen : (srcAddress.toNat - b * g.size) / g.size < (g.goods b).length :=
    (Nat.div_lt_iff_lt_mul hpos).mpr (by omega)
  rw [or_iff_right hz]
  generalize hk : (srcAddress.toNat - b * g.size) / g.size = k at *
  generalize ho : (srcAddress.toNat - b * g.size) % g.size = o at *
  generalize hRn : (srcAddress.toNat + badCount g.bad b (k + 1) * g.size) % 2 ^ 32 = R at *
  constructor
  · intro hright
    obtain ⟨p, hp⟩ : ∃ p, (g.goods b)[k]? = some p := ⟨_, List.getElem?_eq_getElem hlen⟩
    -- a flash with a single byte set, the first one to be read
    have heq := hright (fun x => if x = p * g.size + o then 1 else 0) (fun _ => 0) 0
    have hfitsR : g.Fits (R / g.size) (R % g.size) length.toNat := by
      by_contra hn
      have herr := nandCopy_not_fits h (fun x => if x = p * g.size + o then 1 else 0) (fun _ => 0) 0
        rfl hR hn
      rw [heq] at herr
      exact absurd (show xfsblSuccess = xfsblErrorNandRead from herr) (by decide)
    have hlenR : 0 < (g.goods (R / g.size)).length := by
      refine Nat.pos_of_ne_zero fun h0 => ?_
      rcases hfitsR with h | h
      · omega
      · rw [h0] at h
        omega
    obtain ⟨p', hp'⟩ : ∃ p', (g.goods (R / g.size))[0]? = some p' := ⟨_, List.getElem?_eq_getElem hlenR⟩
    rw [nandCopy_fits h _ _ _ rfl hR hfitsR, ← hdiv] at heq
    have hhead := congrFun (congrArg Prod.snd heq) 0
    have hheadR := goodBytes_head (fun x => if x = p * g.size + o then 1 else 0) hp' hmod hl
    rw [Nat.zero_mul, Nat.zero_add] at hheadR
    simp only [Mem.store, UInt64.toNat_zero, Nat.le_refl, if_true, Nat.sub_self, hheadR,
      goodBytes_head _ hp hlt hl, Option.getD_some] at hhead
    have haddr : p' * g.size + R % g.size = p * g.size + o := by
      by_contra hne
      rw [if_neg hne] at hhead
      exact absurd hhead (by decide)
    have hpp : p' = p := by
      have h1 := congrArg (· / g.size) haddr
      simp only [Nat.mul_comm _ g.size, Nat.mul_add_div hpos, Nat.div_eq_of_lt hlt,
        Nat.div_eq_of_lt hmod, Nat.add_zero] at h1
      exact h1
    subst hpp
    exact startRight_of_first hk ho hle hRn hp hp' (by omega)
  · intro hs flash m destAddress
    obtain ⟨hmodR, ps, hps, hsplit⟩ := startRight_goods hlen hk hle hRn hs
    rw [ho] at hmodR
    rw [nandCopy_fits h _ _ _ rfl hR (.inr ?_), hsplit, ← hdiv, ← hps, goodBytes_append, hmodR]
    rw [hsplit, List.length_append, hps, Nat.add_mul] at hcap
    omega

/-! ### Chips -/

instance {q off len : Nat} : Decidable (g.Fits q off len) := inferInstanceAs (Decidable (_ ∨ _))

/-- A driver that leaves out bad blocks. -/
def readSkipping (g : NandPsu) : Driver := fun flash offset length =>
  let q := offset.toNat / g.size
  let off := offset.toNat % g.size
  if g.Fits q off length.toNat then
    (xstSuccess, goodBytes flash g.size (g.goods q) off length.toNat)
  else (xstFailure, [])

theorem skipsBadBlocks_readSkipping (g : NandPsu) : SkipsBadBlocks g (readSkipping g) where
  read _ _ _ hf := if_pos hf
  fails _ _ _ hf := by
    rw [readSkipping, if_neg hf]
    decide

/-- Eight blocks of 128 KiB, with `k` bad ones behind the first. -/
def badChip (k : Nat) : NandPsu where
  blockSize := 0x20000
  numBlocks := 8
  bad := fun p => 0 < p ∧ p ≤ k
  one_lt := by decide

/-- One bad block moves the read of logical block 1 to block 2. -/
theorem readsLogical_badSecond : ReadsLogical (badChip 1) (readSkipping (badChip 1)) 0 0 0x20000 1 :=
  (readsLogical_iff (skipsBadBlocks_readSkipping _) (by decide) (by decide) (by decide)).mpr
    (.inr (.inl ⟨by decide, fun p h1 h2 => absurd h2 (by
      rw [show badCount (badChip 1).bad 0 ((UInt32.toNat 0x20000 - 0 * (badChip 1).size) /
        (badChip 1).size + 1) = 1 by decide] at *
      rw [show (UInt32.toNat 0x20000 - 0 * (badChip 1).size) / (badChip 1).size = 1 by decide] at *
      omega)⟩))

/-- With three bad blocks in a row the read of logical block 2 counts two of them, and delivers logical
block 1. -/
theorem not_readsLogical :
    ¬ ∀ (g : NandPsu) (driver : Driver) (multiBootOffset : UInt32) (b : Nat) (srcAddress length : UInt32),
      SkipsBadBlocks g driver →
      (multiBootOffset * xfsblImageSearchOffset).toNat = b * g.size →
      multiBootOffset * xfsblImageSearchOffset ≤ srcAddress →
      g.Fits b (srcAddress.toNat - b * g.size) length.toNat →
      ReadsLogical g driver multiBootOffset b srcAddress length := by
  intro hall
  have hskip := skipsBadBlocks_readSkipping (badChip 3)
  have heq := hall (badChip 3) (readSkipping (badChip 3)) 0 0 0x40000 1 hskip (by decide) (by decide)
    (by decide) (fun x => if x = 5 * 0x20000 then 1 else 0) (fun _ => 0) 0
  rw [nandCopy_fits (R := 0x80000) hskip _ _ _ rfl (by decide) (by decide)] at heq
  have hhead := congrFun (congrArg Prod.snd heq) 0
  have hread := @goodBytes_head (fun x => if x = 5 * 0x20000 then 1 else 0) (badChip 3).size
    ((badChip 3).goods 4) 0 4 0 1 rfl (by decide) (by decide)
  have hlogical := @goodBytes_head (fun x => if x = 5 * 0x20000 then 1 else 0) (badChip 3).size
    ((badChip 3).goods 0) 2 5 0 1 rfl (by decide) (by decide)
  have h3 : 0x80000 / (badChip 3).size = 4 ∧ 0x80000 % (badChip 3).size = 0 * (badChip 3).size + 0 ∧
      UInt32.toNat 0x40000 - 0 * (badChip 3).size = 2 * (badChip 3).size + 0 := by decide
  rw [h3.1, h3.2.1, h3.2.2] at hhead
  simp only [Mem.store, UInt64.toNat_zero, Nat.le_refl, if_true, Nat.sub_self] at hhead
  rw [show UInt32.toNat 1 = 1 from rfl, hread, hlogical] at hhead
  exact absurd hhead (by decide)

end Logical

end MeasuredBoot.Nand
