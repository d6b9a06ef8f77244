import MeasuredBoot.Lib.Bytes
import Mathlib.Logic.Function.Iterate

/-!
# Names of the images on a card (`XFsbl_MakeSdFileName`)

The name of the image on SD and eMMC is made from the multi-boot register: `BOOT.BIN` for zero, else the
last four decimal digits, added from the right into the zeros of `BOOT0000.BIN`. The loop stops when
nothing is left of the value or of the digits. `sdFileName_eq_iff` says which values share a name.
-/

namespace MeasuredBoot.Sd

/-! ## The source -/

def xfsblBaseFileNameLenSd0 : UInt32 := 8
def xfsblBaseFileNameLenSd1 : UInt32 := 11
def xfsblNumDigitsInFileName : UInt32 := 4
def xfsblSdDrvNum0 : UInt32 := 0

/-- The size of `buffer` in `XFsbl_SdInit`. -/
def bufferSize : Nat := 32

def bootBin : List UInt8 := ascii ['B', 'O', 'O', 'T', '.', 'B', 'I', 'N']

def bootBinSd1 : List UInt8 := ascii ['1', ':', '/', 'B', 'O', 'O', 'T', '.', 'B', 'I', 'N']

def boot0000Bin : List UInt8 := ascii ['B', 'O', 'O', 'T', '0', '0', '0', '0', '.', 'B', 'I', 'N']

def boot0000BinSd1 : List UInt8 :=
  ascii ['1', ':', '/', 'B', 'O', 'O', 'T', '0', '0', '0', '0', '.', 'B', 'I', 'N']

def xfsblStrcpy (m : Mem) (destPtr : Nat) : List UInt8 → Mem
  | [] => m.store destPtr [0]
  | c :: srcPtr => xfsblStrcpy (m.store destPtr [c]) (destPtr + 1) srcPtr

/-- The loop over the digits, of at most `fuel` rounds. -/
def updateFileName (fileName : Nat) (fileNameLen : UInt32) :
    Nat → UInt32 → UInt32 → Mem → Option Mem
  | 0, _, _, _ => none
  | fuel + 1, index, multiBootNum, m =>
    if index ≥ fileNameLen - xfsblNumDigitsInFileName then
      let value := multiBootNum % 10
      let multiBootNum := multiBootNum / 10
      let digit := fileName + index.toNat
      let m := m.store digit [m digit + value.toUInt8]
      if multiBootNum = 0 then some m
      else updateFileName fileName fileNameLen fuel (index - 1) multiBootNum m
    else some m

def xfsblMakeSdFileName (fuel : Nat) (m : Mem) (fileName : Nat) (multibootReg drvNum : UInt32) :
    Option Mem :=
  if multibootReg = 0 then
    if drvNum = xfsblSdDrvNum0 then some (xfsblStrcpy m fileName bootBin)
    else some (xfsblStrcpy m fileName bootBinSd1)
  else if drvNum = xfsblSdDrvNum0 then
    updateFileName fileName xfsblBaseFileNameLenSd0 fuel (xfsblBaseFileNameLenSd0 - 1) multibootReg
      (xfsblStrcpy m fileName boot0000Bin)
  else
    updateFileName fileName xfsblBaseFileNameLenSd1 fuel (xfsblBaseFileNameLenSd1 - 1) multibootReg
      (xfsblStrcpy m fileName boot0000BinSd1)

/-- The multi-boot register behind `XFsbl_FallBack`. -/
def fallBack (multiBoot : UInt32) : UInt32 := multiBoot + 1

/-! ## Decimal digits -/

/-- The last `k` decimal digits of `n`. -/
def decimal : Nat → Nat → List UInt8
  | 0, _ => []
  | k + 1, n => decimal k (n / 10) ++ [48 + .ofNat (n % 10)]

@[simp] theorem length_decimal (k n : Nat) : (decimal k n).length = k := by
  induction k generalizing n with
  | zero => rfl
  | succ k ih => rw [decimal, List.length_append, ih, List.length_singleton]

theorem decimal_zero (k : Nat) : decimal k 0 = List.replicate k 48 := by
  induction k with
  | zero => rfl
  | succ k ih =>
    rw [decimal, Nat.zero_div, ih, List.replicate_succ']
    rfl

theorem digit_toNat (n : Nat) : (48 + UInt8.ofNat (n % 10)).toNat = 48 + n % 10 := by
  rw [UInt8.toNat_add, UInt8.toNat_ofNat', show (48 : UInt8).toNat = 48 from rfl]
  omega

/-- The digits say the number up to a power of ten. -/
theorem decimal_eq_iff (k n m : Nat) : decimal k n = decimal k m ↔ n % 10 ^ k = m % 10 ^ k := by
  induction k generalizing n m with
  | zero => simp [decimal, Nat.mod_one]
  | succ k ih =>
    have hn := Nat.mod_mul (x := n) (a := 10) (b := 10 ^ k)
    have hm := Nat.mod_mul (x := m) (a := 10) (b := 10 ^ k)
    rw [Nat.pow_succ', hn, hm, decimal, decimal]
    have hlast : (48 + UInt8.ofNat (n % 10) = 48 + UInt8.ofNat (m % 10)) ↔ n % 10 = m % 10 := by
      rw [← UInt8.toNat_inj, digit_toNat, digit_toNat, Nat.add_left_cancel_iff]
    constructor
    · intro h
      obtain ⟨hinit, hdigit⟩ := List.append_inj' h rfl
      rw [hlast.1 (List.cons.inj hdigit).1, (ih _ _).1 hinit]
    · intro h
      have hdigit : n % 10 = m % 10 := by
        have := congrArg (· % 10) h
        simp only [Nat.add_mul_mod_self_left] at this
        omega
      have hinit : n / 10 % 10 ^ k = m / 10 % 10 ^ k := by
        rw [hdigit] at h
        exact Nat.eq_of_mul_eq_mul_left (by decide) (Nat.add_left_cancel h)
      rw [(ih _ _).2 hinit, hdigit]

theorem zero_notMem_decimal (k n : Nat) : (0 : UInt8) ∉ decimal k n := by
  induction k generalizing n with
  | zero => exact List.not_mem_nil
  | succ k ih =>
    rw [decimal, List.mem_append, List.mem_singleton, not_or]
    refine ⟨ih _, fun h => ?_⟩
    have := congrArg UInt8.toNat h
    rw [digit_toNat, show (0 : UInt8).toNat = 0 from rfl] at this
    omega

/-! ## The name -/

/-- The name of the image: the digits of the register, if it is not zero. -/
def sdFileName (multibootReg drvNum : UInt32) : CStr where
  chars := (if drvNum = xfsblSdDrvNum0 then [] else ascii ['1', ':', '/']) ++ ascii ['B', 'O', 'O', 'T'] ++
    (if multibootReg = 0 then [] else decimal 4 multibootReg.toNat) ++ ascii ['.', 'B', 'I', 'N']
  noNul := by
    simp only [List.mem_append, not_or]
    refine ⟨⟨⟨?_, by decide⟩, ?_⟩, by decide⟩
    · split <;> decide
    · split
      · exact List.not_mem_nil
      · exact zero_notMem_decimal _ _

section Loop

variable {m : Mem} {a fuel : Nat} {bs cs : List UInt8}

theorem xfsblStrcpy_eq (m : Mem) (a : Nat) (bs : List UInt8) :
    xfsblStrcpy m a bs = m.store a (bs ++ [0]) := by
  induction bs generalizing m a with
  | nil => rfl
  | cons b bs ih =>
    rw [xfsblStrcpy, ih, Mem.store_append (by rfl)]
    rfl

/-- `k` digits from the right, over zeros, down to the place `lo`. The guard ends the loop before the
index wraps. -/
theorem updateFileName_eq {fileName k : Nat} {fileNameLen lo index multiBootNum : UInt32}
    (hlo : fileNameLen - xfsblNumDigitsInFileName = lo) (hpos : 0 < lo.toNat) (hfuel : k < fuel)
    (hindex : index.toNat + 1 = lo.toNat + k)
    (hm : m.Holds (fileName + lo.toNat) (List.replicate k 48)) :
    updateFileName fileName fileNameLen fuel index multiBootNum m =
      some (m.store (fileName + lo.toNat) (decimal k multiBootNum.toNat)) := by
  obtain ⟨fuel, rfl⟩ : ∃ f, fuel = f + 1 := ⟨fuel - 1, by omega⟩
  induction k generalizing fuel index multiBootNum m with
  | zero =>
    have hend : ¬ index ≥ lo := by
      rw [ge_iff_le, UInt32.le_iff_toNat_le]
      omega
    rw [updateFileName, hlo, if_neg hend, decimal, Mem.store_nil]
  | succ k ih =>
    have hround : index ≥ lo := by
      rw [ge_iff_le, UInt32.le_iff_toNat_le]
      omega
    rw [List.replicate_succ', Mem.holds_append] at hm
    obtain ⟨hm, hzero⟩ := hm
    rw [List.length_replicate, Mem.holds_cons] at hzero
    let d : UInt8 := 48 + .ofNat (multiBootNum.toNat % 10)
    let m' := m.store (fileName + lo.toNat + k) [d]
    have hdigit : m.store (fileName + index.toNat)
        [m (fileName + index.toNat) + (multiBootNum % 10).toUInt8] = m' := by
      have hvalue : (multiBootNum % 10).toUInt8 = .ofNat (multiBootNum.toNat % 10) := by
        rw [← UInt8.toNat_inj, UInt32.toNat_toUInt8, UInt32.toNat_mod, UInt8.toNat_ofNat']
        rfl
      rw [hvalue, show fileName + index.toNat = fileName + lo.toNat + k by omega, hzero.1]
    have hdiv : (multiBootNum / 10).toNat = multiBootNum.toNat / 10 := UInt32.toNat_div _ _
    have hkept : m'.Holds (fileName + lo.toNat) (List.replicate k 48) := by
      unfold Mem.Holds
      rw [Mem.load_store_disj (by rw [List.length_replicate]; omega)]
      exact hm
    have hjoin : m'.store (fileName + lo.toNat) (decimal k (multiBootNum / 10).toNat) =
        m.store (fileName + lo.toNat) (decimal (k + 1) multiBootNum.toNat) := by
      rw [Mem.store_store_comm (by rw [length_decimal]), Mem.store_append (by rw [length_decimal]), hdiv,
        decimal]
    rw [updateFileName, hlo, if_pos hround]
    simp only [hdigit]
    split
    · rename_i h0
      rw [← hjoin, h0, show (0 : UInt32).toNat = 0 from rfl, decimal_zero, Mem.store_of_holds hkept]
    · have hle : 1 ≤ index := by
        rw [UInt32.le_iff_toNat_le, show (1 : UInt32).toNat = 1 from rfl]
        omega
      have hnext : (index - 1).toNat + 1 = lo.toNat + k := by
        rw [UInt32.toNat_sub_of_le _ _ hle, show (1 : UInt32).toNat = 1 from rfl]
        omega
      obtain ⟨fuel, rfl⟩ : ∃ f, fuel = f + 1 := ⟨fuel - 1, by omega⟩
      rw [ih hnext hkept fuel (by omega), hjoin]

/-- The template with its digits. -/
theorem updateFileName_template {fileName : Nat} {xs ys : List UInt8} {fileNameLen multiBootNum : UInt32}
    (hlen : fileNameLen.toNat = xs.length + 4) (hxs : 0 < xs.length) (hfuel : 4 < fuel)
    (hm : m.Holds fileName (xs ++ List.replicate 4 48 ++ ys)) :
    updateFileName fileName fileNameLen fuel (fileNameLen - 1) multiBootNum m =
      some (m.store fileName (xs ++ decimal 4 multiBootNum.toNat ++ ys)) := by
  have hlo : (fileNameLen - xfsblNumDigitsInFileName).toNat = xs.length := by
    rw [UInt32.toNat_sub_of_le _ _ (UInt32.le_iff_toNat_le.2 (by
      rw [show xfsblNumDigitsInFileName.toNat = 4 from rfl]; omega)),
      show xfsblNumDigitsInFileName.toNat = 4 from rfl]
    omega
  have hindex : (fileNameLen - 1).toNat + 1 = xs.length + 4 := by
    rw [UInt32.toNat_sub_of_le _ _ (UInt32.le_iff_toNat_le.2 (by
      rw [show (1 : UInt32).toNat = 1 from rfl]; omega)), show (1 : UInt32).toNat = 1 from rfl]
    omega
  have hzeros := (Mem.holds_append.1 (Mem.holds_append.1 hm).1).2
  rw [updateFileName_eq rfl (by omega) hfuel (by omega) (by rw [hlo]; exact hzeros), hlo,
    ← Mem.store_middle (List.replicate 4 48) (decimal 4 multiBootNum.toNat) (by simp),
    Mem.store_of_holds hm]

/-- The function writes the name with its NUL, and nothing else. -/
theorem xfsblMakeSdFileName_eq (hfuel : 4 < fuel) (m : Mem) (fileName : Nat)
    (multibootReg drvNum : UInt32) :
    xfsblMakeSdFileName fuel m fileName multibootReg drvNum =
      some (m.store fileName (sdFileName multibootReg drvNum).bytes) := by
  have template (xs ys x : List UInt8) (hx : x ++ [0] = xs ++ List.replicate 4 48 ++ ys)
      {fileNameLen : UInt32} (hlen : fileNameLen.toNat = xs.length + 4) (hxs : 0 < xs.length) :
      updateFileName fileName fileNameLen fuel (fileNameLen - 1) multibootReg (xfsblStrcpy m fileName x) =
        some (m.store fileName (xs ++ decimal 4 multibootReg.toNat ++ ys)) := by
    rw [xfsblStrcpy_eq, hx, updateFileName_template hlen hxs hfuel (Mem.holds_store _ _ _)]
    congr 1
    rw [← Mem.store_middle (List.replicate 4 48) (decimal 4 multibootReg.toNat) (by simp),
      ← Mem.store_middle (List.replicate 4 48) (decimal 4 multibootReg.toNat) (by simp),
      Mem.store_of_holds (Mem.holds_store _ _ _)]
  unfold xfsblMakeSdFileName sdFileName CStr.bytes
  dsimp only
  by_cases hreg : multibootReg = 0
  · rw [if_pos hreg, if_pos hreg]
    by_cases hdrv : drvNum = xfsblSdDrvNum0
    · rw [if_pos hdrv, if_pos hdrv, xfsblStrcpy_eq]
      rfl
    · rw [if_neg hdrv, if_neg hdrv, xfsblStrcpy_eq]
      rfl
  · rw [if_neg hreg, if_neg hreg]
    by_cases hdrv : drvNum = xfsblSdDrvNum0
    · rw [if_pos hdrv, if_pos hdrv, template (ascii ['B', 'O', 'O', 'T'])
        (ascii ['.', 'B', 'I', 'N'] ++ [0]) boot0000Bin rfl rfl (by decide), ← List.append_assoc]
      rfl
    · rw [if_neg hdrv, if_neg hdrv, template (ascii ['1', ':', '/'] ++ ascii ['B', 'O', 'O', 'T'])
        (ascii ['.', 'B', 'I', 'N'] ++ [0]) boot0000BinSd1 rfl rfl (by decide),
        ← List.append_assoc]

end Loop

/-! ## Which values share a name -/

theorem sdFileName_eq_iff (r r' drvNum : UInt32) :
    sdFileName r drvNum = sdFileName r' drvNum ↔
      r = r' ∨ r ≠ 0 ∧ r' ≠ 0 ∧ r.toNat % 10000 = r'.toNat % 10000 := by
  have digits : sdFileName r drvNum = sdFileName r' drvNum ↔
      (if r = 0 then [] else decimal 4 r.toNat) = if r' = 0 then [] else decimal 4 r'.toNat := by
    rw [sdFileName, sdFileName, CStr.mk.injEq, List.append_left_inj, List.append_right_inj]
  have long {n : Nat} : decimal 4 n ≠ [] := by
    intro h
    have := congrArg List.length h
    rw [length_decimal] at this
    cases this
  rw [digits]
  by_cases hr : r = 0
  · by_cases hr' : r' = 0
    · rw [hr, hr']
      simp
    · rw [if_pos hr, if_neg hr']
      refine iff_of_false long.symm ?_
      rintro (h | h)
      · exact hr' (h ▸ hr)
      · exact h.1 hr
  · by_cases hr' : r' = 0
    · rw [if_neg hr, if_pos hr']
      refine iff_of_false long ?_
      rintro (h | h)
      · exact hr (h ▸ hr')
      · exact h.2.1 hr'
    · rw [if_neg hr, if_neg hr', decimal_eq_iff, show 10 ^ 4 = 10000 from rfl]
      constructor
      · exact fun h => .inr ⟨hr, hr', h⟩
      · rintro (rfl | h)
        · rfl
        · exact h.2.2

theorem length_sdFileName (r drvNum : UInt32) : (sdFileName r drvNum).bytes.length ≤ 16 := by
  have hname (n : Nat) : (decimal 4 n).length = 4 := length_decimal 4 n
  rw [CStr.length_bytes, sdFileName]
  simp only [List.length_append, ascii, List.length_map]
  split <;> split <;> simp [hname]

theorem fallBack_iterate (r : UInt32) (k : Nat) : (fallBack^[k] r) = r + .ofNat k := by
  induction k with
  | zero => exact (UInt32.add_zero r).symm
  | succ k ih =>
    rw [Function.iterate_succ_apply', ih, fallBack, UInt32.ofNat_add, UInt32.add_assoc]
    rfl

theorem fallBack_toNat {r : UInt32} {k : Nat} (h : r.toNat + k < 2 ^ 32) :
    (fallBack^[k] r).toNat = r.toNat + k := by
  rw [fallBack_iterate, UInt32.toNat_add, UInt32.toNat_ofNat_of_lt' (show k < 2 ^ 32 by omega)]
  exact Nat.mod_eq_of_lt h

/-- **Names and fallbacks**: the loop over the digits ends and leaves a NUL-terminated name inside the
buffer; two values share it only if both are not zero and have the same last four digits; and fewer
than 10000 fallbacks do not come back to a name, unless the register wraps. -/
theorem sdFileName_fallBack :
    (∀ (fuel : Nat) (m : Mem) (fileName : Nat) (multibootReg drvNum : UInt32), 4 < fuel →
      xfsblMakeSdFileName fuel m fileName multibootReg drvNum =
          some (m.store fileName (sdFileName multibootReg drvNum).bytes) ∧
        (sdFileName multibootReg drvNum).bytes.length ≤ bufferSize) ∧
    (∀ r r' drvNum : UInt32, sdFileName r drvNum = sdFileName r' drvNum ↔
      r = r' ∨ r ≠ 0 ∧ r' ≠ 0 ∧ r.toNat % 10000 = r'.toNat % 10000) ∧
    (∀ (r drvNum : UInt32) (i j : Nat), i < j → j < i + 10000 → r.toNat + j < 2 ^ 32 →
      sdFileName (fallBack^[i] r) drvNum ≠ sdFileName (fallBack^[j] r) drvNum) := by
  refine ⟨fun fuel m fileName r drvNum hfuel => ⟨xfsblMakeSdFileName_eq hfuel m fileName r drvNum, ?_⟩,
    sdFileName_eq_iff, fun r drvNum i j hij hj hr heq => ?_⟩
  · exact Nat.le_trans (length_sdFileName r drvNum) (by decide)
  · have hi := fallBack_toNat (r := r) (k := i) (by omega)
    have hj' := fallBack_toNat hr
    rcases (sdFileName_eq_iff _ _ drvNum).1 heq with hsame | ⟨-, -, hmod⟩
    · have := congrArg UInt32.toNat hsame
      omega
    · omega

theorem sdFileName_fallBack_first :
    sdFileName (fallBack^[0] 0) 0 ≠ sdFileName (fallBack^[9999] 0) 0 :=
  sdFileName_fallBack.2.2 0 0 0 9999 (by decide) (by decide) (by decide)

/-- Five digits: the first of them is not in the name. -/
theorem not_sdFileName_fallBack :
    ¬ ∀ (fuel : Nat) (m : Mem) (fileName : Nat) (r r' drvNum : UInt32), 4 < fuel → r ≠ r' →
      xfsblMakeSdFileName fuel m fileName r drvNum ≠ xfsblMakeSdFileName fuel m fileName r' drvNum := by
  intro h
  refine h 5 (fun _ => 0) 0 1 10001 0 (by decide) (by decide) ?_
  rw [xfsblMakeSdFileName_eq (by decide), xfsblMakeSdFileName_eq (by decide),
    (sdFileName_eq_iff 1 10001 0).2 (.inr ⟨by decide, by decide, rfl⟩)]

end MeasuredBoot.Sd
