import MeasuredBoot.Platform

/-!
# Copies from a card (`XFsbl_SdCopy`)

`XFsbl_SdCopy` seeks in the boot file and reads. FatFs does not fail where the file ends: `f_lseek`
of a file open for reading stops at its end, `f_read` returns `FR_OK` and, in `*br`, how
many bytes there were. `br` is not looked at, so that a copy past the end succeeds and leaves the
rest of the destination as it was (`copiesFile_iff`).
-/

namespace MeasuredBoot.Sd

def xfsblErrorSdFLseek : UInt32 := 0x2A
def xfsblErrorSdFRead : UInt32 := 0x2B

/-! ## FatFs -/

/-- What `f_lseek` and `f_read` of an open file return. -/
inductive FResult where
  | frOk
  | frDiskErr
  | frIntErr
  | frDenied
  | frInvalidObject
  | frTimeout
  deriving DecidableEq

/-- A file open for reading: its bytes and the read pointer. -/
structure Fil where
  obj : List UInt8
  fptr : Nat

/-- How the two calls end, and how many bytes a failed read had delivered. -/
structure Card where
  lseek : FResult
  read : FResult
  delivered : Nat

/-- A file open for reading is not extended: the pointer stops at its end. -/
def fLseek (card : Card) (fp : Fil) (ofs : UInt32) : FResult × Fil :=
  if card.lseek = .frOk then (.frOk, { fp with fptr := min ofs.toNat fp.obj.length })
  else (card.lseek, fp)

/-- The result, `*br`, the file and the memory behind the read. -/
def fRead (card : Card) (fp : Fil) (m : Mem) (buff : Nat) (btr : UInt32) :
    FResult × Nat × Fil × Mem :=
  let remain := fp.obj.length - fp.fptr
  let btr := min btr.toNat remain
  let br := if card.read = .frOk then btr else min card.delivered btr
  (card.read, br, { fp with fptr := fp.fptr + br },
    m.store buff ((fp.obj.drop fp.fptr).take br))

/-! ## The copy -/

/-- The status, the file and the memory behind the copy. -/
def xfsblSdCopy (card : Card) (fil : Fil) (m : Mem) (srcAddress : UInt32) (destAddress : Nat)
    (length : UInt32) : UInt32 × Fil × Mem :=
  let (rc, fil) := fLseek card fil srcAddress
  if rc ≠ .frOk then (xfsblErrorSdFLseek, fil, m)
  else
    -- `br` is dropped
    let (rc, _, fil, m) := fRead card fil m destAddress length
    if rc ≠ .frOk then (xfsblErrorSdFRead, fil, m) else (xfsblSuccess, fil, m)

/-- `length` bytes from `srcAddress` on are bytes of the file. -/
def InFile (file : List UInt8) (srcAddress : UInt32) (length : Nat) : Prop :=
  length = 0 ∨ srcAddress.toNat + length ≤ file.length

instance (file : List UInt8) (srcAddress : UInt32) (length : Nat) :
    Decidable (InFile file srcAddress length) := inferInstanceAs (Decidable (_ ∨ _))

/-- These are the file's bytes from `srcAddress` on. -/
def HasBytes (file : List UInt8) (srcAddress : UInt32) (length : Nat) (data : Mem) : Prop :=
  ∀ i < length, file[srcAddress.toNat + i]? = some (data i)

theorem HasBytes.inFile {file : List UInt8} {srcAddress : UInt32} {length : Nat} {data : Mem}
    (h : HasBytes file srcAddress length data) : InFile file srcAddress length := by
  unfold InFile
  by_cases hl : length = 0
  · exact .inl hl
  · have hlast := (List.getElem?_eq_some_iff.1 (h (length - 1) (by omega))).1
    right
    omega

/-- A copy that reports success has copied the file's bytes. -/
def CopiesFile (card : Card) (fil : Fil) (m : Mem) (srcAddress : UInt32) (destAddress : Nat)
    (length : UInt32) : Prop :=
  let r := xfsblSdCopy card fil m srcAddress destAddress length
  r.1 = xfsblSuccess → HasBytes fil.obj srcAddress length.toNat fun i => r.2.2 (destAddress + i)

section Copy

variable {card : Card} {fil : Fil} {m : Mem} {srcAddress : UInt32} {destAddress : Nat}
  {length : UInt32}

/-- A copy succeeds where both calls do. -/
theorem xfsblSdCopy_success_iff :
    (xfsblSdCopy card fil m srcAddress destAddress length).1 = xfsblSuccess ↔
      card.lseek = .frOk ∧ card.read = .frOk := by
  unfold xfsblSdCopy fLseek fRead
  by_cases hs : card.lseek = .frOk
  · by_cases hr : card.read = .frOk
    · simp [hs, hr]
    · simp [hs, hr, xfsblErrorSdFRead, xfsblSuccess]
  · simp [hs, xfsblErrorSdFLseek, xfsblSuccess]

/-- What a successful copy leaves in memory: the bytes of the file that there are. -/
theorem xfsblSdCopy_mem (hs : card.lseek = .frOk) (hr : card.read = .frOk) :
    (xfsblSdCopy card fil m srcAddress destAddress length).2.2 =
      m.store destAddress ((fil.obj.drop srcAddress.toNat).take length.toNat) := by
  have hcut : (fil.obj.drop (min srcAddress.toNat fil.obj.length)).take
      (min length.toNat (fil.obj.length - min srcAddress.toNat fil.obj.length)) =
        (fil.obj.drop srcAddress.toNat).take length.toNat := by
    rcases Nat.le_total srcAddress.toNat fil.obj.length with h | h
    · rw [Nat.min_eq_left h, List.take_eq_take_iff, List.length_drop]
      omega
    · rw [Nat.min_eq_right h, List.drop_length, List.drop_eq_nil_of_le h]
      simp
  unfold xfsblSdCopy fLseek fRead
  simp [hs, hr, hcut]

/-- The file's bytes where the file has them. -/
theorem xfsblSdCopy_in (hs : card.lseek = .frOk) (hr : card.read = .frOk)
    (hin : InFile fil.obj srcAddress length.toNat) {i : Nat} (hi : i < length.toNat) :
    fil.obj[srcAddress.toNat + i]? =
      some ((xfsblSdCopy card fil m srcAddress destAddress length).2.2 (destAddress + i)) := by
  have hlen : srcAddress.toNat + length.toNat ≤ fil.obj.length := by
    rcases hin with hin | hin <;> omega
  have hcopied : i < ((fil.obj.drop srcAddress.toNat).take length.toNat).length := by
    rw [List.length_take, List.length_drop]
    omega
  rw [xfsblSdCopy_mem hs hr, Mem.store_in hcopied, List.getElem?_eq_getElem (by omega)]
  simp

/-- **The copy is the file's** exactly where one of the calls fails or the file is long enough. -/
theorem copiesFile_iff :
    CopiesFile card fil m srcAddress destAddress length ↔
      card.lseek ≠ .frOk ∨ card.read ≠ .frOk ∨ InFile fil.obj srcAddress length.toNat := by
  unfold CopiesFile
  simp only [xfsblSdCopy_success_iff]
  constructor
  · intro h
    by_cases hs : card.lseek = .frOk
    · by_cases hr : card.read = .frOk
      · exact .inr (.inr (h ⟨hs, hr⟩).inFile)
      · exact .inr (.inl hr)
    · exact .inl hs
  · rintro h ⟨hs, hr⟩ i hi
    rcases h with h | h | h
    · exact absurd hs h
    · exact absurd hr h
    · exact xfsblSdCopy_in hs hr h hi

end Copy

end MeasuredBoot.Sd
