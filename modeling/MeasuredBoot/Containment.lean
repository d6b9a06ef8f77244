import MeasuredBoot.HandoffTable
import MeasuredBoot.Lib.Regions
import MeasuredBoot.PartitionRange

/-!
# Where partitions are copied to

The header validator looks at the load address only, and `XFsbl_GetLoadAddress` compares the
length with the size of a TCM bank, not with the part of it behind the load address.
`copy_contained_iff`: a copy stays in one memory region exactly where its length is at most what
the region has behind the load address (`room`).
-/

namespace MeasuredBoot

open Prog TransSys

/-! ## Regions -/

def pmuRam : Region := ⟨xfsblPmuRamStartAddress.toNat, xfsblPmuRamEndAddress.toNat⟩

def psDdr : Region := ⟨xfsblPsDdrStartAddress.toNat, xfsblPsDdrEndAddress.toNat + 1⟩

def ocm : Region := ⟨xfsblOcmStartAddress.toNat, xfsblOcmEndAddress.toNat⟩

/-- A TCM bank that starts there. -/
def tcmBank (start : UInt64) : Region := ⟨start.toNat, start.toNat + xfsblR5TcmBankLength.toNat⟩

/-- The four banks as one. -/
def combinedTcm : Region :=
  ⟨xfsblR50HighAtcmStartAddress.toNat,
    xfsblR50HighAtcmStartAddress.toNat + xfsblR5TcmBankLength.toNat * 4⟩

/-- The regions only partitions for that CPU go to, as every CPU sees them. -/
def cpuRegions (cpu : UInt32) : List Region :=
  if cpu = xihPhAttrbDestCpuPmu then [pmuRam]
  else if cpu = xihPhAttrbDestCpuR5_0 then
    [tcmBank xfsblR50HighAtcmStartAddress, tcmBank xfsblR50HighBtcmStartAddress]
  else if cpu = xihPhAttrbDestCpuR5_1 then
    [tcmBank xfsblR51HighAtcmStartAddress, tcmBank xfsblR51HighBtcmStartAddress]
  else if cpu = xihPhAttrbDestCpuR5L then [combinedTcm]
  else []

/-- The regions a partition for that CPU may be copied to. -/
def regions (cpu : UInt32) : List Region := psDdr :: ocm :: cpuRegions cpu

theorem regions_apart (cpu : UInt32) : (regions cpu).Pairwise Region.Apart := by
  unfold regions cpuRegions
  split
  · decide
  split
  · decide
  split
  · decide
  split
  · decide
  · decide

/-- The end of the R5's own view of the TCM bank the address is in. -/
def ownBankEnd (address : UInt64) : Nat :=
  if address < xfsblR5TcmStartAddress + xfsblR5TcmBankLength then
    (xfsblR5TcmStartAddress + xfsblR5TcmBankLength).toNat
  else (xfsblR5BtcmStartAddress + xfsblR5TcmBankLength).toNat

/-- How many bytes the region of a load address has from there on. -/
def room (cpu : UInt32) (address : UInt64) : Nat :=
  if cpu = xihPhAttrbDestCpuPmu ∧ xfsblPmuRamStartAddress ≤ address ∧
      address < xfsblPmuRamEndAddress then xfsblPmuRamEndAddress.toNat - address.toNat
  else if (cpu = xihPhAttrbDestCpuR5_0 ∨ cpu = xihPhAttrbDestCpuR5_1) ∧ inR5TcmBank address then
    ownBankEnd address - address.toNat
  else if cpu = xihPhAttrbDestCpuR5L ∧ inR5LTcm address then
    (xfsblR5TcmBankLength * 4).toNat - address.toNat
  else if address ≤ xfsblPsDdrEndAddress then xfsblPsDdrEndAddress.toNat + 1 - address.toNat
  else xfsblOcmEndAddress.toNat - address.toNat

section Room

variable {cpu devId : UInt32} {address : UInt64}

theorem inR5TcmBank_iff :
    inR5TcmBank address ↔
      address.toNat < 0x10000 ∨ 0x20000 ≤ address.toNat ∧ address.toNat < 0x30000 := by
  unfold inR5TcmBank
  simp only [UInt64.le_iff_toNat_le, UInt64.lt_iff_toNat_lt]
  show 0 ≤ address.toNat ∧ address.toNat < 0x10000 ∨
    0x20000 ≤ address.toNat ∧ address.toNat < 0x30000 ↔ _
  omega

theorem inR5LTcm_iff : inR5LTcm address ↔ address.toNat < 0x40000 := by
  unfold inR5LTcm
  simp only [UInt64.le_iff_toNat_le, UInt64.lt_iff_toNat_lt]
  show 0 ≤ address.toNat ∧ address.toNat < 0x40000 ↔ _
  omega

/-- The region of an R5's TCM bank, as every CPU sees it. -/
theorem bank_region {atcm btcm : UInt64} (hb : btcm.toNat = atcm.toNat + 0x20000)
    (hlow : atcm.toNat < 0xFFFFFFFF) (h : inR5TcmBank address) :
    ∃ r ∈ [tcmBank atcm, tcmBank btcm], r.Has (atcm + address).toNat ∧
      (atcm + address).toNat + (ownBankEnd address - address.toNat) = r.stop := by
  have hlen : xfsblR5TcmBankLength.toNat = 0x10000 := rfl
  rw [inR5TcmBank_iff] at h
  have hsum : (atcm + address).toNat = atcm.toNat + address.toNat := by
    rw [UInt64.toNat_add]
    omega
  unfold ownBankEnd
  by_cases hlt : address < xfsblR5TcmStartAddress + xfsblR5TcmBankLength
  · rw [if_pos hlt]
    have hlt : address.toNat < 0x10000 := UInt64.lt_iff_toNat_lt.1 hlt
    have hend : (xfsblR5TcmStartAddress + xfsblR5TcmBankLength).toNat = 0x10000 := rfl
    refine ⟨tcmBank atcm, List.mem_cons_self, ?_, ?_⟩
    · unfold Region.Has tcmBank
      simp only [hsum, hlen]
      omega
    · simp only [tcmBank, hsum, hlen, hend]
      omega
  · rw [if_neg hlt]
    have hge : ¬ address.toNat < 0x10000 := fun h => hlt (UInt64.lt_iff_toNat_lt.2 h)
    have hend : (xfsblR5BtcmStartAddress + xfsblR5TcmBankLength).toNat = 0x30000 := rfl
    refine ⟨tcmBank btcm, List.mem_cons_of_mem _ List.mem_cons_self, ?_, ?_⟩
    · unfold Region.Has tcmBank
      simp only [hsum, hlen]
      omega
    · simp only [tcmBank, hsum, hlen, hend]
      omega

/-- The region of an address the validator takes, and its room. -/
theorem region_of_valid (hdev : devId ≠ xihPhAttrbDestDevicePl)
    (h : checkValidMemoryAddress address cpu devId = xfsblSuccess) :
    ∃ r ∈ regions cpu, r.Has (globalAddress cpu address).toNat ∧
      (globalAddress cpu address).toNat + room cpu address = r.stop := by
  have own {r : Region} (hr : r ∈ cpuRegions cpu) : r ∈ regions cpu :=
    List.mem_cons_of_mem _ (List.mem_cons_of_mem _ hr)
  unfold checkValidMemoryAddress at h
  by_cases hpmu : cpu = xihPhAttrbDestCpuPmu ∧ xfsblPmuRamStartAddress ≤ address ∧
      address < xfsblPmuRamEndAddress
  · have hlo : 0xFFDC0000 ≤ address.toNat := UInt64.le_iff_toNat_le.1 hpmu.2.1
    have hhi : address.toNat < 0xFFDDFFFF := UInt64.lt_iff_toNat_lt.1 hpmu.2.2
    have hend : xfsblPmuRamEndAddress.toNat = 0xFFDDFFFF := rfl
    refine ⟨pmuRam, own (by rw [hpmu.1]; decide), ?_, ?_⟩
    · rw [globalAddress_high cpu (by omega)]
      exact ⟨hlo, hhi⟩
    · rw [globalAddress_high cpu (by omega), room, if_pos hpmu]
      show address.toNat + (xfsblPmuRamEndAddress.toNat - address.toNat) = 0xFFDDFFFF
      omega
  rw [if_neg hpmu] at h
  by_cases hbank : (cpu = xihPhAttrbDestCpuR5_0 ∨ cpu = xihPhAttrbDestCpuR5_1) ∧ inR5TcmBank address
  · unfold room
    rw [if_neg hpmu, if_pos hbank]
    obtain ⟨rfl | rfl, hb⟩ := hbank
    · obtain ⟨r, hr, hrest⟩ := @bank_region _ xfsblR50HighAtcmStartAddress
        xfsblR50HighBtcmStartAddress rfl (by decide) hb
      rw [globalAddress, if_pos ⟨rfl, hb⟩]
      exact ⟨r, own hr, hrest⟩
    · obtain ⟨r, hr, hrest⟩ := @bank_region _ xfsblR51HighAtcmStartAddress
        xfsblR51HighBtcmStartAddress rfl (by decide) hb
      rw [globalAddress, if_neg fun hc => absurd hc.1 (by decide), if_pos ⟨rfl, hb⟩]
      exact ⟨r, own hr, hrest⟩
  rw [if_neg hbank] at h
  by_cases htcm : cpu = xihPhAttrbDestCpuR5L ∧ inR5LTcm address
  · have hlt := inR5LTcm_iff.1 htcm.2
    have hhigh : xfsblR50HighAtcmStartAddress.toNat = 0xFFE00000 := rfl
    have hsum : (xfsblR50HighAtcmStartAddress + address).toNat = 0xFFE00000 + address.toNat := by
      rw [UInt64.toNat_add, hhigh]
      omega
    have hlen : (xfsblR5TcmBankLength * 4).toNat = 0x40000 := rfl
    rw [globalAddress, if_neg fun hc => absurd (htcm.1.symm.trans hc.1) (by decide),
      if_neg fun hc => absurd (htcm.1.symm.trans hc.1) (by decide), if_pos htcm, room, if_neg hpmu,
      if_neg hbank, if_pos htcm, hsum, hlen]
    refine ⟨combinedTcm, own (by rw [htcm.1]; decide), ⟨?_, ?_⟩, ?_⟩
    · show 0xFFE00000 ≤ 0xFFE00000 + address.toNat
      omega
    · show 0xFFE00000 + address.toNat < 0xFFE40000
      omega
    · show 0xFFE00000 + address.toNat + (0x40000 - address.toNat) = 0xFFE40000
      omega
  rw [if_neg htcm] at h
  have hsame : globalAddress cpu address = address := by
    unfold globalAddress
    rw [if_neg fun hc => hbank ⟨.inl hc.1, hc.2⟩, if_neg fun hc => hbank ⟨.inr hc.1, hc.2⟩,
      if_neg htcm]
  rw [hsame, room, if_neg hpmu, if_neg hbank, if_neg htcm]
  by_cases hddr : xfsblPsDdrStartAddress ≤ address ∧ address ≤ xfsblPsDdrEndAddress
  · have hle : address.toNat ≤ 0x7FEFFFFF := UInt64.le_iff_toNat_le.1 hddr.2
    have hend : xfsblPsDdrEndAddress.toNat = 0x7FEFFFFF := rfl
    rw [if_pos hddr.2, hend]
    refine ⟨psDdr, List.mem_cons_self, ⟨Nat.zero_le _, ?_⟩, ?_⟩
    · exact Nat.lt_succ_of_le hle
    · show address.toNat + (0x7FEFFFFF + 1 - address.toNat) = 0x7FEFFFFF + 1
      omega
  rw [if_neg hddr] at h
  have hnddr : ¬ address ≤ xfsblPsDdrEndAddress := by
    intro hle
    exact hddr ⟨UInt64.le_iff_toNat_le.2 (Nat.zero_le _), hle⟩
  rw [if_neg hnddr]
  by_cases hocm : xfsblOcmStartAddress ≤ address ∧ address < xfsblOcmEndAddress
  · have hlo : 0xFFFEA000 ≤ address.toNat := UInt64.le_iff_toNat_le.1 hocm.1
    have hhi : address.toNat < 0xFFFFFFFF := UInt64.lt_iff_toNat_lt.1 hocm.2
    have hend : xfsblOcmEndAddress.toNat = 0xFFFFFFFF := rfl
    refine ⟨ocm, List.mem_cons_of_mem _ List.mem_cons_self, ⟨hlo, hhi⟩, ?_⟩
    show address.toNat + (xfsblOcmEndAddress.toNat - address.toNat) = 0xFFFFFFFF
    omega
  rw [if_neg hocm, if_neg fun hc => hdev hc.1] at h
  exact absurd h (by decide)

end Room

/-! ## Copies -/

/-- Every range the steps from `w` to `w'` copied to is in one region a partition for the CPU may
be copied to. -/
def CopyContained (cpu : UInt32) (w w' : World) : Prop :=
  ∀ as, w'.trace = w.trace ++ as → ∀ n start len data, .placed n start len data ∈ as →
    Region.Within (regions cpu) start len

theorem entryActs_not_placed {n m start len : Nat} {h : PartitionHeader} {inst : XFsblPs}
    {data : Mem} : .placed m start len data ∉ entryActs n h inst := by
  unfold entryActs
  dsimp only
  split <;> simp

/-- Where a copy went decides whether it stays in its region. -/
theorem CopyActs.within_iff {n : Nat} {h : PartitionHeader} {inst : XFsblPs} {as : List Act}
    (hacc : Accepted h inst.processorID inst.resetReason) (hpl : h.toPl = false)
    (hcopy : CopyActs n h inst as) :
    (∀ m start len data, .placed m start len data ∈ as →
        Region.Within (regions (h.effectiveCpu inst.processorID)) start len) ↔
      h.unEncryptedDataWordLength = 0 ∨
        (copyLength h).toNat ≤ room (h.effectiveCpu inst.processorID) h.destinationLoadAddress := by
  cases hcopy with
  | xip h0 =>
    exact iff_of_true (fun m start len data hp => absurd hp entryActs_not_placed) (.inl h0)
  | plKept _ hk =>
    rw [hk.1] at hpl
    cases hpl
  | @copied loadAddress ecc data hne _ hl hecc =>
    have hla : loadAddress =
        globalAddress (h.effectiveCpu inst.processorID) h.destinationLoadAddress := by
      rw [getLoadAddress_ok hl]
      simp [plLoadAddress, hpl]
    have hdev : h.getDestinationDevice ≠ xihPhAttrbDestDevicePl := by
      simpa [PartitionHeader.toPl] using hpl
    obtain ⟨r, hr, hhas, hroom⟩ := region_of_valid hdev (not_not.1 hacc.address)
    rw [← hla] at hhas hroom
    have hiff := @Region.within_iff _ _ _ (copyLength h).toNat
      (regions_apart (h.effectiveCpu inst.processorID)) hr hhas
    constructor
    · intro hall
      right
      have hin := hall n _ _ data (List.mem_append_right _ List.mem_cons_self)
      have hle := hiff.1 hin
      omega
    · rintro hfit m start len data' hp
      rcases List.mem_append.1 hp with hp | hp
      · exact (hecc _ hp).elim
      · have hp := List.mem_singleton.1 hp
        injection hp with _ hs hl' _
        subst hs hl'
        have hfit := hfit.resolve_left hne
        exact hiff.2 (by omega)

theorem copyContained_iff {cpu : UInt32} {w w' : World} {as : List Act} (hm : Moves as w w') :
    CopyContained cpu w w' ↔ ∀ n start len data, .placed n start len data ∈ as →
      Region.Within (regions cpu) start len := by
  refine ⟨fun h => h as hm.trace, fun h bs hb => ?_⟩
  rw [hm.trace] at hb
  rwa [← List.append_cancel_left hb]

theorem partitionCopy_lt {hw : Hw} {n : Nat} {w w' : World}
    (hc : partitionCopy hw n w = .ok () w') : n < 32 := by
  obtain ⟨ph, t, h1, -⟩ := bind_ok.1 hc
  exact (header_ok.1 h1).1.1

/-- **A copy stays in its region** exactly where the partition executes in place, or its length is
at most what the region has behind the load address. -/
theorem copy_contained_iff {hw : Hw} {n : Nat} {w w' : World} {h : PartitionHeader} {e : UInt32}
    (hh : w.inst.imageHeader.header n = h)
    (hv : validatePartitionHeader h w.inst.processorID w.inst.resetReason e = xfsblSuccess)
    (hpl : h.toPl = false) (hc : partitionCopy hw n w = .ok () w') :
    CopyContained (h.effectiveCpu w.inst.processorID) w w' ↔
      h.unEncryptedDataWordLength = 0 ∨
        (copyLength h).toNat ≤ room (h.effectiveCpu w.inst.processorID) h.destinationLoadAddress := by
  obtain ⟨as, hcopy, hm⟩ := partitionCopy_ok (partitionCopy_lt hc) hc
  rw [← header_eq, hh] at hcopy
  rw [copyContained_iff hm]
  exact hcopy.within_iff (validatePartitionHeader_success hv) hpl

/-- A copy of 64 bytes to the DDR stays there. -/
theorem copy_contained_plainBoard :
    CopyContained xihPhAttrbDestCpuA53_0 (plainBoard.after 2).world
        (final (partitionCopy plainBoard.hw 1 (plainBoard.after 2).world)) ↔
      ((plainBoard.after 2).world.inst.imageHeader.header 1).unEncryptedDataWordLength = 0 ∨
        (copyLength ((plainBoard.after 2).world.inst.imageHeader.header 1)).toNat ≤
          room xihPhAttrbDestCpuA53_0
            ((plainBoard.after 2).world.inst.imageHeader.header 1).destinationLoadAddress := by
  have hc : partitionCopy plainBoard.hw 1 (plainBoard.after 2).world = .ok () _ :=
    eq_ok_final (by decide +kernel)
  have hcpu : ((plainBoard.after 2).world.inst.imageHeader.header 1).effectiveCpu
      (plainBoard.after 2).world.inst.processorID = xihPhAttrbDestCpuA53_0 := by decide +kernel
  have hiff := copy_contained_iff (e := 0) rfl (by decide +kernel) (by decide +kernel) hc
  rwa [hcpu] at hiff

/-- Sixteen words for the R5-0, at the last sixteen bytes of its ATCM. -/
def bankEndBoard : Board := qspiBoard [{ exec := 0, load := 0xFFF0, attributes := 0x500 }]

/-- A partition that fits a TCM bank may be copied past its end. -/
theorem not_copy_contained :
    ¬ ∀ (hw : Hw) (n : Nat) (w w' : World) (h : PartitionHeader) (e : UInt32),
      w.inst.imageHeader.header n = h →
      validatePartitionHeader h w.inst.processorID w.inst.resetReason e = xfsblSuccess →
      h.toPl = false → partitionCopy hw n w = .ok () w' →
      CopyContained (h.effectiveCpu w.inst.processorID) w w' := by
  intro hall
  have hc : partitionCopy bankEndBoard.hw 1 (bankEndBoard.after 2).world = .ok () _ :=
    eq_ok_final (by decide +kernel)
  have hv : validatePartitionHeader ((bankEndBoard.after 2).world.inst.imageHeader.header 1)
      (bankEndBoard.after 2).world.inst.processorID (bankEndBoard.after 2).world.inst.resetReason 0 =
        xfsblSuccess := by decide +kernel
  have hpl : ((bankEndBoard.after 2).world.inst.imageHeader.header 1).toPl = false := by
    decide +kernel
  have hin := hall _ _ _ _ _ 0 rfl hv hpl hc
  obtain ⟨as, hcopy, hm⟩ := partitionCopy_ok (by decide) hc
  rw [copyContained_iff hm] at hin
  have hfit := (hcopy.within_iff (validatePartitionHeader_success hv) hpl).1 hin
  revert hfit
  decide +kernel

end MeasuredBoot
