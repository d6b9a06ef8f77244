import MeasuredBoot.HeaderArithmetic

/-!
# Copy and validation of one partition

`XFsbl_PartitionCopy` takes the certificate of a signed partition off the length before it asks for
the load address; `XFsbl_PartitionValidation` asks with the whole length, and hashes the whole
length for the partition checksum. Behind a successful copy the validation `WorksOn` what was
copied exactly where that makes no difference (`agrees_iff`).
-/

namespace MeasuredBoot

open Prog

/-! ## What the validation reads -/

/-- The bytes `XFsbl_CalculateSHA` hashes. -/
def checksumInput (m : Mem) (h : PartitionHeader) (loadAddress : UInt64) : List UInt8 :=
  m.load loadAddress.toNat (h.totalDataWordLength * 4).toNat

/-- The bytes of the partition `XFsbl_PartitionSignVer` hashes, before those of the certificate in
`AuthBuffer`. -/
def signVerInput (m : Mem) (h : PartitionHeader) (loadAddress : UInt64) : List UInt8 :=
  m.load loadAddress.toNat (h.totalDataWordLength * 4 - xfsblAuthCertMinSize).toNat

/-- The validation of partition `n` in state `v`, from `loadAddress` on, works on what the acts
`copy` placed. -/
structure WorksOn (n : Nat) (h : PartitionHeader) (copy : List Act) (v : World)
    (loadAddress : UInt64) : Prop where
  accepted : getLoadAddress (h.effectiveCpu v.inst.processorID) h.destinationLoadAddress
    (h.totalDataWordLength * 4) = .ok loadAddress
  address : ∀ p ∈ lastPlaced n copy, p.1 = loadAddress.toNat
  checksum : h.getChecksumType ≠ xihPhAttrbNochecksum →
    checksumInput v.mem h loadAddress = loadedBytes n copy
  signature : h.authenticated = true → signVerInput v.mem h loadAddress = loadedBytes n copy

/-- The acts between two states. -/
def actsSince (w w' : World) : List Act := w'.trace.drop w.trace.length

/-- The validation in `w'` takes the partition as the copy from `w` to `w'` left it. -/
def Agrees (n : Nat) (w w' : World) : Prop :=
  ∃ loadAddress, WorksOn n (w.inst.imageHeader.header n) (actsSince w w') w' loadAddress

/-- A signed partition has no checksum, and fits its TCM together with the certificate. -/
def CertificateFits (h : PartitionHeader) (runningCpu : UInt32) : Prop :=
  h.authenticated = true → h.getChecksumType = xihPhAttrbNochecksum ∧
    FitsTcm (h.effectiveCpu runningCpu) h.destinationLoadAddress
      (4 * h.totalDataWordLength.toNat % 2 ^ 32)

instance (h : PartitionHeader) (runningCpu : UInt32) : Decidable (CertificateFits h runningCpu) :=
  inferInstanceAs (Decidable (_ → _))

/-! ## The copy -/

section Copied

variable {n : Nat} {h : PartitionHeader} {inst : XFsblPs} {copy : List Act}

/-- Outside the PL a copy writes nothing, or `copyLength` bytes where every CPU sees them, if they
fit there. -/
theorem CopyActs.written (hc : CopyActs n h inst copy) (hpl : h.toPl = false) (u : World) :
    h.unEncryptedDataWordLength = 0 ∧ lastPlaced n copy = none ∨
      FitsTcm (h.effectiveCpu inst.processorID) h.destinationLoadAddress (copyLength h).toNat ∧
        ∃ m data : Mem, let start :=
            (globalAddress (h.effectiveCpu inst.processorID) h.destinationLoadAddress).toNat
          (u.replay copy).mem = m.fill start (copyLength h).toNat data ∧
          lastPlaced n copy = some (start, (copyLength h).toNat, data) := by
  cases hc with
  | xip h0 => exact .inl ⟨h0, (quietActs (quiet_entryActs n h _)).placed n⟩
  | plKept _ hk => simp [PlKept, hpl] at hk
  | @copied loadAddress ecc data _ _ hl hecc =>
    rw [plLoadAddress, if_neg (by simp [hpl])] at hl
    obtain ⟨hfits, rfl⟩ := getLoadAddress_ok_iff.1 hl
    refine .inr ⟨hfits, (u.replay ecc).mem, data, ?_, ?_⟩
    · rw [World.replay_append]
      rfl
    · rw [lastPlaced_append, (recorded_placed n _ _ data).placed]
      rfl

/-- What `n` bytes from `start` on are behind a fill there. -/
theorem load_eq_iff {m data : Mem} {start len k : Nat} :
    (m.fill start len data).load start k = data.load 0 len ↔ k = len := by
  constructor
  · intro h
    simpa using congrArg List.length h
  · rintro rfl
    exact Mem.load_fill (Nat.le_refl _)

theorem toNat_words (words : UInt32) : (words * 4).toNat = 4 * words.toNat % 2 ^ 32 := by
  rw [UInt32.toNat_mul, Nat.mul_comm]
  rfl

theorem certificate_ne (length : UInt32) : length ≠ length - xfsblAuthCertMinSize := by
  intro h
  have h := congrArg UInt32.toNat h
  have hlt := length.toNat_lt
  rw [UInt32.toNat_sub, show xfsblAuthCertMinSize.toNat = 3776 from rfl] at h
  omega

end Copied

section Runs

variable {hw : Hw} {n : Nat} {w w' : World} {u : Unit} {efuseSecCtrl : UInt32}

/-- **A copied partition outside the PL: the validation takes it as it was copied exactly if a signed
one has no checksum and fits its TCM with the certificate.** -/
theorem agrees_iff (hv : validatePartitionHeader (w.inst.imageHeader.header n) w.inst.processorID
      w.inst.resetReason efuseSecCtrl = xfsblSuccess)
    (hpl : (w.inst.imageHeader.header n).toPl = false)
    (hc : partitionCopy hw n w = .ok u w') :
    Agrees n w w' ↔ CertificateFits (w.inst.imageHeader.header n) w.inst.processorID := by
  have hn : n < 32 := by
    obtain ⟨_, _, h1, -⟩ := bind_ok.1 hc
    exact (header_ok.1 h1).1.1
  obtain ⟨copy, hcopy, hm⟩ := partitionCopy_ok hn hc
  rw [← header_eq hn] at hcopy
  have hsince : actsSince w w' = copy := by
    rw [actsSince, hm.trace, List.drop_left]
  obtain ⟨-, hxip⟩ := (validatePartitionHeader_success hv).lengths_le
  unfold Agrees CertificateFits
  rw [hsince]
  generalize w.inst.imageHeader.header n = h at hv hpl hcopy hxip ⊢
  rw [← toNat_words]
  rcases hcopy.written hpl w with ⟨h0, hnone⟩ | ⟨hfits, m, data, hmem, hplaced⟩
  · -- in place: no byte was copied, and none is hashed
    obtain ⟨htotal, hau⟩ := hxip h0
    have hzero : (h.totalDataWordLength * 4).toNat = 0 := by
      simp [htotal]
    have hb : loadedBytes n copy = [] := by rw [loadedBytes, hnone]
    refine iff_of_true ⟨globalAddress (h.effectiveCpu w'.inst.processorID)
      h.destinationLoadAddress, ?_, ?_, ?_, ?_⟩ (by simp [hau])
    · refine getLoadAddress_ok_iff.2 ⟨?_, rfl⟩
      rw [hzero]
      exact fun _ _ => Nat.zero_le _
    · simp [hnone]
    · rw [checksumInput, hzero, hb]
      exact fun _ => rfl
    · simp [hau]
  · have hb : loadedBytes n copy = data.load 0 (copyLength h).toNat := by rw [loadedBytes, hplaced]
    have hmem' : w'.mem = _ := hm.mem.trans hmem
    constructor
    · rintro ⟨loadAddress, hw⟩ hau
      obtain ⟨hfull, rfl⟩ := getLoadAddress_ok_iff.1 hw.accepted
      rw [hm.processorID] at hfull hw
      refine ⟨?_, hfull⟩
      by_contra hsum
      have hbytes := hw.checksum hsum
      rw [checksumInput, hmem', hb, load_eq_iff, copyLength, if_pos (by simp [hau, hpl])] at hbytes
      exact certificate_ne _ (UInt32.toNat.inj hbytes)
    · intro hcert
      have hfull : FitsTcm (h.effectiveCpu w.inst.processorID) h.destinationLoadAddress
          (h.totalDataWordLength * 4).toNat := by
        cases hau : h.authenticated with
        | true => exact (hcert hau).2
        | false => simpa [copyLength, hau, xihPartitionWordLength] using hfits
      refine ⟨_, getLoadAddress_ok_iff.2 ⟨by rwa [hm.processorID], rfl⟩, ?_, ?_, ?_⟩
      · intro p hp
        rw [hplaced] at hp
        obtain rfl := Option.mem_some_iff.1 hp
        rw [hm.processorID]
      · intro hsum
        have hau : h.authenticated = false := by
          by_contra hau
          exact hsum (hcert (by simpa using hau)).1
        rw [checksumInput, hmem', hb, hm.processorID, load_eq_iff, copyLength, if_neg (by simp [hau])]
        rfl
      · intro hau
        rw [signVerInput, hmem', hb, hm.processorID, load_eq_iff, copyLength,
          if_pos (by simp [hau, hpl])]
        rfl

/-! ## The run of the validation -/

/-- The validation from the load address on. -/
def validateAt (hw : Hw) (n : Nat) (h : PartitionHeader) (inst : XFsblPs)
    (loadAddress : UInt64) : Fsbl Unit := do
  checkPartition hw n h inst loadAddress
  decryptPartition hw n h loadAddress
  downloadBitstream hw n h loadAddress
  afterBitstream hw h
  finishPartition hw n h (h.effectiveCpu inst.processorID) loadAddress

/-- Outside the PL the validation either rejects the load address or goes on from it. -/
theorem partitionValidation_apply (hn : n < 32)
    (hpl : (w.inst.imageHeader.header n).toPl = false) :
    partitionValidation hw n w =
      match getLoadAddress ((w.inst.imageHeader.header n).effectiveCpu w.inst.processorID)
        (w.inst.imageHeader.header n).destinationLoadAddress
        ((w.inst.imageHeader.header n).totalDataWordLength * 4) with
      | .ok loadAddress => validateAt hw n (w.inst.imageHeader.header n) w.inst loadAddress w
      | .error code => .error (.status code) w := by
  have hh : header n w = .ok (w.inst.imageHeader.header n) w := by
    rw [header_eq hn]
    exact dif_pos hn
  generalize w.inst.imageHeader.header n = h at hpl hh ⊢
  show (header n >>= _) w = _
  rw [bind_apply, hh]
  show (if h.toPl ∧ w.inst.resetReason = xfsblPsOnlyReset then _ else _ : Fsbl Unit) w = _
  rw [if_neg (by simp [hpl])]
  show (ofExcept _ >>= _) w = _
  rw [bind_apply]
  cases getLoadAddress (h.effectiveCpu w.inst.processorID) h.destinationLoadAddress
      (h.totalDataWordLength * 4) with
  | error code => rfl
  | ok loadAddress =>
    have hla : plLoadAddress h loadAddress = loadAddress := by simp [plLoadAddress, hpl]
    show (validateAt hw n h w.inst (plLoadAddress h loadAddress)) w = _
    rw [hla]

/-- Where copy and validation agree, the validation goes on from the copied address. -/
theorem Agrees.validates (ha : Agrees n w w') (hc : partitionCopy hw n w = .ok u w')
    (hpl : (w.inst.imageHeader.header n).toPl = false) :
    ∃ loadAddress,
      WorksOn n (w.inst.imageHeader.header n) (actsSince w w') w' loadAddress ∧
        partitionValidation hw n w' =
          validateAt hw n (w.inst.imageHeader.header n) w'.inst loadAddress w' := by
  have hn : n < 32 := by
    obtain ⟨_, _, h1, -⟩ := bind_ok.1 hc
    exact (header_ok.1 h1).1.1
  obtain ⟨_, -, hm⟩ := partitionCopy_ok hn hc
  obtain ⟨loadAddress, hw⟩ := ha
  refine ⟨loadAddress, hw, ?_⟩
  rw [partitionValidation_apply hn (by rwa [hm.imageHeader]), hm.imageHeader, hw.accepted]

/-- The checksum is that of `checksumInput`. -/
theorem checkPartitionChecksum_apply {h : PartitionHeader} {inst : XFsblPs} {loadAddress : UInt64}
    (hsum : h.getChecksumType = xihPhAttrbHashSha3) :
    checkPartitionChecksum hw h inst loadAddress w =
      (do
        let partitionHash ← shaDigest hw (checksumInput w.mem h loadAddress)
        let hash ← deviceRead hw (inst.imageOffsetAddress + h.checksumWordOffset * 4) 48
        ensure (hash.load 0 48 = partitionHash.toList) xfsblFailure : Fsbl Unit) w := by
  unfold checkPartitionChecksum
  rw [if_neg (by rw [hsum]; decide), hsum]
  rfl

end Runs

/-! ## A signed partition for a TCM -/

/-- Partition 1: signed, for R5-0, `0x10000` bytes of data and certificate and 64 more. -/
def tcmSignedBoard : Board :=
  qspiBoard [{ enc := 4, unEnc := 4, total := 0x4010, load := 0, attributes := 0x8500 }]

theorem tcmSignedBoard_copy :
    partitionCopy tcmSignedBoard.hw 1 tcmSignedBoard.beforeCopy =
      .ok () (final (partitionCopy tcmSignedBoard.hw 1 tcmSignedBoard.beforeCopy)) :=
  eq_ok_final (by decide +kernel)

theorem agrees_iff_tcmSignedBoard :
    Agrees 1 tcmSignedBoard.beforeCopy
        (final (partitionCopy tcmSignedBoard.hw 1 tcmSignedBoard.beforeCopy)) ↔
      CertificateFits (tcmSignedBoard.beforeCopy.inst.imageHeader.header 1)
        tcmSignedBoard.beforeCopy.inst.processorID :=
  @agrees_iff _ _ _ _ _ 0 (by decide +kernel) (by decide +kernel) tcmSignedBoard_copy

/-- It is copied, and rejected for its length. -/
theorem not_agrees :
    ¬ ∀ (hw : Hw) (n : Nat) (w w' : World) (efuseSecCtrl : UInt32),
      validatePartitionHeader (w.inst.imageHeader.header n) w.inst.processorID w.inst.resetReason
        efuseSecCtrl = xfsblSuccess →
      (w.inst.imageHeader.header n).toPl = false →
      partitionCopy hw n w = .ok () w' → Agrees n w w' := by
  intro h
  obtain ⟨loadAddress, hw⟩ := h tcmSignedBoard.hw 1 tcmSignedBoard.beforeCopy _ 0
    (by decide +kernel) (by decide +kernel) tcmSignedBoard_copy
  have hfits := (getLoadAddress_ok_iff.1 hw.accepted).1
  revert hfits
  decide +kernel

end MeasuredBoot
