import MeasuredBoot.Completeness
import MeasuredBoot.SdHeaders

/-!
# Runs from a boot file that may end early

The loads and the runs over the card. `PartsInFile hw file s`: what the pass from `s` copies from the
card lies in the boot file. A run of such passes is a run over the card that fails past the end
of the file, and the partitions it loaded and measured are the file's
bytes. Without the condition `XFsbl_SdCopy` reports what it did not read.
-/

namespace MeasuredBoot

open Prog TransSys Sd

/-- What a load copies of a partition lies in the file: its data, its certificate, its checksum. -/
structure PartitionInFile (file : List UInt8) (inst : XFsblPs) (h : PartitionHeader) : Prop where
  data : h.unEncryptedDataWordLength ≠ 0 → InFile file (srcAddress inst h) (copyLength h).toNat
  certificate : h.unEncryptedDataWordLength ≠ 0 → (h.authenticated && !h.toPl) = true →
    InFile file (srcAddress inst h + copyLength h) xfsblAuthCertMinSize.toNat
  checksum : h.getChecksumType ≠ xihPhAttrbNochecksum →
    InFile file (inst.imageOffsetAddress + h.checksumWordOffset * 4) 48

section Load

variable {hw : Hw} {file : List UInt8} {n : Nat} {h : PartitionHeader} {inst : XFsblPs}
  {destinationCpu : UInt32} {loadAddress : UInt64} {w w' : World} {u : Unit}

theorem deviceOps_of_fixed {i j : XFsblPs} (h : i.fixed = j.fixed) : i.deviceOps = j.deviceOps := by
  have hf := congrArg XFsblPs.deviceOps h
  exact hf

theorem srcAddress_of_fixed {i j : XFsblPs} (h : i.fixed = j.fixed) (ph : PartitionHeader) :
    srcAddress i ph = srcAddress j ph := by
  have hf := congrArg XFsblPs.imageOffsetAddress h
  unfold srcAddress
  rw [show i.imageOffsetAddress = j.imageOffsetAddress from hf]

/-! ## Copy -/

theorem deviceLoad_checked {srcAddress : UInt32} {start length : Nat}
    (hin : w.inst.deviceOps = some .sd → InFile file srcAddress length) :
    deviceLoad (hw.checked file) n srcAddress start length w =
      deviceLoad hw n srcAddress start length w :=
  bind_congr_run (deviceOpsCopy_checked hin) fun _ _ _ => rfl

/-! ## What does not copy -/

theorem eccInitLoop_checked (fuel startAddr numBytes : Nat) :
    eccInitLoop (hw.checked file) fuel startAddr numBytes = eccInitLoop hw fuel startAddr numBytes := by
  induction fuel generalizing startAddr numBytes with
  | zero => rfl
  | succ fuel ih =>
    unfold eccInitLoop
    simp only [ih]
    rfl

theorem eccInitRanges_checked (ranges : List (Nat × Nat)) :
    eccInitRanges (hw.checked file) ranges = eccInitRanges hw ranges := by
  induction ranges with
  | nil => rfl
  | cons range ranges ih =>
    unfold eccInitRanges eccInit
    rw [ih, eccInitLoop_checked]

theorem tcmEccInit_checked (cpuId : UInt32) :
    tcmEccInit (hw.checked file) cpuId = tcmEccInit hw cpuId := by
  unfold tcmEccInit
  simp only [eccInitRanges_checked]

theorem configureTcm_checked (memory : TcmMemory) (runningCpu eccMask : UInt32) :
    configureTcm (hw.checked file) memory runningCpu destinationCpu eccMask =
      configureTcm hw memory runningCpu destinationCpu eccMask := by
  unfold configureTcm
  rw [tcmEccInit_checked]
  cases memory <;> rfl

theorem configureMemory_checked (runningCpu : UInt32) :
    configureMemory (hw.checked file) runningCpu destinationCpu loadAddress =
      configureMemory hw runningCpu destinationCpu loadAddress := by
  unfold configureMemory
  simp only [configureTcm_checked]

theorem handoffEntries_checked (vs : List HandoffValue) (running : Option (UInt64 × UInt32)) :
    handoffEntries (hw.checked file) h inst vs running = handoffEntries hw h inst vs running := by
  induction vs generalizing running with
  | nil => rfl
  | cons v vs ih =>
    unfold handoffEntries
    simp only [ih]
    rfl

theorem handoff_checked : handoff (hw.checked file) n = handoff hw n := by
  unfold handoff
  simp only [handoffEntries_checked]
  rfl

theorem fsblInitialize_checked : fsblInitialize (hw.checked file) = fsblInitialize hw := by
  unfold fsblInitialize tcmInit
  simp only [tcmEccInit_checked]
  rfl

/-! ## The load -/

theorem copyToMemory_checked
    (hne : h.unEncryptedDataWordLength ≠ 0)
    (hin : w.inst.deviceOps = some .sd → PartitionInFile file inst h) :
    copyToMemory (hw.checked file) n h inst destinationCpu w =
      copyToMemory hw n h inst destinationCpu w := by
  refine bind_congr_run ?_ fun _ v hv => ?_
  · unfold when
    split
    · exact bind_congr_run (deviceRead_checked fun hd => (hin hd).certificate hne (by assumption))
        fun _ _ _ => rfl
    · rfl
  refine bind_congr_run rfl fun loadAddress v₁ hl => ?_
  obtain ⟨-, rfl⟩ := ofExcept_ok.1 hl
  refine bind_congr_run (congrFun (configureMemory_checked _) _) fun _ v₂ hv₂ => ?_
  refine bind_congr_run rfl fun _ v₃ hv₃ => ?_
  refine deviceLoad_checked fun hd => (hin ?_).data hne
  have h1 := ((frame_when fun _ => frame_bind (frame_deviceRead (R := Ticks) hw _ _)
    fun _ => frame_pure ()).ok hv).moves
  obtain ⟨ecc, -, h2⟩ := (frame_configureMemory hw _ _ _).ok hv₂
  have h3 := ((frame_when fun _ => frame_wait (R := Ticks) hw _).ok hv₃).moves
  rw [← hd]
  exact (deviceOps_of_fixed ((h1.trans h2).trans h3).inst).symm

theorem partitionCopy_checked
    (hin : w.inst.deviceOps = some .sd → ¬ PlKept (w.inst.imageHeader.header n) w.inst.resetReason →
      PartitionInFile file w.inst (w.inst.imageHeader.header n)) :
    partitionCopy (hw.checked file) n w = partitionCopy hw n w := by
  refine bind_congr_run rfl fun ph v hh => ?_
  obtain ⟨⟨hn, rfl⟩, rfl⟩ := header_ok.1 hh
  rw [header_eq hn] at hin
  refine bind_congr_run rfl fun _ v hv => ?_
  obtain ⟨rfl, rfl⟩ := get_ok.1 hv
  split
  · rfl
  split
  · rfl
  · exact copyToMemory_checked (by assumption) fun hd => hin hd (by assumption)

theorem checkPartitionChecksum_checked
    (hin : w.inst.deviceOps = some .sd → PartitionInFile file inst h) :
    checkPartitionChecksum (hw.checked file) h inst loadAddress w =
      checkPartitionChecksum hw h inst loadAddress w := by
  unfold checkPartitionChecksum
  split
  · rfl
  refine bind_congr_run rfl fun _ v hv => ?_
  obtain ⟨-, rfl⟩ := ensure_ok.1 hv
  refine bind_congr_run rfl fun input v hv => ?_
  obtain ⟨-, rfl⟩ := loadMem_ok.1 hv
  refine bind_congr_run rfl fun partitionHash v hv => ?_
  have ht := (frame_shaDigest (R := Ticks) hw _).ok hv
  refine bind_congr_run (deviceRead_checked fun hd => ?_) fun _ _ _ => rfl
  rw [ht.inst] at hd
  exact (hin hd).checksum (by assumption)

theorem checkPartition_checked
    (hin : w.inst.deviceOps = some .sd → PartitionInFile file inst h) :
    checkPartition (hw.checked file) n h inst loadAddress w =
      checkPartition hw n h inst loadAddress w := by
  refine bind_congr_run rfl fun _ v hv => ?_
  refine bind_congr_run rfl fun _ v' hv' => ?_
  refine bind_congr_run (checkPartitionChecksum_checked fun hd => hin ?_) fun _ _ _ => rfl
  have h1 := (frame_when (R := Ticks) fun _ => frame_checkedAs hw _ _).ok hv
  have h2 := (frame_when (R := Ticks) fun _ =>
    frame_bind (frame_checkedAs hw _ _) fun _ => frame_checked hw _).ok hv'
  rw [← hd, h2.inst, h1.inst]

theorem validatePlaced_checked
    (hin : w.inst.deviceOps = some .sd → PartitionInFile file inst h) :
    validatePlaced (hw.checked file) n h inst destinationCpu w =
      validatePlaced hw n h inst destinationCpu w := by
  refine bind_congr_run rfl fun loadAddress v hl => ?_
  obtain ⟨-, rfl⟩ := ofExcept_ok.1 hl
  exact bind_congr_run (checkPartition_checked hin) fun _ _ _ => rfl

theorem partitionValidation_checked
    (hin : w.inst.deviceOps = some .sd → ¬ PlKept (w.inst.imageHeader.header n) w.inst.resetReason →
      PartitionInFile file w.inst (w.inst.imageHeader.header n)) :
    partitionValidation (hw.checked file) n w = partitionValidation hw n w := by
  refine bind_congr_run rfl fun ph v hh => ?_
  obtain ⟨⟨hn, rfl⟩, rfl⟩ := header_ok.1 hh
  rw [header_eq hn] at hin
  refine bind_congr_run rfl fun _ v hv => ?_
  obtain ⟨rfl, rfl⟩ := get_ok.1 hv
  split
  · rfl
  · exact validatePlaced_checked fun hd => hin hd (by assumption)

/-- Where the load of partition `n` copies from the card, it copies from the file. -/
def LoadInFile (file : List UInt8) (n : Nat) (w : World) : Prop :=
  w.inst.deviceOps = some .sd → ReallyLoaded w.inst n →
    PartitionInFile file w.inst (w.inst.imageHeader.header n)

theorem LoadInFile.of_fixed {v : World} (hin : LoadInFile file n w)
    (hfix : v.inst.fixed = w.inst.fixed) : LoadInFile file n v := by
  intro hd hr
  rw [reallyLoaded_of_fixed hfix] at hr
  rw [deviceOps_of_fixed hfix] at hd
  have hoffset := congrArg XFsblPs.imageOffsetAddress hfix
  have hp := hin hd hr
  rw [imageHeader_of_fixed hfix]
  refine ⟨fun hne => ?_, fun hne ha => ?_, fun hc => ?_⟩
  · rw [srcAddress_of_fixed hfix]
    exact hp.data hne
  · rw [srcAddress_of_fixed hfix]
    exact hp.certificate hne ha
  · rw [show v.inst.imageOffsetAddress = w.inst.imageOffsetAddress from hoffset]
    exact hp.checksum hc

/-- A load with either card. -/
theorem partitionLoad_checked (hin : LoadInFile file n w) :
    partitionLoad (hw.checked file) n w = partitionLoad hw n w := by
  refine bind_congr_run rfl fun owned v hv => ?_
  obtain ⟨hn, -, hm, howned⟩ := partitionHeaderValidation_ok hv
  unfold when
  split
  · rename_i ho
    rw [if_pos ho] at howned
    have hno : ¬ NotOwned (w.inst.imageHeader.header n) w.inst.processorID w.inst.resetReason := by
      rw [header_eq hn]
      exact fun hno => hno.elim (fun h => h howned.1) howned.2.owned
    have hkept {x : World} (hfix : x.inst.fixed = w.inst.fixed) (hd : x.inst.deviceOps = some .sd)
        (hk : ¬ PlKept (x.inst.imageHeader.header n) x.inst.resetReason) :
        PartitionInFile file x.inst (x.inst.imageHeader.header n) := by
      refine hin.of_fixed hfix hd ⟨?_, hk⟩
      rwa [imageHeader_of_fixed hfix, processorID_of_fixed hfix, resetReason_of_fixed hfix]
    refine bind_congr_run (partitionCopy_checked (hkept hm.inst)) fun _ v' hv' => ?_
    obtain ⟨_, -, hm'⟩ := partitionCopy_ok hn hv'
    exact bind_congr_run (partitionValidation_checked (hkept (hm.trans hm').inst)) fun _ _ _ => rfl
  · rfl

end Load

/-! ## What a load placed and measured -/

section File

variable {hw : Hw} {file : List UInt8} {n : Nat} {h : PartitionHeader} {inst : XFsblPs}
  {destinationCpu : UInt32} {w w' : World} {u : Unit}

theorem deviceLoad_file {srcAddress length : UInt32} {start : Nat} (he : Exact hw file)
    (hd : w.inst.deviceOps = some .sd)
    (hl : deviceLoad hw n srcAddress start length.toNat w = .ok u w') :
    ∃ data, HasBytes file srcAddress length.toNat data ∧
      Moves [.placed n start length.toNat data] w w' := by
  obtain ⟨r, v, h1, hl⟩ := bind_ok.1 hl
  rw [deviceOpsCopy_apply hd] at h1
  obtain ⟨rfl, rfl⟩ : hw.deviceCopy w.tick .sd srcAddress length.toNat = r ∧
      { w with tick := w.tick + 1 } = v := by simpa using h1
  obtain ⟨_, v', h2, hl⟩ := bind_ok.1 hl
  obtain ⟨hok, rfl⟩ := ensure_ok.1 hl
  obtain rfl := act_ok.1 h2
  have htick : Ticks w { w with tick := w.tick + 1 } := Silent.tick w
  exact ⟨_, he _ _ _ hok, htick.moves.trans (.act _ _)⟩

/-- A copied partition: the file's bytes are the last that were placed. -/
theorem copyToMemory_file (he : Exact hw file) (hd : w.inst.deviceOps = some .sd)
    (hc : copyToMemory hw n h inst destinationCpu w = .ok u w') :
    ∃ (loadAddress : UInt64) (ecc : List Act) (data : Mem),
      getLoadAddress destinationCpu (plLoadAddress h h.destinationLoadAddress) (copyLength h) =
          .ok loadAddress ∧
        (∀ a ∈ ecc, TcmInit a) ∧ HasBytes file (srcAddress inst h) (copyLength h).toNat data ∧
        Moves (ecc ++ [.placed n loadAddress.toNat (copyLength h).toNat data]) w w' := by
  obtain ⟨_, t, h1, hc⟩ := bind_ok.1 hc
  have ht := ((frame_when fun _ => frame_bind (frame_deviceRead (R := Ticks) hw _ _)
    fun _ => frame_pure ()).ok h1).moves
  obtain ⟨loadAddress, _, h2, hc⟩ := bind_ok.1 hc
  obtain ⟨hl, rfl⟩ := ofExcept_ok.1 h2
  obtain ⟨_, v, h3, hc⟩ := bind_ok.1 hc
  obtain ⟨ecc, hecc, hv⟩ := (frame_configureMemory hw _ _ _).ok h3
  obtain ⟨_, v', h4, hc⟩ := bind_ok.1 hc
  have hv' := ((frame_when fun _ => frame_wait (R := Ticks) hw _).ok h4).moves
  have hbefore := (ht.trans hv).trans hv'
  have hd' : v'.inst.deviceOps = some .sd := (deviceOps_of_fixed hbefore.inst).trans hd
  obtain ⟨data, hdata, hm⟩ := deviceLoad_file he hd' hc
  refine ⟨loadAddress, ecc, data, hl, hecc, hdata, ?_⟩
  simpa using hbefore.trans hm

/-- What a load of partition `n` took from `src` on: the bytes it placed, and for a plain partition
the input of its one hash. -/
structure LoadedFrom (file : List UInt8) (src : UInt32) (n : Nat) (h : PartitionHeader)
    (as : List Act) : Prop where
  placed : ∃ start data, .placed n start (copyLength h).toNat data ∈ as ∧
    HasBytes file src (copyLength h).toNat data
  measured : h.toPl = false → h.encrypted = false → h.authenticated = false → ∃ start,
    hashInputs n as = [(start, (fileMem file).load src.toNat (copyLength h).toNat)]

theorem Sd.HasBytes.load {srcAddress : UInt32} {length : Nat} {data : Mem}
    (hb : HasBytes file srcAddress length data) :
    data.load 0 length = (fileMem file).load srcAddress.toNat length := by
  have hm := Mem.load_shift (fileMem file) srcAddress.toNat 0 length
  rw [Nat.add_zero] at hm
  rw [← hm]
  exact Mem.load_congr fun i _ hi => hb.mem (by omega)

/-- The lengths of a plain partition. -/
theorem copyLength_plain {cpu reset : UInt32} (ha : Accepted h cpu reset) (henc : h.encrypted = false)
    (hau : h.authenticated = false) : copyLength h = h.unEncryptedDataWordLength * 4 := by
  have hl : partitionLengthsOk h = true := by simpa using ha.lengths
  simp only [partitionLengthsOk, hau, henc, Bool.and_eq_true, beq_iff_eq] at hl
  simp [copyLength, hau, hl.1, hl.2, xihPartitionWordLength]

theorem loadedBytes_copied {ecc valid : List Act} {start len : Nat} {data : Mem}
    (hv : lastPlaced n valid = none) :
    loadedBytes n ((ecc ++ [.placed n start len data]) ++ valid) = data.load 0 len := by
  have hlast : lastPlaced n ((ecc ++ [.placed n start len data]) ++ valid) =
      some (start, len, data) := by
    rw [lastPlaced_append, lastPlaced_append, hv]
    simp [lastPlaced, placedAt]
  rw [loadedBytes, hlast]

/-- **What a successful load took from the file.** -/
theorem partitionLoad_file (he : Exact hw file) (hd : w.inst.deviceOps = some .sd)
    (hr : ReallyLoaded w.inst n)
    (hne : (w.inst.imageHeader.header n).unEncryptedDataWordLength ≠ 0)
    (hl : partitionLoad hw n w = .ok u w') :
    ∃ as, Moves as w w' ∧ LoadedFrom file (srcAddress w.inst (w.inst.imageHeader.header n)) n
      (w.inst.imageHeader.header n) as := by
  obtain ⟨owned, v, h1, hl⟩ := bind_ok.1 hl
  obtain ⟨hn, -, hm, howned⟩ := partitionHeaderValidation_ok h1
  obtain ⟨hno, hk⟩ := hr
  generalize hh : w.inst.imageHeader.header n = h at hno hk hne ⊢
  rw [header_eq hn] at hh
  rw [hh] at howned
  rcases when_ok.1 hl with ⟨rfl, hl⟩ | ⟨ho, rfl⟩
  · rw [if_pos rfl] at howned
    obtain ⟨-, hacc⟩ := howned
    have hhv : v.inst.imageHeader.partitionHeader[n] = h := by rw [hm.imageHeader, hh]
    have hkv : ¬ (h.toPl = true ∧ v.inst.resetReason = xfsblPsOnlyReset) := by rwa [hm.resetReason]
    -- the copy
    obtain ⟨_, v₁, h2, hl⟩ := bind_ok.1 hl
    obtain ⟨ph, x, h3, h2⟩ := bind_ok.1 h2
    obtain ⟨⟨_, rfl⟩, rfl⟩ := header_ok.1 h3
    obtain ⟨_, x, h4, h2⟩ := bind_ok.1 h2
    obtain ⟨rfl, rfl⟩ := get_ok.1 h4
    rw [hhv, if_neg hne, if_neg hkv] at h2
    have hdv : v.inst.deviceOps = some .sd := (deviceOps_of_fixed hm.inst).trans hd
    rw [← srcAddress_of_fixed hm.inst]
    obtain ⟨loadAddress, ecc, data, hla₁, hecc, hbytes, hm₁⟩ := copyToMemory_file he hdv h2
    have hcopy : CopyActs n h v.inst (ecc ++ [.placed n loadAddress.toNat (copyLength h).toNat data]) :=
      .copied data hne hkv hla₁ hecc
    -- validation, and the wait for the PMU
    obtain ⟨_, v₂, h5, hl⟩ := bind_ok.1 hl
    obtain ⟨idle, hi, hm₃⟩ := checkPmuFw_ok hl
    rcases partitionValidation_ok hn h5 with ⟨hk', -⟩ | ⟨-, la, valid, hla, hva, hm₂⟩
    · rw [hm₁.imageHeader, hm₁.resetReason, hhv] at hk'
      exact absurd hk' hkv
    rw [hm₁.imageHeader, hhv] at hla hva
    rw [hm₁.processorID] at hla
    refine ⟨_, ((hm.trans hm₁).trans hm₂).trans hm₃, ?_, fun hpl henc hau => ?_⟩
    · exact ⟨loadAddress.toNat, data, by simp, hbytes⟩
    have haccv : Accepted h v.inst.processorID v.inst.resetReason := by
      rwa [hm.processorID, hm.resetReason]
    obtain ⟨start, input, d, hmeas⟩ := copied_measured v haccv hpl hcopy hkv hm₁.mem hla hva
    have hnone : lastPlaced n valid = none := by
      cases hva with
      | plain _ _ hma =>
        obtain ⟨_, -, hrec⟩ := hma.recorded
        exact hrec.placed
      | signedPl hpl' => simp [hpl] at hpl'
      | plainPl _ hpl' => simp [hpl] at hpl'
      | encryptedPl _ hpl' => simp [hpl] at hpl'
      | decrypted _ _ henc' => simp [henc] at henc'
    have hinput : input = data.load 0 (copyLength h).toNat := by
      have hlen : input.length = (data.load 0 (copyLength h).toNat).length := by
        rw [hmeas.length, Mem.length_load, toNat_shiftLeft_two, copyLength_plain hacc henc hau]
      have hagree := hmeas.agree
      rw [loadedBytes_copied hnone] at hagree
      rcases hagree with hp | hp
      · exact hp.eq_of_length hlen
      · exact (hp.eq_of_length hlen.symm).symm
    have hchecked : QuietActs [.headerChecked n true] :=
      ⟨fun _ => rfl, fun _ => rfl, rfl, fun _ => rfl⟩
    have hquiet := hmeas.quiet hchecked (quietActs fun a ha => quiet_idle a (hi a ha))
    refine ⟨start, ?_⟩
    have hhash := hquiet.recorded.hashed
    rw [hinput, hbytes.load] at hhash
    simpa using hhash
  · rw [if_neg ho] at howned
    exact absurd howned hno

end File

/-! ## One pass, and a run -/

/-- What the pass from `s` copies from the card lies in the boot file. -/
structure PartsInFile (hw : Hw) (file : List UInt8) (s : MainState) : Prop where
  headers : s.locals.fsblStage = .stage2 → HeadersInFile hw file
  partition : s.locals.fsblStage = .stage3 → LoadInFile file s.locals.partitionNum s.world

section Run

variable {hw : Hw} {file : List UInt8} {w : World} {s s₀ : MainState}

theorem statusOf_congr {c c' : Fsbl Unit} (h : c w = c' w) : statusOf c w = statusOf c' w := by
  unfold statusOf
  rw [h]

theorem runStage_checked (hf : OnSd hw file) (hs : PartsInFile hw file s) :
    runStage (hw.checked file) s.locals s.world = runStage hw s.locals s.world := by
  unfold runStage
  cases hstage : s.locals.fsblStage with
  | stage1 =>
    show runStage1 (hw.checked file) s.world = runStage1 hw s.world
    unfold runStage1
    rw [fsblInitialize_checked]
  | stage2 =>
    exact bind_congr_run (statusOf_congr (bootDeviceInitAndValidate_checked hf (hs.headers hstage)))
      fun _ _ _ => rfl
  | stage3 =>
    refine bind_congr_run ?_ fun _ _ _ => rfl
    refine bind_congr_run rfl fun _ v hv => ?_
    obtain rfl := act_ok.1 hv
    refine bind_congr_run (statusOf_congr (partitionLoad_checked ?_)) fun _ _ _ => rfl
    exact (hs.partition hstage).of_fixed (World.fixed_apply _ _)
  | stage4 =>
    show runStage4 (hw.checked file) s.locals.partitionNum s.world = runStage4 hw _ s.world
    unfold runStage4
    rw [handoff_checked]
  | stageErr => rfl
  | stageDefault => rfl
  | ended h => rfl

/-- A pass with either card. -/
theorem mainStep_checked (hf : OnSd hw file) (hs : PartsInFile hw file s) :
    mainStep (hw.checked file) s = mainStep hw s := by
  unfold mainStep
  rw [runStage_checked hf hs]

/-- A run of such passes is a run over the card that fails past the end of the file. -/
theorem run_checked (hf : OnSd hw file) (h : (boot hw).Run (PartsInFile hw file) s₀ s) :
    (boot (hw.checked file)).Run (fun _ => True) s₀ s := by
  induction h with
  | refl => exact .refl _
  | snoc _ hg hn ih =>
    obtain ⟨hrun, rfl⟩ := hn
    exact .snoc ih trivial ⟨hrun, (mainStep_checked hf hg).symm⟩

/-- The loads of a run: what each took from the file. -/
theorem Loaded.from_file {w' : World} {n : Nat} (he : Exact hw file) (h : Loaded hw AnyLoad w n w')
    (hd : w.inst.deviceOps = some .sd) (k : Nat) (h1 : 1 ≤ k) (hk : k ≤ n)
    (hr : ReallyLoaded w.inst k)
    (hne : (w.inst.imageHeader.header k).unEncryptedDataWordLength ≠ 0) :
    ∃ as, as <:+: w'.trace ∧ LoadedFrom file (srcAddress w.inst (w.inst.imageHeader.header k)) k
      (w.inst.imageHeader.header k) as := by
  induction h with
  | none => omega
  | @next n v v' mask hld hp hl ih =>
    have grown {as : List Act} (has : as <:+: v'.trace) :
        as <:+: ((v'.apply (.loadReturned (n + 1) xfsblSuccess)).apply (.r5Used mask)).trace := by
      show as <:+: (v'.trace ++ [_]) ++ [_]
      rw [List.append_assoc]
      exact has.trans (List.prefix_append _ _).isInfix
    by_cases hlast : k = n + 1
    · subst hlast
      have hfix : (v.apply (.loadCalled (n + 1))).inst.fixed = w.inst.fixed :=
        (World.fixed_apply _ _).trans hld.fixed
      rw [← reallyLoaded_of_fixed hfix] at hr
      rw [← imageHeader_of_fixed hfix] at hne ⊢
      obtain ⟨as, hm, hload⟩ := partitionLoad_file he ((deviceOps_of_fixed hfix).trans hd) hr hne hl
      rw [srcAddress_of_fixed hfix] at hload
      refine ⟨as, grown ?_, hload⟩
      rw [hm.trace]
      exact (List.suffix_append _ _).isInfix
    · obtain ⟨as, has, hload⟩ := ih (by omega)
      obtain ⟨bs, -, hm⟩ := (frame_partitionLoad hw (n + 1)).ok hl
      refine ⟨as, grown ?_, hload⟩
      rw [hm.trace]
      refine has.trans ((List.prefix_append _ [.loadCalled (n + 1)]).trans ?_).isInfix
      exact List.prefix_append _ _

/-- The run has loaded the partitions 1 to `n`. -/
def PartitionsLoaded (s : MainState) (n : Nat) : Prop :=
  s.locals.fsblStage = .stage3 ∧ s.locals.partitionNum = n + 1 ∨
    s.locals.fsblStage = .stage4 ∧ s.locals.partitionNum = n ∧ 1 ≤ n

/-- What was read from the file, where partitions 1 to `n` are loaded. -/
structure ReadsFile (hw : Hw) (file : List UInt8) (n : Nat) (s : MainState) : Prop where
  headers : (∀ t, ¬ Authenticates hw file t) →
    HeadersFrom file 0 (word32 (fileMem file) 38) s.world.inst.imageHeader
  loads : ∀ k, 1 ≤ k → k ≤ n → ReallyLoaded s.world.inst k →
    (s.world.inst.imageHeader.header k).unEncryptedDataWordLength ≠ 0 →
    ∃ as, as <:+: s.world.trace ∧ LoadedFrom file
      (srcAddress s.world.inst (s.world.inst.imageHeader.header k)) k
      (s.world.inst.imageHeader.header k) as

theorem readsFile_of_loaded {v : World} {n : Nat} (he : Exact hw file)
    (hb : bootDeviceInitAndValidate hw w = .ok () v)
    (hl : Loaded hw AnyLoad (v.apply .r5UsageCleared) n s.world)
    (hd : s.world.inst.deviceOps = some .sd) : ReadsFile hw file n s := by
  have hfix : s.world.inst.fixed = v.inst.fixed := hl.fixed.trans (World.fixed_apply _ _)
  have hdv : v.inst.deviceOps = some .sd := (deviceOps_of_fixed hfix).symm.trans hd
  refine ⟨fun hplain => ?_, fun k h1 hk hr hne => ?_⟩
  · rw [imageHeader_of_fixed hfix]
    exact bootDeviceInitAndValidate_file he hplain hb hdv
  · rw [reallyLoaded_of_fixed hfix] at hr
    rw [imageHeader_of_fixed hfix] at hne ⊢
    rw [srcAddress_of_fixed hfix]
    exact hl.from_file he hdv k h1 hk hr hne

/-- A run over a card that reports no more than it read. -/
theorem run_readsFile {G : MainState → Prop} {n : Nat} (he : Exact hw file)
    (h₀ : (boot hw).init s₀) (h : (boot hw).Run G s₀ s) (hn : PartitionsLoaded s n)
    (hd : s.world.inst.deviceOps = some .sd) : ReadsFile hw file n s := by
  have hist : History hw AnyLoad s₀.world s := run_history h₀ h
  unfold PartitionsLoaded at hn
  cases hist with
  | start hs => simp [hs] at hn
  | initialized hs => simp [hs] at hn
  | loading hs hp _ hb _ hl =>
    simp only [hs, hp, Nat.add_right_cancel_iff, true_and, reduceCtorEq, false_and, or_false] at hn
    exact readsFile_of_loaded he hb (hn ▸ hl) hd
  | loaded hs hp _ hb _ hl =>
    simp only [hs, hp, true_and, reduceCtorEq, false_and, false_or] at hn
    exact readsFile_of_loaded he hb (hn.1 ▸ hl) hd
  | jtag hs hp =>
    simp only [hs, hp, true_and, reduceCtorEq, false_and, false_or] at hn
    omega
  | failed ho => rcases ho with ho | ho | ⟨e, ho⟩ <;> simp [ho] at hn

/-- **Copies from a boot file that may end early.** A copy that succeeds is the file's exactly where
the file is long enough; and a run whose passes copy from within the file is one over a card
that fails past its end, where headers, partitions and measurements are the file's. -/
theorem sdCopy_short_file (card : Card) (fil : Fil) (m : Mem) (srcAddress : UInt32)
    (destAddress : Nat) (length : UInt32) :
    (CopiesFile card fil m srcAddress destAddress length ↔
        card.lseek ≠ .frOk ∨ card.read ≠ .frOk ∨ InFile fil.obj srcAddress length.toNat) ∧
      ∀ (hw : Hw) (file : List UInt8) (s₀ s : MainState), OnSd hw file → (boot hw).init s₀ →
        (boot hw).Run (PartsInFile hw file) s₀ s →
          (boot (hw.checked file)).Run (fun _ => True) s₀ s ∧
            ∀ n, PartitionsLoaded s n → s.world.inst.deviceOps = some .sd →
              ReadsFile hw file n s := by
  refine ⟨copiesFile_iff, fun hw file s₀ s hf h₀ h => ?_⟩
  have hc := run_checked hf h
  refine ⟨hc, fun n hn hd => ?_⟩
  obtain ⟨hheaders, hloads⟩ := run_readsFile (exact_checked hf) h₀ hc hn hd
  exact ⟨hheaders, hloads⟩

end Run

/-! ## A card -/

/-- A byte of the image of a board. -/
def Board.fileByte (b : Board) (a : Nat) : UInt8 :=
  if a < 0x2000 then (b.flash .sd).byte a else b.data (a - 0x2000)

/-- A boot file that has the first `size` bytes of the image. -/
def Board.file (b : Board) (size : Nat) : List UInt8 := (List.range size).map b.fileByte

theorem xfsblSuccess_ne_jtag : xfsblSuccess ≠ xfsblStatusJtag := by decide

/-- The board with that file on its card; memory was zero. -/
def Board.cardHw (b : Board) (size : Nat) : Hw :=
  { b.hw with
    deviceCopy := fun _ _ srcAddress length =>
      (xfsblSuccess, fun i =>
        if i < length ∧ srcAddress.toNat + i < size then b.fileByte (srcAddress.toNat + i) else 0)
    copyStatus := fun _ _ _ _ => xfsblSuccess_ne_jtag }

theorem Board.fileMem_file (b : Board) (size : Nat) :
    fileMem (b.file size) = fun i => if i < size then b.fileByte i else 0 := by
  funext i
  unfold fileMem Board.file
  by_cases hi : i < size <;> simp [hi]

theorem Board.onSd (b : Board) (size : Nat) : OnSd (b.cardHw size) (b.file size) := by
  intro t srcAddress length
  refine ⟨⟨.frOk, .frOk, 0⟩, ⟨b.file size, 0⟩, fun _ => 0, 0, rfl, ?_⟩
  show _ = ((xfsblSdCopy _ _ _ _ _ _).1, fun i => (xfsblSdCopy _ _ _ _ _ _).2.2 (0 + i))
  rw [xfsblSdCopy_success_iff.2 ⟨rfl, rfl⟩, xfsblSdCopy_mem rfl rfl]
  refine congrArg (xfsblSuccess, ·) (funext fun i => ?_)
  rw [Nat.zero_add]
  unfold Mem.store Board.file
  by_cases hi : i < length.toNat ∧ srcAddress.toNat + i < size
  · simp [hi]
  · rw [if_neg hi, if_pos (Nat.zero_le i), Nat.sub_zero, List.getElem?_eq_none, Option.getD_none]
    simp
    omega

/-- One plain partition on a card. -/
def sdBoard : Board := { plainBoard with bootMode := xfsblSd0BootMode }

theorem sdBoard_plain (size t : Nat) (hs : 0xEC0 ≤ size) :
    ¬ Authenticates (sdBoard.cardHw size) (sdBoard.file size) t := by
  have hword : word32 (fileMem (sdBoard.file size)) 17 = 0 := by
    rw [Board.fileMem_file]
    have hin : ∀ i < 0xEC0, (fun i => if i < size then sdBoard.fileByte i else 0) i =
        sdBoard.fileByte i := fun i hi => if_pos (by omega)
    rw [word32_congr 0xEC0 hin (by decide)]
    decide +kernel
  show ¬ ((0 : UInt32) &&& efuseSecCtrlRsaEnMask ≠ 0 ∨
    word32 (fileMem (sdBoard.file size)) 17 &&& xihBhImageAttrbRsaMask = xihBhImageAttrbRsaMask)
  rw [hword]
  decide

/-- The headers lie in a file that is long enough for them. -/
theorem sdBoard_headersInFile : HeadersInFile (sdBoard.cardHw 0x2040) (sdBoard.file 0x2040) where
  bootHeader := by
    unfold InFile Board.file
    simp [xihBhMaxSize]
  plain t _ := by
    unfold ImageInFile fileChain fileTable InFile
    rw [Board.fileMem_file, Board.file, List.length_map, List.length_range]
    decide +kernel
  signed t h := absurd h (sdBoard_plain 0x2040 t (by decide))

theorem Board.inFile_iff {b : Board} {size length : Nat} {srcAddress : UInt32} :
    InFile (b.file size) srcAddress length ↔ length = 0 ∨ srcAddress.toNat + length ≤ size := by
  unfold InFile Board.file
  rw [List.length_map, List.length_range]

/-- Its partition lies in the file. -/
theorem sdBoard_partitionInFile :
    LoadInFile (sdBoard.file 0x2040) 1 (passes (sdBoard.cardHw 0x2040) 2 powerOn).world := by
  refine fun _ _ => ⟨fun _ => ?_, fun _ ha => ?_, fun hc => ?_⟩
  · rw [Board.inFile_iff]
    decide +kernel
  · exact absurd ha (by decide +kernel)
  · exact absurd hc (by decide +kernel)

theorem sdBoard_run : (boot (sdBoard.cardHw 0x2040)).Run
    (PartsInFile (sdBoard.cardHw 0x2040) (sdBoard.file 0x2040)) powerOn
    (passes (sdBoard.cardHw 0x2040) 3 powerOn) := by
  have hrunning : ∀ i < 3, (passes (sdBoard.cardHw 0x2040) i powerOn).running = true := by
    decide +kernel
  have hstage : ∀ i < 2, (passes (sdBoard.cardHw 0x2040) i powerOn).locals.fsblStage ≠ .stage3 := by
    decide +kernel
  have hnum : (passes (sdBoard.cardHw 0x2040) 2 powerOn).locals.partitionNum = 1 := by
    decide +kernel
  refine run_iff_passes.2 ⟨3, rfl, fun i hi =>
    ⟨hrunning i hi, fun _ => sdBoard_headersInFile, fun hs => ?_⟩⟩
  obtain rfl : i = 2 := by
    have hge : ¬ i < 2 := fun hlt => hstage i hlt hs
    omega
  rw [hnum]
  exact sdBoard_partitionInFile

theorem sdCopy_short_file_sdBoard : ReadsFile (sdBoard.cardHw 0x2040) (sdBoard.file 0x2040) 1
    (passes (sdBoard.cardHw 0x2040) 3 powerOn) :=
  ((sdCopy_short_file ⟨.frOk, .frOk, 0⟩ ⟨sdBoard.file 0x2040, 0⟩ (fun _ => 0) 0 0 0xEC0).2
    (sdBoard.cardHw 0x2040) (sdBoard.file 0x2040) powerOn
    (passes (sdBoard.cardHw 0x2040) 3 powerOn) (sdBoard.onSd 0x2040) (init_powerOn _) sdBoard_run).2 1
    (.inr (by decide +kernel)) (by decide +kernel)

/-- A copy of eight bytes of a file of four reports success; and the board whose file ends within its
partition starts it. -/
theorem not_sdCopy_short_file :
    ¬ CopiesFile ⟨.frOk, .frOk, 0⟩ ⟨[1, 2, 3, 4], 0⟩ (fun _ => 0) 0 0 8 ∧
      OnSd (sdBoard.cardHw 0x2020) (sdBoard.file 0x2020) ∧
      ¬ LoadInFile (sdBoard.file 0x2020) 1 (passes (sdBoard.cardHw 0x2020) 2 powerOn).world ∧
      (passes (sdBoard.cardHw 0x2020) 4 powerOn).locals.fsblStage =
        .ended (.exit 0x100000 xfsblHandoffExit) := by
  refine ⟨?_, sdBoard.onSd _, fun h => ?_, by decide +kernel⟩
  · rw [copiesFile_iff]
    decide
  · have hd := (h (by decide +kernel) (by decide +kernel)).data (by decide +kernel)
    rw [Board.inFile_iff] at hd
    exact absurd hd (by decide +kernel)

end MeasuredBoot
