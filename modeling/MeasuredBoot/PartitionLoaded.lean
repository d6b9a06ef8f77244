import MeasuredBoot.PartitionActs

/-!
# What a successful load did

`partitionLoad_ok`: a load of partition `n` that succeeds either skipped the
partition or made, in this order, the acts of the copy (`CopyActs`), of the validation
with the measurement (`ValidActs`) and of the PMU wake-up (`PartitionLoaded`).
Every claim about a loaded partition is read off these cases.
-/

namespace MeasuredBoot

open Prog

/-- The handoff entry of a partition, unless its CPU has one. -/
def entryActs (n : Nat) (h : PartitionHeader) (inst : XFsblPs) : List Act :=
  let destinationCpu := h.effectiveCpu inst.processorID
  if checkHandoffCpu inst.handoffValues destinationCpu then
    [.handoffEntry n ⟨destinationCpu ||| h.getA53ExecState, h.destinationExecutionAddress⟩]
  else []

/-- The acts of `XFsbl_PartitionCopy`. -/
inductive CopyActs (n : Nat) (h : PartitionHeader) (inst : XFsblPs) : List Act → Prop where
  | xip : h.unEncryptedDataWordLength = 0 → CopyActs n h inst (entryActs n h inst)
  | plKept : h.unEncryptedDataWordLength ≠ 0 → PlKept h inst.resetReason → CopyActs n h inst []
  | copied {loadAddress : UInt64} {ecc : List Act} (data : Mem) :
      h.unEncryptedDataWordLength ≠ 0 → ¬ PlKept h inst.resetReason →
      getLoadAddress (h.effectiveCpu inst.processorID) (plLoadAddress h h.destinationLoadAddress)
        (copyLength h) = .ok loadAddress →
      (∀ a ∈ ecc, TcmInit a) →
      CopyActs n h inst (ecc ++ [.placed n loadAddress.toNat (copyLength h).toNat data])

/-- Handoff entry and measurement of the memory `m` at the end of the validation. -/
inductive MeasuredActs (hw : Hw) (n : Nat) (h : PartitionHeader) (w : World) (m : Mem)
    (loadAddress : UInt64) : List Act → Prop where
  | mk {entry idle : List Act} {input : List UInt8} {d : Digest} :
      entry = (if h.effectiveCpu w.inst.processorID ≠ xihPhAttrbDestCpuPmu then
        entryActs n h w.inst else []) →
      input = m.load loadAddress.toNat (h.unEncryptedDataWordLength <<< 2).toNat →
      IsDigest hw input d → (∀ a ∈ idle, Act.Idle a) →
      MeasuredActs hw n h w m loadAddress (entry ++
        (.hashed (.partition n) loadAddress.toNat input :: recordActs n w.partition d ++ idle))

/-- The acts of `XFsbl_PartitionValidation` in the state `w`. `loadAddress` is what
`XFsbl_GetLoadAddress` gives. -/
inductive ValidActs (hw : Hw) (n : Nat) (h : PartitionHeader) (w : World) (loadAddress : UInt64) :
    List Act → Prop where
  | signedPl : h.toPl = true → h.authenticated = true → ValidActs hw n h w loadAddress []
  | plainPl {input : List UInt8} {status : UInt32} {d : Digest} (t : Nat) :
      h.toPl = true → h.authenticated = false → h.encrypted = false →
      h.unEncryptedDataWordLength ≤ xcsudmaSizeMax → status = hw.call t .pcapWaitForDone →
      input = w.mem.load (plLoadAddress h loadAddress).toNat
        (h.unEncryptedDataWordLength.toNat * 4) →
      IsDigest hw input d →
      ValidActs hw n h w loadAddress
        (.hashed (.bitstream n) (plLoadAddress h loadAddress).toNat input ::
          bitstreamActs n status d)
  | encryptedPl (d : Digest) : h.toPl = true → h.authenticated = false → h.encrypted = true →
      ValidActs hw n h w loadAddress (bitstreamActs n xfsblSuccess d)
  | plain {as : List Act} : h.toPl = false → h.encrypted = false →
      MeasuredActs hw n h w w.mem loadAddress as → ValidActs hw n h w loadAddress as
  | decrypted {as : List Act} (data : Mem) : h.toPl = false → h.encrypted = true →
      MeasuredActs hw n h w
        (w.mem.fill loadAddress.toNat (h.unEncryptedDataWordLength * 4).toNat data) loadAddress as →
      ValidActs hw n h w loadAddress
        (.placed n loadAddress.toNat (h.unEncryptedDataWordLength * 4).toNat data :: as)

/-- A successful load of partition `n`, from `w` to `w'`. -/
inductive PartitionLoaded (hw : Hw) (n : Nat) (h : PartitionHeader) (w w' : World) : Prop where
  | skipped : NotOwned h w.inst.processorID w.inst.resetReason →
      Moves [.headerChecked n true] w w' → PartitionLoaded hw n h w w'
  | plKept {copy idle : List Act} :
      h.getPartitionOwner = xihPhAttrbPartOwnerFsbl →
      Accepted h w.inst.processorID w.inst.resetReason → PlKept h w.inst.resetReason →
      CopyActs n h w.inst copy → (∀ a ∈ idle, Act.Idle a) →
      Moves (.headerChecked n true :: copy ++ idle) w w' → PartitionLoaded hw n h w w'
  | loaded {copy valid idle : List Act} {v : World} {loadAddress : UInt64} :
      h.getPartitionOwner = xihPhAttrbPartOwnerFsbl →
      Accepted h w.inst.processorID w.inst.resetReason → ¬ PlKept h w.inst.resetReason →
      CopyActs n h w.inst copy → Moves (.headerChecked n true :: copy) w v →
      getLoadAddress (h.effectiveCpu v.inst.processorID) h.destinationLoadAddress
        (h.totalDataWordLength * 4) = .ok loadAddress →
      ValidActs hw n h v loadAddress valid → (∀ a ∈ idle, Act.Idle a) →
      Moves (valid ++ idle) v w' → PartitionLoaded hw n h w w'

section Success

variable {hw : Hw} {n : Nat} {w w' : World} {u : Unit}

/-! ## Header test -/

theorem partitionHeaderValidation_ok {owned : Bool}
    (h : partitionHeaderValidation hw n w = .ok owned w') :
    ∃ hn : n < 32,
      let ph := w.inst.imageHeader.partitionHeader[n]
      validateChecksum ph.words = xfsblSuccess ∧ Moves [.headerChecked n true] w w' ∧
        (if owned then ph.getPartitionOwner = xihPhAttrbPartOwnerFsbl ∧
            Accepted ph w.inst.processorID w.inst.resetReason
          else NotOwned ph w.inst.processorID w.inst.resetReason) := by
  obtain ⟨ph, t, h1, h⟩ := bind_ok.1 h
  obtain ⟨⟨hn, rfl⟩, rfl⟩ := header_ok.1 h1
  obtain ⟨_, t, h2, h⟩ := bind_ok.1 h
  obtain rfl := act_ok.1 h2
  obtain ⟨_, t, h3, h⟩ := bind_ok.1 h
  obtain ⟨hc, rfl⟩ := ensure_ok.1 h3
  have hc' : validateChecksum w.inst.imageHeader.partitionHeader[n].words = xfsblSuccess := by
    simpa using hc
  have hm : Moves [.headerChecked n true] w (w.apply (.headerChecked n true)) := .act w _
  simp only [hc', decide_true] at h
  refine ⟨hn, hc', ?_⟩
  split at h
  · rename_i howner
    obtain ⟨rfl, rfl⟩ := pure_ok.1 h
    exact ⟨hm, .inl howner⟩
  · rename_i howner
    obtain ⟨v, t, h4, h⟩ := bind_ok.1 h
    obtain ⟨rfl, rfl⟩ := get_ok.1 h4
    obtain ⟨e, t, h5, h⟩ := bind_ok.1 h
    have ht := hm.trans ((frame_readReg (R := Ticks) hw _).ok h5).moves
    split at h
    · rename_i hs
      obtain ⟨rfl, rfl⟩ := pure_ok.1 h
      exact ⟨ht, .inr (validatePartitionHeader_notOwner hs)⟩
    · obtain ⟨_, t', h6, h⟩ := bind_ok.1 h
      obtain ⟨hs, rfl⟩ := ensure_ok.1 h6
      obtain ⟨rfl, rfl⟩ := pure_ok.1 h
      exact ⟨ht, by simpa using howner, validatePartitionHeader_success hs⟩

/-! ## Copy -/

theorem updateHandoff_ok {h : PartitionHeader}
    (hu : updateHandoff n h (h.effectiveCpu w.inst.processorID) w = .ok u w') :
    Moves (entryActs n h w.inst) w w' := by
  obtain ⟨v, t, h1, hu⟩ := bind_ok.1 hu
  obtain ⟨rfl, rfl⟩ := get_ok.1 h1
  unfold entryActs
  dsimp only
  split at hu
  · rw [if_pos (by assumption)]
    split at hu
    · rw [← act_ok.1 hu]
      exact .act w _
    · simp at hu
  · rw [if_neg (by assumption)]
    obtain ⟨-, rfl⟩ := pure_ok.1 hu
    exact .refl w

theorem deviceLoad_ok {srcAddress : UInt32} {loadAddress length : Nat}
    (h : deviceLoad hw n srcAddress loadAddress length w = .ok u w') :
    ∃ data, Moves [.placed n loadAddress length data] w w' := by
  obtain ⟨r, t, h1, h⟩ := bind_ok.1 h
  have ht := ((frame_deviceOpsCopy (R := Ticks) hw _ _).ok h1).moves
  obtain ⟨_, t', h2, h⟩ := bind_ok.1 h
  obtain ⟨-, rfl⟩ := ensure_ok.1 h
  obtain rfl := act_ok.1 h2
  exact ⟨r.2, ht.trans (.act t _)⟩

theorem copyToMemory_ok {h : PartitionHeader} {inst : XFsblPs} {destinationCpu : UInt32}
    (hc : copyToMemory hw n h inst destinationCpu w = .ok u w') :
    ∃ (loadAddress : UInt64) (ecc : List Act) (data : Mem),
      getLoadAddress destinationCpu (plLoadAddress h h.destinationLoadAddress) (copyLength h) =
          .ok loadAddress ∧
        (∀ a ∈ ecc, TcmInit a) ∧
        Moves (ecc ++ [.placed n loadAddress.toNat (copyLength h).toNat data]) w w' := by
  obtain ⟨_, t, h1, hc⟩ := bind_ok.1 hc
  have ht := ((frame_when fun _ => frame_bind (frame_deviceRead (R := Ticks) hw _ _)
    fun _ => frame_pure ()).ok h1).moves
  obtain ⟨loadAddress, _, h2, hc⟩ := bind_ok.1 hc
  obtain ⟨hl, rfl⟩ := ofExcept_ok.1 h2
  obtain ⟨_, v, h3, hc⟩ := bind_ok.1 hc
  obtain ⟨ecc, hecc, hv⟩ := (frame_configureMemory hw _ _ _).ok h3
  obtain ⟨_, v', h4, hc⟩ := bind_ok.1 hc
  have hv' := ((frame_when fun _ => frame_wait (R := Ticks) hw _).ok h4).moves
  obtain ⟨data, hd⟩ := deviceLoad_ok hc
  refine ⟨loadAddress, ecc, data, hl, hecc, ?_⟩
  have := ((ht.trans hv).trans hv').trans hd
  simpa using this

theorem partitionCopy_ok (hn : n < 32) (h : partitionCopy hw n w = .ok u w') :
    ∃ as, CopyActs n w.inst.imageHeader.partitionHeader[n] w.inst as ∧ Moves as w w' := by
  obtain ⟨ph, t, h1, h⟩ := bind_ok.1 h
  obtain ⟨⟨_, rfl⟩, rfl⟩ := header_ok.1 h1
  obtain ⟨v, t, h2, h⟩ := bind_ok.1 h
  obtain ⟨rfl, rfl⟩ := get_ok.1 h2
  split at h
  · exact ⟨_, .xip (by assumption), updateHandoff_ok h⟩
  split at h
  · obtain ⟨-, rfl⟩ := pure_ok.1 h
    exact ⟨_, .plKept (by assumption) (by assumption), .refl w⟩
  · obtain ⟨loadAddress, ecc, data, hl, hecc, hm⟩ := copyToMemory_ok h
    exact ⟨_, .copied data (by assumption) (by assumption) hl hecc, hm⟩

/-! ## Validation -/

theorem decryptPartition_ok {h : PartitionHeader} {loadAddress : UInt64} (hpl : h.toPl = false)
    (hd : decryptPartition hw n h loadAddress w = .ok u w') :
    if h.encrypted then
      ∃ data, Moves [.placed n loadAddress.toNat (h.unEncryptedDataWordLength * 4).toNat data] w w'
    else Moves [] w w' := by
  rcases when_ok.1 hd with ⟨he, hd⟩ | ⟨he, rfl⟩
  · rw [if_pos (by simpa [hpl] using he)]
    obtain ⟨r, t, h1, hd⟩ := bind_ok.1 hd
    have ht := ((frame_ask (R := Ticks) _).ok h1).moves
    obtain ⟨_, t', h2, hd⟩ := bind_ok.1 hd
    obtain ⟨-, rfl⟩ := ensure_ok.1 hd
    obtain rfl := act_ok.1 h2
    exact ⟨r.2, ht.trans (.act t _)⟩
  · rw [if_neg (by simpa [hpl] using he)]
    exact .refl w

/-- The acts of a measurement depend on the state only through what the acts before it left. -/
theorem MeasuredActs.of_moves {h : PartitionHeader} {m m' : Mem} {loadAddress : UInt64}
    {as pre : List Act} (hma : MeasuredActs hw n h w' m loadAddress as) (hm : Moves pre w w')
    (hmem : m = m') (hp : w'.partition = w.partition)
    (hv : w'.inst.handoffValues = w.inst.handoffValues) :
    MeasuredActs hw n h w m' loadAddress as := by
  obtain ⟨he, hin, hd, hi⟩ := hma
  subst hmem
  rw [hp]
  refine .mk ?_ hin hd hi
  rw [he]
  simp only [entryActs, hm.processorID, hv]

theorem ValidActs.of_ticks {h : PartitionHeader} {loadAddress : UInt64} {as : List Act}
    (hva : ValidActs hw n h w' loadAddress as) (ht : Ticks w w') :
    ValidActs hw n h w loadAddress as := by
  have hm := ht.moves
  obtain ⟨t, rfl⟩ := ht
  cases hva with
  | signedPl hpl ha => exact .signedPl hpl ha
  | plainPl k hpl ha he hz hs hin hd => exact .plainPl k hpl ha he hz hs hin hd
  | encryptedPl d hpl ha he => exact .encryptedPl d hpl ha he
  | plain hpl he hma => exact .plain hpl he (hma.of_moves hm rfl rfl rfl)
  | decrypted data hpl he hma => exact .decrypted data hpl he (hma.of_moves hm rfl rfl rfl)

theorem CopyActs.of_moves {h : PartitionHeader} {as : List Act} {b : Bool}
    (hc : CopyActs n h w'.inst as) (hm : Moves [.headerChecked n b] w w') :
    CopyActs n h w.inst as := by
  have hv : w'.inst.handoffValues = w.inst.handoffValues := hm.handoffValues
  cases hc with
  | xip h0 =>
    have he : entryActs n h w'.inst = entryActs n h w.inst := by
      simp only [entryActs, hm.processorID, hv]
    exact he ▸ .xip h0
  | plKept h0 hk => exact .plKept h0 (hm.resetReason ▸ hk)
  | copied data h0 hk hl hecc =>
    exact .copied data h0 (hm.resetReason ▸ hk) (hm.processorID ▸ hl) hecc

theorem entryActs_view (n : Nat) (h : PartitionHeader) (inst : XFsblPs) (w : World) :
    (w.replay (entryActs n h inst)).mem = w.mem ∧
      (w.replay (entryActs n h inst)).partition = w.partition := by
  unfold entryActs
  dsimp only
  split <;> exact ⟨rfl, rfl⟩

/-- The measurement of a partition that is not for the PL, with its handoff entry. -/
theorem finishPartition_ok {h : PartitionHeader} (hn : n < 32) {loadAddress : UInt64}
    (hh : w.inst.imageHeader.partitionHeader[n] = h) (hpl : h.toPl = false)
    (hf : finishPartition hw n h (h.effectiveCpu w.inst.processorID) loadAddress w = .ok u w') :
    ∃ as, MeasuredActs hw n h w w.mem loadAddress as ∧ Moves as w w' := by
  obtain ⟨-, hf⟩ : _ ∧ _ := (when_ok.1 hf).resolve_right fun hne => hne.1 hpl
  obtain ⟨_, v, h1, hf⟩ := bind_ok.1 hf
  have hv : Moves (if h.effectiveCpu w.inst.processorID ≠ xihPhAttrbDestCpuPmu then
      entryActs n h w.inst else []) w v := by
    rcases when_ok.1 h1 with ⟨hp, h1⟩ | ⟨hp, rfl⟩
    · rw [if_pos hp]
      exact updateHandoff_ok h1
    · rw [if_neg hp]
      exact .refl w
  have hmem : v.mem = w.mem ∧ v.partition = w.partition := by
    rw [hv.mem, hv.partition]
    split
    · exact entryActs_view n h w.inst w
    · exact ⟨rfl, rfl⟩
  obtain ⟨_, d, idle, hd, hi, hm⟩ := tpmMeasurePartition_ok hf
  simp only [hv.imageHeader, hh, hmem.1, hmem.2] at hd hm
  exact ⟨_, .mk rfl rfl hd hi, hv.trans hm⟩

/-- The download of an unsigned bitstream. -/
theorem downloadBitstream_ok {h : PartitionHeader} (hn : n < 32) {loadAddress : UInt64}
    (hh : w.inst.imageHeader.partitionHeader[n] = h) (hpl : h.toPl = true)
    (hd : downloadBitstream hw n h (plLoadAddress h loadAddress) w = .ok u w') :
    ∃ as, ValidActs hw n h w loadAddress as ∧ Moves as w w' := by
  rcases when_ok.1 hd with ⟨ha, hd⟩ | ⟨ha, rfl⟩
  · have ha : h.authenticated = false := by simpa [hpl] using ha
    obtain ⟨status, t, h1, hd⟩ := bind_ok.1 hd
    obtain ⟨hs, rfl⟩ := ensure_ok.1 hd
    cases he : h.encrypted with
    | false =>
      obtain ⟨d, hsize, ⟨k, hk⟩, hdig, hm⟩ := tpmMeasurePl_plain hn (by rw [hh, he]) h1
      rw [hh] at hsize hdig hm
      exact ⟨_, .plainPl k hpl ha he hsize hk rfl hdig, hm⟩
    | true =>
      obtain ⟨d, hm⟩ := tpmMeasurePl_encrypted hn (by rw [hh, he]) h1
      rw [he] at hs
      obtain rfl := hs.resolve_left (by simp)
      exact ⟨_, .encryptedPl d hpl ha he, hm⟩
  · have ha : h.authenticated = true := by simpa [hpl] using ha
    exact ⟨_, .signedPl hpl ha, .refl w⟩

theorem validatePlaced_ok {h : PartitionHeader} (hn : n < 32)
    (hh : w.inst.imageHeader.partitionHeader[n] = h)
    (hv : validatePlaced hw n h w.inst (h.effectiveCpu w.inst.processorID) w = .ok u w') :
    ∃ loadAddress as,
      getLoadAddress (h.effectiveCpu w.inst.processorID) h.destinationLoadAddress
        (h.totalDataWordLength * 4) = .ok loadAddress ∧
      ValidActs hw n h w loadAddress as ∧ Moves as w w' := by
  obtain ⟨loadAddress, _, h1, hv₁⟩ := bind_ok.1 hv
  obtain ⟨hl, rfl⟩ := ofExcept_ok.1 h1
  refine ⟨loadAddress, ?_⟩
  simp only [hl, true_and]
  obtain ⟨_, v, h2, hv₂⟩ := bind_ok.1 hv₁
  obtain ⟨t, rfl⟩ := (frame_checkPartition (R := Ticks) hw n h w.inst _).ok h2
  have ht : Moves [] w { w with tick := t } := Ticks.moves ⟨t, rfl⟩
  obtain ⟨_, v₁, h3, hv₃⟩ := bind_ok.1 hv₂
  obtain ⟨_, v₂, h4, hv₄⟩ := bind_ok.1 hv₃
  obtain ⟨_, v₃, h5, h6⟩ := bind_ok.1 hv₄
  cases hpl : h.toPl with
  | true =>
    have hd := ((when_ok.1 h3).resolve_left (by simp [hpl])).2
    have hf := ((when_ok.1 h6).resolve_left (by simp [hpl])).2
    have ha := ((frame_afterBitstream (R := Ticks) hw h).ok h5).moves
    rw [← hd] at h4
    rw [hf] at ha
    obtain ⟨as, hva, hm⟩ := downloadBitstream_ok (w := { w with tick := t }) hn hh hpl h4
    have hall := (ht.trans hm).trans ha
    exact ⟨as, hva.of_ticks ⟨t, rfl⟩, by simpa using hall⟩
  | false =>
    have hla : plLoadAddress h loadAddress = loadAddress := by simp [plLoadAddress, hpl]
    rw [hla] at h3 h6
    have hd := ((when_ok.1 h4).resolve_left (by simp [hpl])).2
    have ha := ((when_ok.1 h5).resolve_left (by simp [hpl])).2
    rw [← ha, ← hd] at h6
    have h3 := decryptPartition_ok hpl h3
    cases he : h.encrypted with
    | false =>
      rw [he, if_neg (by simp)] at h3
      have hm₁ := ht.trans h3
      rw [← hm₁.processorID] at h6
      obtain ⟨as, hma, hm₂⟩ := finishPartition_ok hn (by rw [hm₁.imageHeader, hh]) hpl h6
      have hall := hm₁.trans hm₂
      refine ⟨as, .plain hpl he ?_, by simpa using hall⟩
      exact hma.of_moves hm₁ hm₁.mem hm₁.partition hm₁.handoffValues
    | true =>
      rw [he, if_pos rfl] at h3
      obtain ⟨data, h3⟩ := h3
      have hm₁ := ht.trans h3
      rw [← hm₁.processorID] at h6
      obtain ⟨as, hma, hm₂⟩ := finishPartition_ok hn (by rw [hm₁.imageHeader, hh]) hpl h6
      have hall := hm₁.trans hm₂
      refine ⟨_, .decrypted data hpl he ?_, by simpa using hall⟩
      exact hma.of_moves hm₁ hm₁.mem hm₁.partition hm₁.handoffValues

theorem partitionValidation_ok (hn : n < 32) (h : partitionValidation hw n w = .ok u w') :
    let ph := w.inst.imageHeader.partitionHeader[n]
    PlKept ph w.inst.resetReason ∧ Moves [] w w' ∨
      ¬ PlKept ph w.inst.resetReason ∧ ∃ loadAddress as,
        getLoadAddress (ph.effectiveCpu w.inst.processorID) ph.destinationLoadAddress
          (ph.totalDataWordLength * 4) = .ok loadAddress ∧
        ValidActs hw n ph w loadAddress as ∧ Moves as w w' := by
  obtain ⟨ph, t, h1, h⟩ := bind_ok.1 h
  obtain ⟨⟨_, rfl⟩, rfl⟩ := header_ok.1 h1
  obtain ⟨v, t, h2, h⟩ := bind_ok.1 h
  obtain ⟨rfl, rfl⟩ := get_ok.1 h2
  split at h
  · obtain ⟨-, rfl⟩ := pure_ok.1 h
    exact .inl ⟨by assumption, .refl w⟩
  · exact .inr ⟨by assumption, validatePlaced_ok hn rfl h⟩

/-! ## The whole load -/

theorem checkPmuFw_ok (h : checkPmuFw hw n w = .ok u w') :
    ∃ idle, (∀ a ∈ idle, Act.Idle a) ∧ Moves idle w w' := by
  obtain ⟨done, t, h1, h⟩ := bind_ok.1 h
  have ht := ((frame_pmuFwLoadDone (R := Ticks) n).ok h1).moves
  rcases when_ok.1 h with ⟨-, h⟩ | ⟨-, rfl⟩
  · obtain ⟨_, v, h2, h⟩ := bind_ok.1 h
    have hv := ((frame_wait (R := Ticks) hw _).ok h).moves
    rw [← act_ok.1 h2] at hv
    refine ⟨[.pmuWoken], by simp [Act.Idle], ?_⟩
    exact (ht.trans (.act t _)).trans hv
  · exact ⟨[], by simp, ht⟩

/-- **What a successful load did.** -/
theorem partitionLoad_ok (h : partitionLoad hw n w = .ok u w') :
    ∃ hn : n < 32, validateChecksum w.inst.imageHeader.partitionHeader[n].words = xfsblSuccess ∧
      PartitionLoaded hw n w.inst.imageHeader.partitionHeader[n] w w' := by
  obtain ⟨owned, v, h1, h⟩ := bind_ok.1 h
  obtain ⟨hn, hc, hm, howned⟩ := partitionHeaderValidation_ok h1
  refine ⟨hn, hc, ?_⟩
  rcases when_ok.1 h with ⟨rfl, h⟩ | ⟨ho, rfl⟩
  · rw [if_pos rfl] at howned
    obtain ⟨_, v₁, h2, h⟩ := bind_ok.1 h
    obtain ⟨copy, hcopy, hm₁⟩ := partitionCopy_ok hn h2
    obtain ⟨_, v₂, h3, h⟩ := bind_ok.1 h
    obtain ⟨idle, hi, hm₃⟩ := checkPmuFw_ok h
    have hv₁ := hm.trans hm₁
    rw [hm.imageHeader] at hcopy
    have hcopy := hcopy.of_moves hm
    rcases partitionValidation_ok hn h3 with ⟨hk, hm₂⟩ | ⟨hk, loadAddress, valid, hl, hva, hm₂⟩
    · rw [hv₁.imageHeader, hv₁.resetReason] at hk
      have hall := (hv₁.trans hm₂).trans hm₃
      exact .plKept howned.1 howned.2 hk hcopy hi (by simpa using hall)
    · rw [hv₁.imageHeader] at hk hl hva
      rw [hv₁.resetReason] at hk
      exact .loaded howned.1 howned.2 hk hcopy hv₁ hl hva hi (hm₂.trans hm₃)
  · rw [if_neg ho] at howned
    exact .skipped howned hm

end Success

end MeasuredBoot
