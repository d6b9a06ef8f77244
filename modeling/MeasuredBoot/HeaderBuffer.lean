import MeasuredBoot.Boards

/-!
# The image header in `ImageHdr`

On the authenticated path `XFsbl_ValidateHeader` copies the image header to `ImageHdr`, as long as the
AC offset of the flash says, and `XFsbl_ReadImageHeader` reads the partition headers there, each
at an offset the one before names. No step compares these words with the buffer or the copy.
`headerBound_iff`: the accesses are in bounds exactly for the images whose words are.
-/

namespace MeasuredBoot

open Prog

/-! ## The authenticated path -/

section Path

variable (hw : Hw)

/-- The authenticated path up to the copy: the AC offset, of an authentic boot header. -/
def authenticateBootHeader (imageOffsetAddress imageHeaderTableAddressOffset efuseCtrl : UInt32) :
    Fsbl UInt32 := do
  let field ← deviceRead hw (imageOffsetAddress + imageHeaderTableAddressOffset + xihIhtAcOffset) 4
  let acOffset := word32 field 0
  ensure (acOffset ≠ 0) xfsblErrorImageHeaderAcoffset
  let _ ← deviceRead hw (imageOffsetAddress + acOffset * xihPartitionWordLength)
    xfsblAuthCertMinSize.toNat
  checked hw (.bhAuthentication (efuseCtrl &&& efuseSecCtrlRsaEnMask ≠ 0))
  pure acOffset

/-- The size of the copy, as the code computes it. -/
def headerSize (acOffset imageHeaderTableAddressOffset : UInt32) : UInt32 :=
  acOffset * xihPartitionWordLength - imageHeaderTableAddressOffset

/-- The copy, and its authentication. -/
def copyImageHeader (imageOffsetAddress imageHeaderTableAddressOffset acOffset : UInt32) :
    Fsbl Unit := do
  readToBuffer hw (imageOffsetAddress + imageHeaderTableAddressOffset)
    (headerSize acOffset imageHeaderTableAddressOffset).toNat
  checked hw (.authentication 0)
  let w ← get
  ensure (acOffset = word32 w.readBuffer 4) xfsblErrorImageHeaderAcoffset

theorem authenticateHeaders_eq (imageOffsetAddress imageHeaderTableAddressOffset efuseCtrl : UInt32) :
    authenticateHeaders hw imageOffsetAddress imageHeaderTableAddressOffset efuseCtrl = (do
      let acOffset ← authenticateBootHeader hw imageOffsetAddress imageHeaderTableAddressOffset
        efuseCtrl
      copyImageHeader hw imageOffsetAddress imageHeaderTableAddressOffset acOffset) := by
  simp only [authenticateHeaders, authenticateBootHeader, copyImageHeader, headerSize, bind_assoc,
    pure_bind]

/-- The offset of the image header table, from the boot header. -/
def World.tableOffset (w : World) : UInt32 := word32 w.readBuffer 38

/-- eFUSE or boot header, but not both, ask for authentication. -/
def AuthPath (w : World) : Prop :=
  let efuseRsa := hw.in32 w.tick .efuseSecCtrl &&& efuseSecCtrlRsaEnMask ≠ 0
  let bhRsa := word32 w.readBuffer 17 &&& xihBhImageAttrbRsaMask = xihBhImageAttrbRsaMask
  ¬ (efuseRsa ∧ bhRsa) ∧ (efuseRsa ∨ bhRsa)

/-- The state on the authenticated path. -/
def World.onAuthPath (w : World) : World :=
  { w with
    tick := w.tick + 1
    inst := { w.inst with bootHdrAttributes := word32 w.readBuffer 17, authEnabled := true } }

variable {hw}

theorem readHeaders_auth {imageOffsetAddress : UInt32} {w : World} (h : AuthPath hw w) :
    readHeaders hw imageOffsetAddress w = (do
      let acOffset ← authenticateBootHeader hw imageOffsetAddress w.tableOffset
        (hw.in32 w.tick .efuseSecCtrl)
      copyImageHeader hw imageOffsetAddress w.tableOffset acOffset
      readImageHeader hw true 0 w.inst.processorID w.tableOffset) w.onAuthPath := by
  have hassoc : (do
      let acOffset ← authenticateBootHeader hw imageOffsetAddress w.tableOffset
        (hw.in32 w.tick .efuseSecCtrl)
      copyImageHeader hw imageOffsetAddress w.tableOffset acOffset
      readImageHeader hw true 0 w.inst.processorID w.tableOffset) = (do
        authenticateHeaders hw imageOffsetAddress w.tableOffset (hw.in32 w.tick .efuseSecCtrl)
        readImageHeader hw true 0 w.inst.processorID w.tableOffset) := by
    rw [authenticateHeaders_eq, bind_assoc]
  rw [hassoc]
  show (ensure _ _ >>= _) _ = _
  rw [ensure, if_pos h.1]
  show (if _ then _ else _ : Fsbl Unit) _ = _
  rw [if_pos h.2]
  rfl

end Path

/-! ## The chain of headers -/

/-- Offsets in the buffer and headers there, `remaining` of them, the first at `address`. -/
def headerChain (b : Mem) (imageHeaderTableAddressOffset : UInt32) :
    Nat → UInt32 → List (UInt32 × PartitionHeader)
  | 0, _ => []
  | remaining + 1, address =>
    let offset := address - imageHeaderTableAddressOffset
    let h := PartitionHeader.ofBytes fun i => b (offset.toNat + i)
    (offset, h) :: headerChain b imageHeaderTableAddressOffset remaining
      (h.nextPartitionOffset * xihPartitionWordLength)

section Chain

variable {b : Mem} {off address : UInt32} {remaining j : Nat}

@[simp] theorem length_headerChain : (headerChain b off remaining address).length = remaining := by
  induction remaining generalizing address with
  | zero => rfl
  | succ remaining ih => simp [headerChain, ih]

/-- Each header names the offset of the next. -/
theorem headerChain_next {p q : UInt32 × PartitionHeader}
    (hp : (headerChain b off remaining address)[j]? = some p)
    (hq : (headerChain b off remaining address)[j + 1]? = some q) :
    q.1 = p.2.nextPartitionOffset * xihPartitionWordLength - off := by
  induction remaining generalizing address j with
  | zero => simp [headerChain] at hp
  | succ remaining ih =>
    cases j with
    | succ j => exact ih hp hq
    | zero =>
      cases remaining with
      | zero => simp [headerChain] at hq
      | succ remaining =>
        simp only [headerChain, List.getElem?_cons_zero, List.getElem?_cons_succ,
          Option.some.injEq] at hp hq
        rw [← hp, ← hq]

end Chain

/-! ## What the loop reads -/

section Loop

variable {hw : Hw} {cpu off address : UInt32} {remaining index entryCount k : Nat} {w : World}
  {h : PartitionHeader}

theorem ImageHeader.header_setIfInBounds {i : ImageHeader} (hi : index < 32) :
    ImageHeader.header { i with partitionHeader := i.partitionHeader.setIfInBounds index h } k =
      if k = index then h else i.header k := by
  unfold ImageHeader.header
  by_cases hk : k < 32
  · rw [dif_pos hk, dif_pos hk, Vector.getElem_setIfInBounds]
    by_cases hki : k = index
    · rw [if_pos hki.symm, if_pos hki]
    · rw [if_neg (Ne.symm hki), if_neg hki]
  · rw [dif_neg hk, dif_neg hk, if_neg (by omega)]

/-- The state behind the read of one header. -/
def World.withHeader (w : World) (index : Nat) (h : PartitionHeader) : World :=
  World.apply { w with
    inst := { w.inst with
      imageHeader := { w.inst.imageHeader with
        partitionHeader := w.inst.imageHeader.partitionHeader.setIfInBounds index h } } }
    (.headerRead index)

theorem setHeader_eq (hi : index < 32) : setHeader index h w = .ok () (w.withHeader index h) := by
  have hmax : ¬ ¬ index < xihMaxPartitions := not_not.2 hi
  unfold setHeader
  rw [when, if_neg hmax]
  rfl

/-- The state behind a pass of the loop. -/
def World.withEntry (w : World) (index : Nat) (h : PartitionHeader) (cpu : UInt32)
    (entryCount : Nat) : World :=
  { w.withHeader index h with
    atfHandoffParams :=
      if isAtfEntry h cpu index entryCount then
        setATFHandoffParameters w.atfHandoffParams h entryCount
      else w.atfHandoffParams }

/-- One pass of the loop, from where its header is read. -/
theorem readPartitionHeaders_read {fromImageHdr : Bool} {flashImageOffsetAddress : UInt32}
    {bytes : Mem} {v : World} (hi : index < 32)
    (hb : readHeaderBytes hw fromImageHdr flashImageOffsetAddress
      (if fromImageHdr then address - off else address) w = .ok bytes v)
    (hh : h = PartitionHeader.ofBytes bytes) :
    readPartitionHeaders hw fromImageHdr flashImageOffsetAddress cpu off (remaining + 1) index
        address entryCount w =
      readPartitionHeaders hw fromImageHdr flashImageOffsetAddress cpu off remaining (index + 1)
        (h.nextPartitionOffset * xihPartitionWordLength)
        (if isAtfEntry h cpu index entryCount then entryCount + 1 else entryCount)
        (v.withEntry index h cpu entryCount) := by
  have hentry : (when (isAtfEntry h cpu index entryCount) (modify fun v : World =>
      { v with atfHandoffParams := setATFHandoffParameters v.atfHandoffParams h entryCount }) :
        Fsbl Unit) (v.withHeader index h) = .ok () (v.withEntry index h cpu entryCount) := by
    unfold when World.withEntry
    by_cases he : isAtfEntry h cpu index entryCount = true
    · rw [if_pos he, if_pos he]
      rfl
    · rw [if_neg he, if_neg he]
      rfl
  have hstep : readPartitionHeaders hw fromImageHdr flashImageOffsetAddress cpu off (remaining + 1)
      index address entryCount w =
      (do
        setHeader index h
        when (isAtfEntry h cpu index entryCount) do
          modify fun v : World =>
            { v with atfHandoffParams := setATFHandoffParameters v.atfHandoffParams h entryCount }
        readPartitionHeaders hw fromImageHdr flashImageOffsetAddress cpu off remaining (index + 1)
          (h.nextPartitionOffset * xihPartitionWordLength)
          (if isAtfEntry h cpu index entryCount then entryCount + 1 else entryCount)) v := by
    subst hh
    show (readHeaderBytes hw fromImageHdr flashImageOffsetAddress _ >>= _) w = _
    rw [bind_apply, hb]
  rw [hstep, bind_apply, setHeader_eq hi]
  show (when _ _ >>= _) (v.withHeader index h) = _
  rw [bind_apply, hentry]

theorem readPartitionHeaders_step (hi : index < 32)
    (hh : h = PartitionHeader.ofBytes fun i => w.readBuffer ((address - off).toNat + i)) :
    readPartitionHeaders hw true 0 cpu off (remaining + 1) index address entryCount w =
      readPartitionHeaders hw true 0 cpu off remaining (index + 1)
        (h.nextPartitionOffset * xihPartitionWordLength)
        (if isAtfEntry h cpu index entryCount then entryCount + 1 else entryCount)
        (w.withEntry index h cpu entryCount) :=
  readPartitionHeaders_read hi rfl hh

/-- The loop stores the headers of the chain in the buffer. -/
theorem readPartitionHeaders_chain (hr : index + remaining ≤ 32) :
    ∃ w', readPartitionHeaders hw true 0 cpu off remaining index address entryCount w = .ok () w' ∧
      (∀ j p, (headerChain w.readBuffer off remaining address)[j]? = some p →
        w'.inst.imageHeader.header (index + j) = p.2) ∧
      ∀ k < index, w'.inst.imageHeader.header k = w.inst.imageHeader.header k := by
  induction remaining generalizing index address entryCount w with
  | zero => exact ⟨w, rfl, by simp [headerChain], fun _ _ => rfl⟩
  | succ remaining ih =>
    have hi : index < 32 := by omega
    generalize hh : PartitionHeader.ofBytes (fun i => w.readBuffer ((address - off).toNat + i)) = h
    obtain ⟨w', hrun, hchain, hkept⟩ := @ih (h.nextPartitionOffset * xihPartitionWordLength) (index + 1)
      (if isAtfEntry h cpu index entryCount then entryCount + 1 else entryCount)
      (w.withEntry index h cpu entryCount) (by omega)
    have hheader (k : Nat) : (w.withEntry index h cpu entryCount).inst.imageHeader.header k =
        if k = index then h else w.inst.imageHeader.header k := ImageHeader.header_setIfInBounds hi
    refine ⟨w', (readPartitionHeaders_step hi hh.symm).trans hrun, fun j p hp => ?_, fun k hk => ?_⟩
    · cases j with
      | zero =>
        simp only [headerChain, hh, List.getElem?_cons_zero, Option.some.injEq] at hp
        rw [Nat.add_zero, hkept index (Nat.lt_succ_self index), hheader, if_pos rfl, ← hp]
      | succ j =>
        simp only [headerChain, hh, List.getElem?_cons_succ] at hp
        have hnext := hchain j p hp
        rwa [show index + 1 + j = index + (j + 1) by omega] at hnext
    · rw [hkept k (by omega), hheader, if_neg (by omega)]

end Loop

/-! ## Accesses in bounds -/

/-- The offset in the buffer partition header `k` was read from, by the words that were read. -/
def headerOffset (i : ImageHeader) (imageHeaderTableAddressOffset : UInt32) : Nat → UInt32
  | 0 =>
    i.imageHeaderTable.partitionHeaderAddress * xihPartitionWordLength - imageHeaderTableAddressOffset
  | k + 1 => (i.header k).nextPartitionOffset * xihPartitionWordLength - imageHeaderTableAddressOffset

/-- Table and headers that the steps from `w` to `w'` read are among the first `size` bytes. -/
def ReadsWithin (size : Nat) (imageHeaderTableAddressOffset : UInt32) (w w' : World) : Prop :=
  ∀ as, w'.trace = w.trace ++ as →
    (∀ t, .tableRead t ∈ as → xihIhtLen ≤ size) ∧
      ∀ k, .headerRead k ∈ as →
        (headerOffset w'.inst.imageHeader imageHeaderTableAddressOffset k).toNat + xihPhLen ≤ size

/-- The size of the copy is the distance from the image header to its certificate. -/
def NoWrap (acOffset imageHeaderTableAddressOffset : UInt32) : Prop :=
  (headerSize acOffset imageHeaderTableAddressOffset).toNat + imageHeaderTableAddressOffset.toNat =
    acOffset.toNat * 4

instance (acOffset imageHeaderTableAddressOffset : UInt32) :
    Decidable (NoWrap acOffset imageHeaderTableAddressOffset) := inferInstanceAs (Decidable (_ = _))

/-- On the authenticated path the size does not wrap, the copy fits `ImageHdr`, and all that is read
there is of the copy. -/
def HeaderBound (hw : Hw) (imageOffsetAddress : UInt32) (w : World) : Prop :=
  AuthPath hw w → ∀ acOffset v,
    authenticateBootHeader hw imageOffsetAddress w.tableOffset (hw.in32 w.tick .efuseSecCtrl)
      w.onAuthPath = .ok acOffset v →
    NoWrap acOffset w.tableOffset ∧
      (headerSize acOffset w.tableOffset).toNat ≤ readBufferSize ∧
      ReadsWithin (headerSize acOffset w.tableOffset).toNat w.tableOffset w
        (final (readHeaders hw imageOffsetAddress w))

/-- A block of `size` bytes with its table, and the headers the table counts. -/
def BlockFits (b : Mem) (size : Nat) (imageHeaderTableAddressOffset : UInt32) : Prop :=
  let t := ImageHeaderTable.ofBytes b
  xihIhtLen ≤ size ∧ (validateImageHeaderTable t = xfsblSuccess →
    ∀ p ∈ headerChain b imageHeaderTableAddressOffset t.noOfPartitions.toNat
      (t.partitionHeaderAddress * xihPartitionWordLength), p.1.toNat + xihPhLen ≤ size)

/-- The words of an image for the authenticated path: the AC offset is behind the image header, at
most as far as the buffer is long, and the block before it, where it is authentic, fits. -/
def HeaderFits (hw : Hw) (imageOffsetAddress : UInt32) (w : World) : Prop :=
  AuthPath hw w → ∀ acOffset v,
    authenticateBootHeader hw imageOffsetAddress w.tableOffset (hw.in32 w.tick .efuseSecCtrl)
      w.onAuthPath = .ok acOffset v →
    NoWrap acOffset w.tableOffset ∧
      (headerSize acOffset w.tableOffset).toNat ≤ readBufferSize ∧
      ∀ v', copyImageHeader hw imageOffsetAddress w.tableOffset acOffset v = .ok () v' →
        BlockFits v'.readBuffer (headerSize acOffset w.tableOffset).toNat w.tableOffset

section Bounds

variable {hw : Hw} {cpu off imageOffsetAddress acOffset efuseCtrl : UInt32} {size : Nat}
  {w v v' : World}

/-- The state behind the read of the table. -/
def World.withTable (w : World) (t : ImageHeaderTable) : World :=
  World.apply { w with
    inst := { w.inst with imageHeader := { w.inst.imageHeader with imageHeaderTable := t } } }
    (.tableRead t)

/-- `XFsbl_ReadImageHeader` behind the read of the table. -/
theorem readImageHeader_read {fromImageHdr : Bool} {flashImageOffsetAddress : UInt32} {bytes : Mem}
    {t : ImageHeaderTable}
    (hb : readHeaderBytes hw fromImageHdr flashImageOffsetAddress
      (if fromImageHdr then 0 else off) w = .ok bytes v)
    (htab : ImageHeaderTable.ofBytes bytes = t) :
    readImageHeader hw fromImageHdr flashImageOffsetAddress cpu off w =
      (if validateImageHeaderTable t = xfsblStatusSecondaryBootMode then pure ()
      else do
        ensure (validateImageHeaderTable t = xfsblSuccess) (validateImageHeaderTable t)
        readPartitionHeaders hw fromImageHdr flashImageOffsetAddress cpu off t.noOfPartitions.toNat 0
          (t.partitionHeaderAddress * xihPartitionWordLength) 0 : Fsbl Unit) (v.withTable t) := by
  have hset : setTable t v = .ok () (v.withTable t) := rfl
  show (readHeaderBytes hw fromImageHdr flashImageOffsetAddress _ >>= _) w = _
  rw [bind_apply, hb]
  show (setTable (ImageHeaderTable.ofBytes bytes) >>= _) v = _
  rw [htab, bind_apply, hset]

theorem readHeaderBytes_start {flashImageOffsetAddress : UInt32} :
    readHeaderBytes hw true flashImageOffsetAddress 0 v = .ok v.readBuffer v := by
  have hbytes : (fun i => v.readBuffer ((0 : UInt32).toNat + i)) = v.readBuffer :=
    funext fun i => congrArg v.readBuffer (Nat.zero_add i)
  show EStateM.Result.ok (fun i => v.readBuffer ((0 : UInt32).toNat + i)) v = _
  rw [hbytes]

theorem readImageHeader_eq {t : ImageHeaderTable} (htab : ImageHeaderTable.ofBytes v.readBuffer = t) :
    readImageHeader hw true 0 cpu off v =
      (if validateImageHeaderTable t = xfsblStatusSecondaryBootMode then pure ()
      else do
        ensure (validateImageHeaderTable t = xfsblSuccess) (validateImageHeaderTable t)
        readPartitionHeaders hw true 0 cpu off t.noOfPartitions.toNat 0
          (t.partitionHeaderAddress * xihPartitionWordLength) 0 : Fsbl Unit) (v.withTable t) :=
  readImageHeader_read readHeaderBytes_start htab

theorem readsWithin_iff {as : List Act} (ht : v'.trace = w.trace ++ as) :
    ReadsWithin size off w v' ↔ (∀ t, .tableRead t ∈ as → xihIhtLen ≤ size) ∧
      ∀ k, .headerRead k ∈ as →
        (headerOffset v'.inst.imageHeader off k).toNat + xihPhLen ≤ size := by
  refine ⟨fun h => h as ht, fun h bs hb => ?_⟩
  rw [ht] at hb
  rwa [← List.append_cancel_left hb]

/-- The offsets of the headers read are those of the chain. -/
theorem headerOffset_chain {b : Mem} {i : ImageHeader} {remaining k : Nat} {p : UInt32 × PartitionHeader}
    (hi : ∀ j q, (headerChain b off remaining
      (i.imageHeaderTable.partitionHeaderAddress * xihPartitionWordLength))[j]? = some q →
      i.header j = q.2)
    (hp : (headerChain b off remaining
      (i.imageHeaderTable.partitionHeaderAddress * xihPartitionWordLength))[k]? = some p) :
    headerOffset i off k = p.1 := by
  cases k with
  | zero =>
    cases remaining with
    | zero => simp [headerChain] at hp
    | succ remaining =>
      simp only [headerChain, List.getElem?_cons_zero, Option.some.injEq] at hp
      rw [← hp]
      rfl
  | succ k =>
    obtain ⟨q, hq⟩ : ∃ q, (headerChain b off remaining
        (i.imageHeaderTable.partitionHeaderAddress * xihPartitionWordLength))[k]? = some q := by
      obtain ⟨hk, -⟩ := List.getElem?_eq_some_iff.1 hp
      exact ⟨_, List.getElem?_eq_getElem (by omega)⟩
    rw [headerChain_next hq hp]
    show (i.header k).nextPartitionOffset * xihPartitionWordLength - off = _
    rw [hi k q hq]

/-- What is read of a copied block is in it exactly where the block fits. -/
theorem readsWithin_readImageHeader (ht : v.trace = w.trace) :
    ReadsWithin size off w (final (readImageHeader hw true 0 cpu off v)) ↔
      BlockFits v.readBuffer size off := by
  unfold BlockFits
  dsimp only
  generalize htab : ImageHeaderTable.ofBytes v.readBuffer = t
  rw [readImageHeader_eq htab]
  have htrace : (v.withTable t).trace = w.trace ++ [.tableRead t] := by
    rw [← ht]
    rfl
  have hone : ReadsWithin size off w (v.withTable t) ↔ xihIhtLen ≤ size := by
    rw [readsWithin_iff htrace]
    simp
  by_cases hsec : validateImageHeaderTable t = xfsblStatusSecondaryBootMode
  · have hne : validateImageHeaderTable t ≠ xfsblSuccess := by
      rw [hsec]
      decide
    rw [if_pos hsec]
    show ReadsWithin size off w (v.withTable t) ↔ _
    rw [hone]
    exact ⟨fun h => ⟨h, fun hs => absurd hs hne⟩, fun h => h.1⟩
  rw [if_neg hsec]
  by_cases hval : validateImageHeaderTable t = xfsblSuccess
  · obtain ⟨-, -, hcount⟩ := validateImageHeaderTable_success hval
    rw [ensure, if_pos hval]
    show ReadsWithin size off w (final (readPartitionHeaders hw true 0 cpu off t.noOfPartitions.toNat 0
      (t.partitionHeaderAddress * xihPartitionWordLength) 0 (v.withTable t))) ↔ _
    obtain ⟨v', hrun, hchain, -⟩ := @readPartitionHeaders_chain hw cpu off
      (t.partitionHeaderAddress * xihPartitionWordLength) t.noOfPartitions.toNat 0 0 (v.withTable t)
      (by omega)
    obtain ⟨hd, htable⟩ := readPartitionHeaders_ok hrun
    have htable : v'.inst.imageHeader.imageHeaderTable = t := htable
    have htrace' : v'.trace = w.trace ++ (.tableRead t ::
        (List.range' 0 t.noOfPartitions.toNat).map .headerRead) := by
      rw [hd.trace, htrace]
      simp
    rw [hrun, final_ok, readsWithin_iff htrace']
    have hoffset (k : Nat) (p : UInt32 × PartitionHeader)
        (hp : (headerChain v.readBuffer off t.noOfPartitions.toNat
          (t.partitionHeaderAddress * xihPartitionWordLength))[k]? = some p) :
        headerOffset v'.inst.imageHeader off k = p.1 := by
      rw [← htable] at hp
      refine headerOffset_chain (fun j q hq => ?_) hp
      rw [htable] at hq
      have hj := hchain j q hq
      rwa [Nat.zero_add] at hj
    constructor
    · rintro ⟨htab', hheaders⟩
      refine ⟨htab' t List.mem_cons_self, fun _ p hp => ?_⟩
      obtain ⟨k, hk⟩ := List.mem_iff_getElem?.1 hp
      obtain ⟨hlt, -⟩ := List.getElem?_eq_some_iff.1 hk
      rw [length_headerChain] at hlt
      rw [← hoffset k p hk]
      exact hheaders k (List.mem_cons_of_mem _ (List.mem_map.2 ⟨k, by simpa using hlt, rfl⟩))
    · rintro ⟨hsize, hchain'⟩
      refine ⟨fun _ _ => hsize, fun k hk => ?_⟩
      have hlt : k < t.noOfPartitions.toNat := by simpa using hk
      have hk' := List.getElem?_eq_getElem (l := headerChain v.readBuffer off t.noOfPartitions.toNat
        (t.partitionHeaderAddress * xihPartitionWordLength)) (by rwa [length_headerChain])
      rw [hoffset k _ hk']
      exact hchain' hval _ (List.mem_of_getElem? hk')
  · rw [ensure, if_neg hval]
    show ReadsWithin size off w (v.withTable t) ↔ _
    rw [hone]
    exact ⟨fun h => ⟨h, fun hs => absurd hs hval⟩, fun h => h.1⟩

theorem frame_authenticateBootHeader {R : World → World → Prop} [Silent R] :
    Frame R (authenticateBootHeader hw imageOffsetAddress off efuseCtrl) := by
  refine frame_bind (frame_deviceRead hw _ _) fun field => ?_
  refine frame_bind (frame_ensure _ _) fun _ => ?_
  refine frame_bind (frame_deviceRead hw _ _) fun _ => ?_
  exact frame_bind (frame_checked hw _) fun _ => frame_pure _

theorem frame_copyImageHeader {β : Type} {f : XFsblPs → β} {A : Act → Prop} :
    Frame (Keeps f A) (copyImageHeader hw imageOffsetAddress off acOffset) := by
  refine frame_bind (frame_readToBuffer hw _ _) fun _ => frame_bind (frame_checked hw _) fun _ => ?_
  exact frame_bind frame_get fun w => frame_ensure _ _

end Bounds

/-- A boot header that asks for authentication, and an AC offset of 80 KiB. -/
def farCertificateBoard : Board where
  bootMode := xfsblQspi24BootMode
  flash _ := [(17, [0xC000]), (38, [0x8C0]), (0x234, [0x5000])]
  data _ := 0

/-- The state of the call, with the boot header in `ReadBuffer`. -/
def farCertificateWorld : World :=
  { (farCertificateBoard.after 1).world with
    inst := { (farCertificateBoard.after 1).world.inst with deviceOps := some .qspi24 }
    readBuffer := fun i => (farCertificateBoard.flash .qspi24).byte i }

end MeasuredBoot
