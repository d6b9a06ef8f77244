import MeasuredBoot.HeaderReads
import MeasuredBoot.SdCopy

/-!
# Headers from a boot file that may end early

`hw.checked file` is the hardware whose card reports an error for a copy past the end of the boot
file. Where the boot header, the table, the headers it counts and, with authentication, the
certificate lie in the file (`HeadersInFile`), stage 2 does the same with either card
(`bootDeviceInitAndValidate_checked`), and the headers it stores are the file's.
-/

namespace MeasuredBoot

open Prog Sd

/-! ## The card -/

/-- `DeviceCopy` from the card is `XFsbl_SdCopy` from this file. -/
def OnSd (hw : Hw) (file : List UInt8) : Prop :=
  ∀ t srcAddress (length : UInt32), ∃ card fil m destAddress, fil.obj = file ∧
    hw.deviceCopy t .sd srcAddress length.toNat =
      let r := xfsblSdCopy card fil m srcAddress destAddress length
      (r.1, fun i => r.2.2 (destAddress + i))

/-- The same hardware, but a copy past the end of the file fails. -/
def Hw.checked (hw : Hw) (file : List UInt8) : Hw :=
  { hw with
    deviceCopy := fun t device srcAddress length =>
      if device = .sd ∧ ¬ InFile file srcAddress length then
        (xfsblErrorSdFRead, (hw.deviceCopy t device srcAddress length).2)
      else hw.deviceCopy t device srcAddress length
    copyStatus := by
      intro t device srcAddress length
      split
      · show xfsblErrorSdFRead ≠ xfsblStatusJtag
        decide
      · exact hw.copyStatus t device srcAddress length }

/-- Every copy that the card reports as done has read the file. -/
def Exact (hw : Hw) (file : List UInt8) : Prop :=
  ∀ t srcAddress (length : UInt32),
    (hw.deviceCopy t .sd srcAddress length.toNat).1 = xfsblSuccess →
      HasBytes file srcAddress length.toNat (hw.deviceCopy t .sd srcAddress length.toNat).2

/-- The file as memory; zeros behind its end. -/
def fileMem (file : List UInt8) : Mem := fun i => file.getD i 0

theorem Sd.HasBytes.mem {file : List UInt8} {srcAddress : UInt32} {length i : Nat} {data : Mem}
    (h : HasBytes file srcAddress length data) (hi : i < length) :
    data i = fileMem file (srcAddress.toNat + i) := by
  unfold fileMem
  rw [List.getD_eq_getElem?_getD, h i hi]
  rfl

section Card

variable {hw : Hw} {file : List UInt8} {t : Nat} {device : Device} {srcAddress length : UInt32}
  {w w' : World}

/-- A copy within the file reads the file. -/
theorem OnSd.reads (hf : OnSd hw file)
    (hok : (hw.deviceCopy t .sd srcAddress length.toNat).1 = xfsblSuccess)
    (hin : InFile file srcAddress length.toNat) :
    HasBytes file srcAddress length.toNat (hw.deviceCopy t .sd srcAddress length.toNat).2 := by
  obtain ⟨card, fil, m, destAddress, rfl, he⟩ := hf t srcAddress length
  rw [he] at hok ⊢
  obtain ⟨hs, hr⟩ := xfsblSdCopy_success_iff.1 hok
  exact fun i hi => xfsblSdCopy_in hs hr hin hi

theorem exact_checked (hf : OnSd hw file) : Exact (hw.checked file) file := by
  intro t srcAddress length hok
  unfold Hw.checked at hok ⊢
  by_cases hin : InFile file srcAddress length.toNat
  · have hok : (hw.deviceCopy t .sd srcAddress length.toNat).1 = xfsblSuccess := by
      simpa [hin] using hok
    simpa [hin] using hf.reads hok hin
  · simp [hin, xfsblErrorSdFRead, xfsblSuccess] at hok

theorem deviceCopy_checked {length : Nat} (hin : device = .sd → InFile file srcAddress length) :
    (hw.checked file).deviceCopy t device srcAddress length =
      hw.deviceCopy t device srcAddress length :=
  if_neg fun h => h.2 (hin h.1)

/-! ## One copy -/

theorem deviceOpsCopy_checked {length : Nat}
    (hin : w.inst.deviceOps = some .sd → InFile file srcAddress length) :
    deviceOpsCopy (hw.checked file) srcAddress length w = deviceOpsCopy hw srcAddress length w := by
  refine bind_congr_run rfl fun v v' hv => ?_
  obtain ⟨rfl, rfl⟩ := get_ok.1 hv
  cases hd : w.inst.deviceOps with
  | none => rfl
  | some device =>
    have hc := @deviceCopy_checked hw file w.tick device srcAddress length fun he =>
      hin (by rw [hd, he])
    show EStateM.Result.ok ((hw.checked file).deviceCopy w.tick device srcAddress length) _ = _
    rw [hc]
    rfl

theorem deviceRead_checked {length : Nat}
    (hin : w.inst.deviceOps = some .sd → InFile file srcAddress length) :
    deviceRead (hw.checked file) srcAddress length w = deviceRead hw srcAddress length w :=
  bind_congr_run (deviceOpsCopy_checked hin) fun _ _ _ => rfl

theorem deviceOpsCopy_apply {length : Nat} (hd : w.inst.deviceOps = some device) :
    deviceOpsCopy hw srcAddress length w =
      .ok (hw.deviceCopy w.tick device srcAddress length) { w with tick := w.tick + 1 } := by
  rw [deviceOpsCopy, bind_apply, show (get : Fsbl World) w = .ok w w from rfl]
  simp only [hd]
  rfl

/-- A copy to a C object read the file. -/
theorem deviceRead_hasBytes {data : Mem} (length : UInt32) (he : Exact hw file) (hd : w.inst.deviceOps = some .sd)
    (h : deviceRead hw srcAddress length.toNat w = .ok data w') :
    HasBytes file srcAddress length.toNat data := by
  obtain ⟨r, v, h1, h⟩ := bind_ok.1 h
  rw [deviceOpsCopy_apply hd] at h1
  obtain ⟨rfl, rfl⟩ : hw.deviceCopy w.tick .sd srcAddress length.toNat = r ∧ _ = v := by
    simpa using h1
  obtain ⟨_, v', h2, h⟩ := bind_ok.1 h
  obtain ⟨hok, rfl⟩ := ensure_ok.1 h2
  obtain ⟨rfl, -⟩ := pure_ok.1 h
  exact he _ _ _ hok

end Card

/-! ## Where the headers lie -/

/-- The image header table at `T` of the image at `F`. -/
def fileTable (file : List UInt8) (F T : UInt32) : ImageHeaderTable :=
  .ofBytes fun i => fileMem file ((F + T).toNat + i)

/-- The headers that table counts, and where each lies. -/
def fileChain (file : List UInt8) (F T : UInt32) : List (UInt32 × PartitionHeader) :=
  let t := fileTable file F T
  flashHeaders (fileMem file) F t.noOfPartitions.toNat
    (t.partitionHeaderAddress * xihPartitionWordLength)

/-- Table and headers lie in the file. -/
def ImageInFile (file : List UInt8) (F T : UInt32) : Prop :=
  InFile file (F + T) xihPhLen ∧ (validateImageHeaderTable (fileTable file F T) = xfsblSuccess →
    ∀ p ∈ fileChain file F T, InFile file p.1 xihPhLen)

/-- The certificate offset, the certificate and the range that is copied to `ImageHdr` lie in the
file. -/
def SignedInFile (file : List UInt8) (F T : UInt32) : Prop :=
  let acOffset := word32 (fun i => fileMem file ((F + T + xihIhtAcOffset).toNat + i)) 0
  InFile file (F + T + xihIhtAcOffset) 4 ∧ (acOffset ≠ 0 →
    InFile file (F + acOffset * xihPartitionWordLength) xfsblAuthCertMinSize.toNat ∧
      InFile file (F + T) (acOffset * xihPartitionWordLength - T).toNat)

/-- The boot header asks for authentication, or the eFUSEs do at question `t`. -/
def Authenticates (hw : Hw) (file : List UInt8) (t : Nat) : Prop :=
  hw.in32 t .efuseSecCtrl &&& efuseSecCtrlRsaEnMask ≠ 0 ∨
    word32 (fileMem file) 17 &&& xihBhImageAttrbRsaMask = xihBhImageAttrbRsaMask

/-- All that stage 2 reads lies in the file. -/
structure HeadersInFile (hw : Hw) (file : List UInt8) : Prop where
  bootHeader : InFile file 0 xihBhMaxSize
  plain : ∀ t, ¬ Authenticates hw file t → ImageInFile file 0 (word32 (fileMem file) 38)
  signed : ∀ t, Authenticates hw file t → SignedInFile file 0 (word32 (fileMem file) 38)

/-! ## The image header -/

section Headers

variable {hw : Hw} {file : List UInt8} {F T cpu address : UInt32} {fromImageHdr : Bool}
  {remaining index entryCount : Nat} {bytes : Mem} {w w' : World} {u : Unit}

theorem readHeaderBytes_checked
    (hin : fromImageHdr = false → w.inst.deviceOps = some .sd → InFile file (F + address) xihPhLen) :
    readHeaderBytes (hw.checked file) fromImageHdr F address w =
      readHeaderBytes hw fromImageHdr F address w := by
  cases fromImageHdr with
  | true => rfl
  | false => exact deviceRead_checked (hin rfl)

/-- A header that was read is the file's. -/
theorem readHeaderBytes_file (he : Exact hw file) (hd : w.inst.deviceOps = some .sd)
    (h : readHeaderBytes hw false F address w = .ok bytes w') :
    HasBytes file (F + address) xihPhLen bytes ∧ w'.inst.deviceOps = some .sd := by
  refine ⟨deviceRead_hasBytes 64 he hd h, ?_⟩
  have ht := (frame_readHeaderBytes (R := Ticks) hw _ _ _).ok h
  rw [ht.inst, hd]

/-- A header of the file. -/
theorem ofBytes_file (hb : HasBytes file (F + address) xihPhLen bytes) :
    PartitionHeader.ofBytes bytes =
      .ofBytes fun i => fileMem file ((F + address).toNat + i) :=
  PartitionHeader.ofBytes_congr fun _ hi => hb.mem hi

theorem table_ofBytes_file (hb : HasBytes file (F + T) xihPhLen bytes) :
    ImageHeaderTable.ofBytes bytes = fileTable file F T :=
  ImageHeaderTable.ofBytes_congr fun _ hi => hb.mem hi

/-- The loop reads with either card the same, where its headers lie in the file. -/
theorem readPartitionHeaders_checked (hf : OnSd hw file) (hi : index + remaining ≤ 32)
    (hin : fromImageHdr = false → w.inst.deviceOps = some .sd →
      ∀ p ∈ flashHeaders (fileMem file) F remaining address, InFile file p.1 xihPhLen) :
    readPartitionHeaders (hw.checked file) fromImageHdr F cpu T remaining index address entryCount w =
      readPartitionHeaders hw fromImageHdr F cpu T remaining index address entryCount w := by
  induction remaining generalizing index address entryCount w with
  | zero => rfl
  | succ remaining ih =>
    simp only [flashHeaders, List.forall_mem_cons] at hin
    have hfirst : readHeaderBytes (hw.checked file) fromImageHdr F
        (if fromImageHdr then address - T else address) w =
          readHeaderBytes hw fromImageHdr F (if fromImageHdr then address - T else address) w := by
      refine readHeaderBytes_checked fun hb hd => ?_
      rw [if_neg (by simp [hb])]
      exact (hin hb hd).1
    cases hread : readHeaderBytes hw fromImageHdr F (if fromImageHdr then address - T else address) w with
    | ok bytes v =>
      rw [readPartitionHeaders_read (by omega) (hfirst.trans hread) rfl,
        readPartitionHeaders_read (by omega) hread rfl]
      refine ih (by omega) fun hb hdv => ?_
      have ht := (frame_readHeaderBytes (R := Ticks) hw _ _ _).ok hread
      have hd : w.inst.deviceOps = some .sd := by
        rw [← ht.inst]
        exact hdv
      subst hb
      have hbytes := (readHeaderBytes_file (exact_checked hf) hd (hfirst.trans hread)).1
      rw [ofBytes_file hbytes]
      exact (hin rfl hd).2
    | error e v =>
      show (readHeaderBytes (hw.checked file) fromImageHdr F _ >>= _) w =
        (readHeaderBytes hw fromImageHdr F _ >>= _) w
      rw [bind_apply, bind_apply, hfirst, hread]

/-- What the loop stored are the headers of the chain. -/
theorem readPartitionHeaders_file (he : Exact hw file) (hd : w.inst.deviceOps = some .sd)
    (hi : index + remaining ≤ 32)
    (h : readPartitionHeaders hw false F cpu T remaining index address entryCount w = .ok u w') :
    (∀ j p, (flashHeaders (fileMem file) F remaining address)[j]? = some p →
        InFile file p.1 xihPhLen ∧ w'.inst.imageHeader.header (index + j) = p.2) ∧
      ∀ k < index, w'.inst.imageHeader.header k = w.inst.imageHeader.header k := by
  induction remaining generalizing index address entryCount w with
  | zero =>
    obtain ⟨-, rfl⟩ := pure_ok.1 h
    exact ⟨by simp [flashHeaders], fun _ _ => rfl⟩
  | succ remaining ih =>
    simp only [flashHeaders]
    obtain ⟨bytes, v, hread, -⟩ := bind_ok.1 h
    obtain ⟨hbytes, hdv⟩ : HasBytes file (F + address) xihPhLen bytes ∧ v.inst.deviceOps = some .sd :=
      readHeaderBytes_file he hd hread
    rw [readPartitionHeaders_read (by omega) hread rfl, ofBytes_file hbytes] at h
    generalize hh : PartitionHeader.ofBytes
      (fun i => fileMem file ((F + address).toNat + i)) = ph at h ⊢
    have hi' : index + 1 + remaining ≤ 32 := by omega
    obtain ⟨hchain, hkept⟩ := ih (w := v.withEntry index ph cpu entryCount) hdv hi' h
    have hheader (k : Nat) : (v.withEntry index ph cpu entryCount).inst.imageHeader.header k =
        if k = index then ph else v.inst.imageHeader.header k :=
      ImageHeader.header_setIfInBounds (by omega)
    have ht := (frame_readHeaderBytes (R := Ticks) hw _ _ _).ok hread
    refine ⟨fun j p hp => ?_, fun k hk => ?_⟩
    · cases j with
      | zero =>
        simp only [List.getElem?_cons_zero, Option.some.injEq] at hp
        subst hp
        refine ⟨hbytes.inFile, ?_⟩
        rw [Nat.add_zero, hkept index (Nat.lt_succ_self index), hheader, if_pos rfl]
      | succ j =>
        simp only [List.getElem?_cons_succ] at hp
        have hnext := hchain j p hp
        rwa [show index + 1 + j = index + (j + 1) by omega] at hnext
    · rw [hkept k (by omega), hheader, if_neg (by omega), ht.inst]

/-- The table and the headers of the instance are the file's. -/
structure HeadersFrom (file : List UInt8) (F T : UInt32) (i : ImageHeader) : Prop where
  table : i.imageHeaderTable = fileTable file F T
  inFile : InFile file (F + T) xihPhLen
  headers : i.imageHeaderTable.Same →
    ∀ j p, (fileChain file F T)[j]? = some p → InFile file p.1 xihPhLen ∧ i.header j = p.2

theorem readImageHeader_checked (hf : OnSd hw file)
    (hin : fromImageHdr = false → w.inst.deviceOps = some .sd → ImageInFile file F T) :
    readImageHeader (hw.checked file) fromImageHdr F cpu T w =
      readImageHeader hw fromImageHdr F cpu T w := by
  have hfirst : readHeaderBytes (hw.checked file) fromImageHdr F (if fromImageHdr then 0 else T) w =
      readHeaderBytes hw fromImageHdr F (if fromImageHdr then 0 else T) w := by
    refine readHeaderBytes_checked fun hb hd => ?_
    rw [if_neg (by simp [hb])]
    exact (hin hb hd).1
  cases hread : readHeaderBytes hw fromImageHdr F (if fromImageHdr then 0 else T) w with
  | error e v =>
    show (readHeaderBytes (hw.checked file) fromImageHdr F _ >>= _) w =
      (readHeaderBytes hw fromImageHdr F _ >>= _) w
    rw [bind_apply, bind_apply, hfirst, hread]
  | ok bytes v =>
    rw [readImageHeader_read (hfirst.trans hread) rfl, readImageHeader_read hread rfl]
    generalize htab : ImageHeaderTable.ofBytes bytes = t
    split
    · rfl
    refine bind_congr_run rfl fun _ v' hens => ?_
    obtain ⟨hval, rfl⟩ := ensure_ok.1 hens
    obtain ⟨-, -, h32⟩ := validateImageHeaderTable_success hval
    refine readPartitionHeaders_checked hf (by omega) fun hb hdv => ?_
    have ht := (frame_readHeaderBytes (R := Ticks) hw _ _ _).ok hread
    have hd : w.inst.deviceOps = some .sd := by
      rw [← ht.inst]
      exact hdv
    subst hb
    obtain ⟨-, hheaders⟩ := hin rfl hd
    have hbytes := (readHeaderBytes_file (exact_checked hf) hd (hfirst.trans hread)).1
    have hfile : fileTable file F T = t := (table_ofBytes_file hbytes).symm.trans htab
    have hchain := hheaders (by rw [hfile]; exact hval)
    unfold fileChain at hchain
    rwa [hfile] at hchain

/-- The table and the headers of a successful read. -/
theorem readImageHeader_file (he : Exact hw file) (hd : w.inst.deviceOps = some .sd)
    (h : readImageHeader hw false F cpu T w = .ok u w') :
    HeadersFrom file F T w'.inst.imageHeader := by
  obtain ⟨bytes, v, hread, -⟩ := bind_ok.1 h
  obtain ⟨hbytes, hdv⟩ := readHeaderBytes_file he hd hread
  have htable : ImageHeaderTable.ofBytes bytes = fileTable file F T := table_ofBytes_file hbytes
  have hin : InFile file (F + T) xihPhLen := hbytes.inFile
  rw [readImageHeader_read hread htable] at h
  generalize htab : fileTable file F T = t at h
  by_cases hsecond : validateImageHeaderTable t = xfsblStatusSecondaryBootMode
  · rw [if_pos hsecond] at h
    obtain ⟨-, rfl⟩ := pure_ok.1 h
    exact ⟨htab.symm, hin, fun hs => absurd hs (validateImageHeaderTable_secondary hsecond)⟩
  · rw [if_neg hsecond] at h
    obtain ⟨_, v', hens, h⟩ := bind_ok.1 h
    obtain ⟨hval, rfl⟩ := ensure_ok.1 hens
    obtain ⟨-, -, h32⟩ := validateImageHeaderTable_success hval
    obtain ⟨-, hkept⟩ := readPartitionHeaders_ok h
    obtain ⟨hchain, -⟩ := readPartitionHeaders_file (w := v.withTable t) he hdv (by omega) h
    refine ⟨hkept.trans htab.symm, hin, fun _ j p hp => ?_⟩
    unfold fileChain at hp
    rw [htab] at hp
    have hj := hchain j p hp
    rwa [Nat.zero_add] at hj

/-! ## Authentication -/

theorem readToBuffer_checked {srcAddress : UInt32} {length : Nat}
    (hin : w.inst.deviceOps = some .sd → InFile file srcAddress length) :
    readToBuffer (hw.checked file) srcAddress length w = readToBuffer hw srcAddress length w := by
  refine bind_congr_run rfl fun _ v hv => ?_
  rcases when_ok.1 hv with ⟨-, hv⟩ | ⟨-, rfl⟩
  · simp at hv
  · exact bind_congr_run (deviceRead_checked hin) fun _ _ _ => rfl

theorem authenticateHeaders_checked {efuseCtrl : UInt32} (hf : OnSd hw file)
    (hin : w.inst.deviceOps = some .sd → SignedInFile file F T) :
    authenticateHeaders (hw.checked file) F T efuseCtrl w = authenticateHeaders hw F T efuseCtrl w := by
  refine bind_congr_run (deviceRead_checked fun hd => (hin hd).1) fun field v hfield => ?_
  have hv := (frame_deviceRead (R := Ticks) hw _ _).ok hfield
  refine bind_congr_run rfl fun _ v' hens => ?_
  obtain ⟨hne, rfl⟩ := ensure_ok.1 hens
  -- the certificate offset is the file's
  have hrest (hd : w.inst.deviceOps = some .sd) :
      InFile file (F + word32 field 0 * xihPartitionWordLength) xfsblAuthCertMinSize.toNat ∧
        InFile file (F + T) (word32 field 0 * xihPartitionWordLength - T).toNat := by
    have hread : deviceRead (hw.checked file) (F + T + xihIhtAcOffset) 4 w = .ok field v :=
      (deviceRead_checked fun hd => (hin hd).1).trans hfield
    have hb := deviceRead_hasBytes 4 (exact_checked hf) hd hread
    have hword : word32 field 0 =
        word32 (fun i => fileMem file ((F + T + xihIhtAcOffset).toNat + i)) 0 :=
      word32_congr 4 (fun i hi => hb.mem hi) (by decide)
    rw [hword] at hne ⊢
    exact (hin hd).2 hne
  have hdev {x : World} (hx : Ticks w x) (hd : x.inst.deviceOps = some .sd) :
      w.inst.deviceOps = some .sd := by rwa [← hx.inst]
  refine bind_congr_run (deviceRead_checked fun hd => (hrest (hdev hv hd)).1) fun _ x hx => ?_
  have hx := trans_of Ticks hv ((frame_deviceRead (R := Ticks) hw _ _).ok hx)
  refine bind_congr_run rfl fun _ y hy => ?_
  have hy := trans_of Ticks hx ((frame_checked (R := Ticks) hw _).ok hy)
  exact bind_congr_run (readToBuffer_checked fun hd => (hrest (hdev hy hd)).2) fun _ _ _ => rfl

/-! ## Stage 2 -/

/-- `ReadBuffer` has the words of the boot header that stage 2 looks at. -/
structure BootHeaderFrom (file : List UInt8) (w : World) : Prop where
  attributes : word32 w.readBuffer 17 = word32 (fileMem file) 17
  table : word32 w.readBuffer 38 = word32 (fileMem file) 38

/-- The words of the boot header, which was read to `ReadBuffer`. -/
theorem readToBuffer_file (he : Exact hw file) (h : readToBuffer hw 0 xihBhMaxSize w = .ok u w')
    (hd : w.inst.deviceOps = some .sd) : BootHeaderFrom file w' := by
  obtain ⟨_, v, h1, h⟩ := bind_ok.1 h
  rcases when_ok.1 h1 with ⟨-, h1⟩ | ⟨-, rfl⟩
  · simp at h1
  obtain ⟨bytes, v, hread, h⟩ := bind_ok.1 h
  obtain rfl := modify_ok.1 h
  have hb := deviceRead_hasBytes 0xEC0 he hd hread
  have hbuf : ∀ i < 0xEC0, v.readBuffer.fill 0 xihBhMaxSize bytes i = fileMem file i := by
    intro i hi
    rw [Mem.fill_apply, if_pos ⟨Nat.zero_le i, by simpa [xihBhMaxSize] using hi⟩, Nat.sub_zero, hb.mem hi]
    exact congrArg (fileMem file) (Nat.zero_add i)
  exact ⟨word32_congr 0xEC0 hbuf (by decide), word32_congr 0xEC0 hbuf (by decide)⟩

theorem readReg_ok {r : Reg} {v : UInt32} :
    readReg hw r w = .ok v w' ↔ hw.in32 w.tick r = v ∧ { w with tick := w.tick + 1 } = w' := by
  show EStateM.Result.ok (hw.in32 w.tick r) { w with tick := w.tick + 1 } = .ok v w' ↔ _
  simp

theorem readHeaders_checked (hf : OnSd hw file)
    (hin : w.inst.deviceOps = some .sd → F = 0 ∧ HeadersInFile hw file ∧ BootHeaderFrom file w) :
    readHeaders (hw.checked file) F w = readHeaders hw F w := by
  refine bind_congr_run rfl fun _ _ hv => ?_
  obtain ⟨rfl, rfl⟩ := get_ok.1 hv
  refine bind_congr_run rfl fun _ v hv => ?_
  obtain rfl := modifyInst_ok.1 hv
  refine bind_congr_run rfl fun efuseCtrl v hv => ?_
  obtain ⟨rfl, rfl⟩ := readReg_ok.1 hv
  refine bind_congr_run rfl fun _ v hv => ?_
  obtain ⟨-, rfl⟩ := ensure_ok.1 hv
  by_cases hauth : hw.in32 w.tick .efuseSecCtrl &&& efuseSecCtrlRsaEnMask ≠ 0 ∨
      word32 w.readBuffer 17 &&& xihBhImageAttrbRsaMask = xihBhImageAttrbRsaMask
  · rw [if_pos hauth, if_pos hauth]
    refine bind_congr_run rfl fun _ v hv => ?_
    obtain rfl := modifyInst_ok.1 hv
    refine bind_congr_run (authenticateHeaders_checked hf fun hd => ?_) fun _ x _ =>
      readImageHeader_checked hf nofun
    obtain ⟨rfl, hh, hb⟩ := hin hd
    rw [hb.attributes] at hauth
    rw [hb.table]
    exact hh.signed _ hauth
  · rw [if_neg hauth, if_neg hauth]
    refine readImageHeader_checked hf fun _ hd => ?_
    obtain ⟨rfl, hh, hb⟩ := hin hd
    rw [hb.attributes] at hauth
    rw [hb.table]
    exact hh.plain _ hauth

/-- The headers of a boot without authentication. -/
theorem readHeaders_file (he : Exact hw file) (hd : w.inst.deviceOps = some .sd)
    (hb : BootHeaderFrom file w) (hplain : ∀ t, ¬ Authenticates hw file t) (h : readHeaders hw 0 w = .ok u w') :
    HeadersFrom file 0 (word32 (fileMem file) 38) w'.inst.imageHeader := by
  obtain ⟨_, _, hv, h⟩ := bind_ok.1 h
  obtain ⟨rfl, rfl⟩ := get_ok.1 hv
  obtain ⟨_, v, hv, h⟩ := bind_ok.1 h
  obtain rfl := modifyInst_ok.1 hv
  obtain ⟨_, v, hv, h⟩ := bind_ok.1 h
  obtain ⟨rfl, rfl⟩ := readReg_ok.1 hv
  obtain ⟨_, v, hv, h⟩ := bind_ok.1 h
  obtain ⟨-, rfl⟩ := ensure_ok.1 hv
  have hno : ¬ (hw.in32 w.tick .efuseSecCtrl &&& efuseSecCtrlRsaEnMask ≠ 0 ∨
      word32 (fileMem file) 17 &&& xihBhImageAttrbRsaMask = xihBhImageAttrbRsaMask) := hplain w.tick
  rw [hb.attributes, hb.table, if_neg hno] at h
  refine readImageHeader_file he ?_ h
  exact hd

/-- A file boot mode has its image at the start of the file. -/
theorem imageOffset_file {inst : XFsblPs} (multiBootOffset : UInt32)
    (h : inst.secondaryBootDevice ≠ 0 ∨ isFileBootMode inst.primaryBootDevice = true) :
    imageOffset inst multiBootOffset = 0 := by
  refine if_neg fun ⟨h0, hfile⟩ => ?_
  rcases h with h | h
  · exact h h0
  · rw [hfile] at h
    cases h

/-- `XFsbl_ValidateHeader` from where the offset of the image is known. -/
theorem validateHeader_apply : validateHeader hw w =
    (do
      readToBuffer hw (imageOffset w.inst (hw.in32 w.tick .multiBoot)) xihBhMaxSize
      readHeaders hw (imageOffset w.inst (hw.in32 w.tick .multiBoot))
      tpmMeasureFsbl hw : Fsbl Unit)
      { w with
        tick := w.tick + 1
        inst := { w.inst with imageOffsetAddress := imageOffset w.inst (hw.in32 w.tick .multiBoot) } } :=
  rfl

theorem validateHeader_checked (hf : OnSd hw file)
    (hin : w.inst.deviceOps = some .sd → HeadersInFile hw file ∧
      (w.inst.secondaryBootDevice ≠ 0 ∨ isFileBootMode w.inst.primaryBootDevice = true)) :
    validateHeader (hw.checked file) w = validateHeader hw w := by
  have hzero (hd : w.inst.deviceOps = some .sd) :
      imageOffset w.inst (hw.in32 w.tick .multiBoot) = 0 := imageOffset_file _ (hin hd).2
  rw [validateHeader_apply, validateHeader_apply,
    show (hw.checked file).in32 w.tick .multiBoot = hw.in32 w.tick .multiBoot from rfl]
  generalize imageOffset w.inst (hw.in32 w.tick .multiBoot) = F at hzero ⊢
  refine bind_congr_run (readToBuffer_checked fun hd => ?_) fun _ v hbuf => ?_
  · rw [hzero hd]
    exact (hin hd).1.bootHeader
  refine bind_congr_run (readHeaders_checked hf fun hdv => ?_) fun _ _ _ => rfl
  have hd : w.inst.deviceOps = some .sd := by
    rw [← hdv]
    exact ((frame_readToBuffer (f := XFsblPs.deviceOps) (A := fun _ => True) hw _ _).ok hbuf).2.symm
  obtain rfl := hzero hd
  have hread : readToBuffer (hw.checked file) 0 xihBhMaxSize _ = .ok _ v :=
    (readToBuffer_checked fun _ => (hin hd).1.bootHeader).trans hbuf
  exact ⟨rfl, (hin hd).1, readToBuffer_file (exact_checked hf) hread hd⟩

theorem validateHeader_file (he : Exact hw file) (hd : w.inst.deviceOps = some .sd)
    (hplain : ∀ t, ¬ Authenticates hw file t)
    (hmode : w.inst.secondaryBootDevice ≠ 0 ∨ isFileBootMode w.inst.primaryBootDevice = true)
    (h : validateHeader hw w = .ok u w') :
    HeadersFrom file 0 (word32 (fileMem file) 38) w'.inst.imageHeader := by
  rw [validateHeader_apply, imageOffset_file _ hmode] at h
  obtain ⟨_, v, hbuf, h⟩ := bind_ok.1 h
  have hdv : v.inst.deviceOps = some .sd :=
    ((frame_readToBuffer (f := XFsblPs.deviceOps) (A := fun _ => True) hw _ _).ok hbuf).2.trans hd
  have hb := readToBuffer_file he hbuf hd
  obtain ⟨_, v', hread, h⟩ := bind_ok.1 h
  rw [(tpmMeasureFsbl_ok h).1]
  exact readHeaders_file he hdv hb hplain hread

theorem isFileBootMode_of_sd {bootMode : UInt32} {c : Controller}
    (h : bootModeDevice bootMode = some (c, .sd)) : isFileBootMode bootMode = true := by
  unfold bootModeDevice at h
  unfold isFileBootMode
  split at h
  · simp at h
  split at h
  · simp at h
  split at h
  · simp at h
  split at h
  · rename_i hmode
    rcases hmode with rfl | rfl <;> rfl
  split at h
  · rename_i hmode
    rcases hmode with rfl | rfl <;> rfl
  · simp at h

theorem secBootMode_ne_zero {device : UInt32} {c : Controller} {d : Device} {bootMode : UInt32}
    (h : secBootMode device = some (c, d, bootMode)) : bootMode ≠ 0 := by
  unfold secBootMode at h
  split_ifs at h <;> cases h <;> decide

/-- The card is the boot device of a file boot mode. -/
theorem primaryBootDeviceInit_sd (h : primaryBootDeviceInit hw w = .ok u w')
    (hd : w'.inst.deviceOps = some .sd) : isFileBootMode w'.inst.primaryBootDevice = true := by
  obtain ⟨reg, v, -, h⟩ := bind_ok.1 h
  obtain ⟨_, v₁, h2, h⟩ := bind_ok.1 h
  obtain ⟨_, v₂, h3, h⟩ := bind_ok.1 h
  have hmode : v₂.inst.primaryBootDevice = reg &&& crlApbBootModeUserBootModeMask := by
    have ht := (frame_when (R := Ticks) fun _ => frame_checked hw _).ok h3
    rw [ht.inst]
    obtain rfl := modifyInst_ok.1 h2
    rfl
  split at h
  · simp at h
  cases hdev : bootModeDevice (reg &&& crlApbBootModeUserBootModeMask) with
  | none => simp [hdev] at h
  | some dev =>
    simp only [hdev] at h
    obtain ⟨_, v₃, h4, h⟩ := bind_ok.1 h
    obtain ⟨-, rfl⟩ := ensure_ok.1 h4
    obtain ⟨_, v₄, h5, h⟩ := bind_ok.1 h
    obtain rfl := modifyInst_ok.1 h5
    have ht := (frame_checked (R := Ticks) hw _).ok h
    rw [ht.inst] at hd ⊢
    obtain ⟨c, d⟩ := dev
    obtain rfl : d = .sd := by simpa using hd
    show isFileBootMode v₂.inst.primaryBootDevice = true
    rw [hmode]
    exact isFileBootMode_of_sd hdev

theorem secondaryBootDeviceInit_checked (hf : OnSd hw file) (hh : HeadersInFile hw file) :
    secondaryBootDeviceInit (hw.checked file) w = secondaryBootDeviceInit hw w := by
  refine bind_congr_run rfl fun _ _ hv => ?_
  obtain ⟨rfl, rfl⟩ := get_ok.1 hv
  split
  · rfl
  cases hdev : secBootMode w.inst.secondaryBootDevice with
  | none => rfl
  | some dev =>
    refine bind_congr_run rfl fun _ v _ => ?_
    refine bind_congr_run rfl fun _ v' hset => ?_
    obtain rfl := modifyInst_ok.1 hset
    exact validateHeader_checked hf fun _ => ⟨hh, .inl (secBootMode_ne_zero hdev)⟩

/-- Stage 2 with either card, where the headers lie in the file. -/
theorem bootDeviceInitAndValidate_checked (hf : OnSd hw file) (hh : HeadersInFile hw file) :
    bootDeviceInitAndValidate (hw.checked file) w = bootDeviceInitAndValidate hw w := by
  refine bind_congr_run rfl fun _ v hprimary => ?_
  refine bind_congr_run (validateHeader_checked hf fun hd => ⟨hh, .inr ?_⟩) fun _ v' _ => ?_
  · exact primaryBootDeviceInit_sd hprimary hd
  · exact bind_congr_run rfl fun _ _ _ => secondaryBootDeviceInit_checked hf hh

/-- **The headers behind stage 2**, where the image is on the card and is not authenticated. -/
theorem bootDeviceInitAndValidate_file (he : Exact hw file)
    (hplain : ∀ t, ¬ Authenticates hw file t) (h : bootDeviceInitAndValidate hw w = .ok u w')
    (hd : w'.inst.deviceOps = some .sd) :
    HeadersFrom file 0 (word32 (fileMem file) 38) w'.inst.imageHeader := by
  obtain ⟨_, v, hprimary, h⟩ := bind_ok.1 h
  obtain ⟨_, v₁, hvalidate, h⟩ := bind_ok.1 h
  obtain ⟨_, v₂, hset, h⟩ := bind_ok.1 h
  obtain rfl := modifyInst_ok.1 hset
  obtain ⟨_, _, hget, h⟩ := bind_ok.1 h
  obtain ⟨rfl, rfl⟩ := get_ok.1 hget
  split at h
  · obtain ⟨-, rfl⟩ := pure_ok.1 h
    have hdv : v.inst.deviceOps = some .sd := by
      rw [← hd]
      exact ((frame_validateHeader (f := XFsblPs.deviceOps) hw).ok hvalidate).2.symm
    have hmode := primaryBootDeviceInit_sd hprimary hdv
    exact @validateHeader_file hw file v v₁ _ he hdv hplain (.inr hmode) hvalidate
  · cases hdev : secBootMode v₁.inst.imageHeader.imageHeaderTable.partitionPresentDevice with
    | none => simp [hdev] at h
    | some dev =>
      simp only [hdev] at h
      obtain ⟨_, v₃, -, h⟩ := bind_ok.1 h
      obtain ⟨_, v₄, hset, h⟩ := bind_ok.1 h
      obtain rfl := modifyInst_ok.1 hset
      have hdv : v₃.inst.deviceOps = some .sd := by
        rw [← hd]
        exact ((frame_validateHeader (f := XFsblPs.deviceOps) hw).ok h).2.symm
      refine validateHeader_file he ?_ hplain (.inl (secBootMode_ne_zero hdev)) h
      exact hdv

end Headers

end MeasuredBoot
