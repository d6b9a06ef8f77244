import MeasuredBoot.HeaderBuffer

/-!
# Two ways to read the headers

`XFsbl_ReadImageHeader` reads the table and the partition headers from flash, or from the copy in
`ImageHdr`, where an address of the image is one of the copy less the table's. `storeHeaders` is what
either does with the headers it finds; `readImageHeader_agree`: they find the same ones, as long as
what they read lies in the range that was copied.
-/

namespace MeasuredBoot

open Prog

/-! ## What is done with the headers -/

/-- The instance's headers and the ATF parameters. -/
def World.headers (w : World) : ImageHeader × ATFHandoffParams :=
  (w.inst.imageHeader, w.atfHandoffParams)

/-- Headers are stored from `index` on, behind `entryCount` ATF entries. -/
def storeHeaders (runningCpu : UInt32) :
    List PartitionHeader → Nat → Nat → ImageHeader × ATFHandoffParams →
      ImageHeader × ATFHandoffParams
  | [], _, _, r => r
  | h :: hs, index, entryCount, (i, p) =>
    let isEntry := isAtfEntry h runningCpu index entryCount
    storeHeaders runningCpu hs (index + 1) (if isEntry then entryCount + 1 else entryCount)
      ({ i with partitionHeader := i.partitionHeader.setIfInBounds index h },
        if isEntry then setATFHandoffParameters p h entryCount else p)

section Store

variable {cpu : UInt32} {index entryCount : Nat} {h : PartitionHeader} {hs : List PartitionHeader}
  {w v : World}

theorem headers_withEntry (hv : v.headers = w.headers) :
    (v.withEntry index h cpu entryCount).headers =
      ({ w.headers.1 with partitionHeader := w.headers.1.partitionHeader.setIfInBounds index h },
        if isAtfEntry h cpu index entryCount then setATFHandoffParameters w.headers.2 h entryCount
        else w.headers.2) := by
  rw [← hv]
  rfl

theorem storeHeaders_cons (hv : v.headers = w.headers) :
    storeHeaders cpu (h :: hs) index entryCount w.headers =
      storeHeaders cpu hs (index + 1)
        (if isAtfEntry h cpu index entryCount then entryCount + 1 else entryCount)
        (v.withEntry index h cpu entryCount).headers := by
  rw [headers_withEntry hv]
  rfl

end Store

/-! ## The headers in flash -/

/-- Every copy from the boot device reads this flash. -/
def ReadsFlash (hw : Hw) (flash : Mem) : Prop :=
  ∀ t device srcAddress length, (hw.deviceCopy t device srcAddress length).1 = xfsblSuccess ∧
    ∀ i < length, (hw.deviceCopy t device srcAddress length).2 i = flash (srcAddress.toNat + i)

/-- The chain of headers of an image at `flashImageOffsetAddress`: where each is in flash. -/
def flashHeaders (flash : Mem) (flashImageOffsetAddress : UInt32) :
    Nat → UInt32 → List (UInt32 × PartitionHeader)
  | 0, _ => []
  | remaining + 1, address =>
    let h := PartitionHeader.ofBytes fun i =>
      flash ((flashImageOffsetAddress + address).toNat + i)
    (flashImageOffsetAddress + address, h) :: flashHeaders flash flashImageOffsetAddress remaining
      (h.nextPartitionOffset * xihPartitionWordLength)

/-- `length` bytes of flash from `address` on are among the `size` bytes from `start` on. -/
def InRange (start : UInt32) (size : Nat) (address : UInt32) (length : Nat) : Prop :=
  start.toNat ≤ address.toNat ∧ address.toNat + length ≤ start.toNat + size

instance (start : UInt32) (size : Nat) (address : UInt32) (length : Nat) :
    Decidable (InRange start size address length) := inferInstanceAs (Decidable (_ ∧ _))

/-- The table at `start` and, where it is valid, all headers it counts lie in a range of flash. -/
def HeadersInRange (flash : Mem) (flashImageOffsetAddress start : UInt32) (size : Nat) : Prop :=
  let t := ImageHeaderTable.ofBytes fun i => flash (start.toNat + i)
  InRange start size start xihIhtLen ∧ (validateImageHeaderTable t = xfsblSuccess →
    ∀ p ∈ flashHeaders flash flashImageOffsetAddress t.noOfPartitions.toNat
      (t.partitionHeaderAddress * xihPartitionWordLength), InRange start size p.1 xihPhLen)

instance (flash : Mem) (flashImageOffsetAddress start : UInt32) (size : Nat) :
    Decidable (HeadersInRange flash flashImageOffsetAddress start size) :=
  inferInstanceAs (Decidable (_ ∧ (_ → _)))

/-- `ImageHdr` is a copy of that range. -/
def World.Copied (w : World) (flash : Mem) (start : UInt32) (size : Nat) : Prop :=
  ∀ i < size, w.readBuffer i = flash (start.toNat + i)

/-- The status and what was read. -/
def readOutcome : EStateM.Result Halt World Unit → Option Halt × ImageHeader × ATFHandoffParams
  | .ok _ w => (none, w.headers)
  | .error e w => (some e, w.headers)

section Bytes

variable {b c : Mem} {k : Nat}

theorem word32_congr (n : Nat) (h : ∀ i < n, b i = c i) (hk : 4 * k + 4 ≤ n) :
    word32 b k = word32 c k := by
  unfold word32
  rw [h (4 * k) (by omega), h (4 * k + 1) (by omega), h (4 * k + 2) (by omega),
    h (4 * k + 3) (by omega)]

theorem word64_congr (n : Nat) (h : ∀ i < n, b i = c i) (hk : 4 * k + 8 ≤ n) :
    word64 b k = word64 c k := by
  unfold word64
  rw [word32_congr n h (by omega), word32_congr n h (by omega)]

/-- A header is a function of its 64 bytes. -/
theorem PartitionHeader.ofBytes_congr (h : ∀ i < xihPhLen, b i = c i) :
    PartitionHeader.ofBytes b = PartitionHeader.ofBytes c := by
  have hw (k : Nat) (hk : k < 16) : word32 b k = word32 c k :=
    word32_congr 64 h (by omega)
  unfold PartitionHeader.ofBytes
  rw [hw 0 (by decide), hw 1 (by decide), hw 2 (by decide), hw 3 (by decide), hw 8 (by decide),
    hw 9 (by decide), hw 10 (by decide), hw 11 (by decide), hw 12 (by decide), hw 13 (by decide),
    hw 14 (by decide), hw 15 (by decide), word64_congr 64 h (k := 4) (by decide),
    word64_congr 64 h (k := 6) (by decide)]

/-- A table is a function of its 64 bytes. -/
theorem ImageHeaderTable.ofBytes_congr (h : ∀ i < xihIhtLen, b i = c i) :
    ImageHeaderTable.ofBytes b = ImageHeaderTable.ofBytes c := by
  have hw (k : Nat) (hk : k < 16) : word32 b k = word32 c k :=
    word32_congr 64 h (by omega)
  unfold ImageHeaderTable.ofBytes
  have hreserved : (Vector.ofFn fun i : Fin 9 => word32 b (6 + i)) =
      Vector.ofFn fun i : Fin 9 => word32 c (6 + i) := by
    congr 1
    funext i
    exact hw _ (by omega)
  rw [hw 0 (by decide), hw 1 (by decide), hw 2 (by decide), hw 3 (by decide), hw 4 (by decide),
    hw 5 (by decide), hw 15 (by decide), hreserved]

end Bytes

/-! ## One read -/

section Reads

variable {hw : Hw} {flash bytes : Mem} {device : Device} {F T cpu address start : UInt32}
  {remaining index entryCount size length : Nat} {w v : World}

/-- A device copy of the flash. -/
theorem readHeaderBytes_flash (hf : ReadsFlash hw flash) (hd : w.inst.deviceOps = some device) :
    ∃ bytes v, readHeaderBytes hw false F address w = .ok bytes v ∧ v.headers = w.headers ∧
      v.inst.deviceOps = some device ∧
      ∀ i < xihPhLen, bytes i = flash ((F + address).toNat + i) := by
  obtain ⟨hstatus, hbytes⟩ := hf w.tick device (F + address) xihPhLen
  have hcopy : deviceOpsCopy hw (F + address) xihPhLen w =
      .ok (hw.deviceCopy w.tick device (F + address) xihPhLen) { w with tick := w.tick + 1 } := by
    rw [deviceOpsCopy, bind_apply, show (get : Fsbl World) w = .ok w w from rfl]
    simp only [hd]
    rfl
  refine ⟨_, { w with tick := w.tick + 1 }, ?_, rfl, hd, hbytes⟩
  show (deviceOpsCopy hw (F + address) xihPhLen >>= _) w = _
  rw [bind_apply, hcopy]
  show (ensure ((hw.deviceCopy w.tick device (F + address) xihPhLen).1 = xfsblSuccess) _ >>= _) _ = _
  rw [hstatus]
  rfl

/-- Where the copy has what flash has at an address of the image. -/
theorem toNat_offset (hr : InRange (F + T) size (F + address) length) :
    (address - T).toNat + (F + T).toNat = (F + address).toNat := by
  have hadd : address - T + (F + T) = F + address := by
    have hcomm : address - T + (F + T) = address - T + T + F := by
      rw [UInt32.add_comm F T, UInt32.add_assoc]
    rw [hcomm, UInt32.sub_add_cancel, UInt32.add_comm]
  have h := congrArg UInt32.toNat hadd
  rw [UInt32.toNat_add] at h
  have hlt := (address - T).toNat_lt
  have hlt' := (F + T).toNat_lt
  obtain ⟨hle, -⟩ := hr
  omega

theorem copied_bytes (hc : w.Copied flash (F + T) size)
    (hr : InRange (F + T) size (F + address) length) :
    ∀ i < length, w.readBuffer ((address - T).toNat + i) = flash ((F + address).toNat + i) := by
  intro i hi
  have hoff := toNat_offset hr
  obtain ⟨hle, hend⟩ := hr
  rw [hc _ (by omega), ← hoff]
  congr 1
  omega

/-! ## The loop over the headers -/

/-- From flash. -/
theorem readPartitionHeaders_flash (hf : ReadsFlash hw flash) (hd : w.inst.deviceOps = some device)
    (hi : index + remaining ≤ 32) :
    ∃ w', readPartitionHeaders hw false F cpu T remaining index address entryCount w = .ok () w' ∧
      w'.headers = storeHeaders cpu ((flashHeaders flash F remaining address).map Prod.snd) index
        entryCount w.headers := by
  induction remaining generalizing index address entryCount w with
  | zero => exact ⟨w, rfl, rfl⟩
  | succ remaining ih =>
    obtain ⟨bytes, v, hread, hheaders, hdv, hbytes⟩ :=
      @readHeaderBytes_flash hw flash device F address w hf hd
    have hh := PartitionHeader.ofBytes_congr hbytes
    generalize hph : PartitionHeader.ofBytes bytes = h at hh
    have hstep := @readPartitionHeaders_read hw cpu T address remaining index entryCount w h false F
      bytes v (by omega) hread hph.symm
    obtain ⟨w', hrun, hw'⟩ := @ih (h.nextPartitionOffset * xihPartitionWordLength) (index + 1)
      (if isAtfEntry h cpu index entryCount then entryCount + 1 else entryCount)
      (v.withEntry index h cpu entryCount) hdv (by omega)
    refine ⟨w', hstep.trans hrun, ?_⟩
    simp only [flashHeaders, List.map_cons, ← hh]
    rw [hw', storeHeaders_cons hheaders]

/-- From the copy, as long as the headers are in it. -/
theorem readPartitionHeaders_copied {F' : UInt32} (hc : w.Copied flash (F + T) size)
    (hr : ∀ p ∈ flashHeaders flash F remaining address, InRange (F + T) size p.1 xihPhLen)
    (hi : index + remaining ≤ 32) :
    ∃ w', readPartitionHeaders hw true F' cpu T remaining index address entryCount w = .ok () w' ∧
      w'.headers = storeHeaders cpu ((flashHeaders flash F remaining address).map Prod.snd) index
        entryCount w.headers := by
  induction remaining generalizing index address entryCount w with
  | zero => exact ⟨w, rfl, rfl⟩
  | succ remaining ih =>
    simp only [flashHeaders, List.forall_mem_cons] at hr
    have hh := PartitionHeader.ofBytes_congr (copied_bytes hc hr.1)
    generalize hph : PartitionHeader.ofBytes (fun i => w.readBuffer ((address - T).toNat + i)) = h
      at hh
    have hstep := @readPartitionHeaders_read hw cpu T address remaining index entryCount w h true F'
      _ w (by omega) rfl hph.symm
    rw [← hh] at hr
    obtain ⟨w', hrun, hw'⟩ := @ih (h.nextPartitionOffset * xihPartitionWordLength) (index + 1)
      (if isAtfEntry h cpu index entryCount then entryCount + 1 else entryCount)
      (w.withEntry index h cpu entryCount) hc hr.2 (by omega)
    refine ⟨w', hstep.trans hrun, ?_⟩
    simp only [flashHeaders, List.map_cons, ← hh]
    rw [hw', ← storeHeaders_cons rfl]

/-! ## The whole read -/

/-- What a read makes of the table and the headers behind it. -/
def tableOutcome (cpu : UInt32) (t : ImageHeaderTable) (hs : List PartitionHeader)
    (r : ImageHeader × ATFHandoffParams) : Option Halt × ImageHeader × ATFHandoffParams :=
  let r := ({ r.1 with imageHeaderTable := t }, r.2)
  if validateImageHeaderTable t = xfsblStatusSecondaryBootMode then (none, r)
  else if validateImageHeaderTable t = xfsblSuccess then (none, storeHeaders cpu hs 0 0 r)
  else (some (.status (validateImageHeaderTable t)), r)

/-- A read whose loop stores these headers, where the table is valid. -/
theorem readOutcome_eq {t : ImageHeaderTable} {hs : List PartitionHeader} {fromImageHdr : Bool}
    (hb : readHeaderBytes hw fromImageHdr F (if fromImageHdr then 0 else T) w = .ok bytes v)
    (htab : ImageHeaderTable.ofBytes bytes = t) (hv : v.headers = w.headers)
    (hloop : validateImageHeaderTable t = xfsblSuccess → ∃ w',
      readPartitionHeaders hw fromImageHdr F cpu T t.noOfPartitions.toNat 0
        (t.partitionHeaderAddress * xihPartitionWordLength) 0 (v.withTable t) = .ok () w' ∧
      w'.headers = storeHeaders cpu hs 0 0 (v.withTable t).headers) :
    readOutcome (readImageHeader hw fromImageHdr F cpu T w) = tableOutcome cpu t hs w.headers := by
  have htable : (v.withTable t).headers = ({ w.headers.1 with imageHeaderTable := t }, w.headers.2) := by
    rw [← hv]
    rfl
  rw [readImageHeader_read hb htab, tableOutcome, ← htable]
  by_cases hsec : validateImageHeaderTable t = xfsblStatusSecondaryBootMode
  · rw [if_pos hsec, if_pos hsec]
    rfl
  rw [if_neg hsec, if_neg hsec]
  by_cases hval : validateImageHeaderTable t = xfsblSuccess
  · obtain ⟨w', hrun, hw'⟩ := hloop hval
    rw [if_pos hval, ensure, if_pos hval]
    show readOutcome (readPartitionHeaders hw fromImageHdr F cpu T t.noOfPartitions.toNat 0
      (t.partitionHeaderAddress * xihPartitionWordLength) 0 (v.withTable t)) = _
    rw [hrun, ← hw']
    rfl
  · rw [if_neg hval, ensure, if_neg hval]
    rfl

/-- **The two reads agree**: status, headers and ATF parameters, where table and headers lie in the
range that was copied. -/
theorem readImageHeader_agree {F' : UInt32} (hf : ReadsFlash hw flash)
    (hd : w.inst.deviceOps = some device) (hc : w.Copied flash (F + T) size)
    (hr : HeadersInRange flash F (F + T) size) :
    readOutcome (readImageHeader hw true F' cpu T w) =
      readOutcome (readImageHeader hw false F cpu T w) := by
  obtain ⟨⟨-, htable⟩, hheaders⟩ := hr
  generalize ht : ImageHeaderTable.ofBytes (fun i => flash ((F + T).toNat + i)) = t at hheaders
  have hcount : validateImageHeaderTable t = xfsblSuccess → 0 + t.noOfPartitions.toNat ≤ 32 := by
    intro hval
    obtain ⟨-, -, h32⟩ := validateImageHeaderTable_success hval
    omega
  -- from the copy
  have hcopied : ImageHeaderTable.ofBytes w.readBuffer = t := by
    rw [← ht]
    exact ImageHeaderTable.ofBytes_congr fun i hi => hc i (by omega)
  rw [readOutcome_eq readHeaderBytes_start hcopied rfl fun hval =>
    readPartitionHeaders_copied (w := w.withTable t) hc (hheaders hval) (hcount hval)]
  -- from flash
  obtain ⟨bytes, v, hread, hv, hdv, hbytes⟩ := @readHeaderBytes_flash hw flash device F T w hf hd
  have hflash : ImageHeaderTable.ofBytes bytes = t := by
    rw [← ht]
    exact ImageHeaderTable.ofBytes_congr hbytes
  rw [readOutcome_eq hread hflash hv fun hval =>
    readPartitionHeaders_flash (w := v.withTable t) hf hdv (hcount hval)]

end Reads

/-- The flash of a board, as one address space. -/
def plainFlash : Mem := fun a =>
  if a < 0x2000 then (plainBoard.flash .qspi24).byte a else plainBoard.data (a - 0x2000)

/-- The plain image, whose headers were copied. -/
def copiedWorld : World :=
  { powerOn.world with
    inst := { powerOn.world.inst with deviceOps := some .qspi24 }
    readBuffer := fun i => plainFlash (0x8C0 + i) }

theorem readImageHeader_agree_plainBoard :
    readOutcome (readImageHeader plainBoard.hw true 0xFFFE0000 xihPhAttrbDestCpuA53_0 0x8C0
        copiedWorld) =
      readOutcome (readImageHeader plainBoard.hw false 0 xihPhAttrbDestCpuA53_0 0x8C0 copiedWorld) :=
  @readImageHeader_agree plainBoard.hw plainFlash .qspi24 0 0x8C0 xihPhAttrbDestCpuA53_0 0x800
    copiedWorld 0xFFFE0000 (fun _ _ _ _ => ⟨rfl, fun _ _ => rfl⟩) rfl (fun _ _ => rfl)
    (by decide +kernel)

end MeasuredBoot
