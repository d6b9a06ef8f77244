import MeasuredBoot.BootActs

/-!
# Header passes

`HeaderPass hw t w w'`: one successful `XFsbl_ValidateHeader` that read the table `t`. A
table that names a secondary device ends the pass before the first partition
header, but not before the FSBL event. `bootDevice_ok`: a successful stage 2 is one
pass, or two when the first table names a secondary device.
-/

namespace MeasuredBoot

open Prog

/-- The table does not name a secondary device. -/
def ImageHeaderTable.Same (t : ImageHeaderTable) : Prop := t.partitionPresentDevice = xihIhtPpdSame

instance (t : ImageHeaderTable) : Decidable t.Same := inferInstanceAs (Decidable (_ = _))

theorem validateImageHeaderTable_success {t : ImageHeaderTable}
    (h : validateImageHeaderTable t = xfsblSuccess) :
    t.Same ∧ 2 ≤ t.noOfPartitions.toNat ∧ t.noOfPartitions.toNat ≤ 32 := by
  unfold validateImageHeaderTable at h
  obtain ⟨_, h⟩ := ite_eq_of_ne h (by decide)
  obtain ⟨_, h⟩ := ite_eq_of_ne h (by decide)
  obtain ⟨hs, h⟩ := ite_eq_of_ne h (by decide)
  obtain ⟨hn, -⟩ := ite_eq_of_ne h (by decide)
  simp only [xihMinPartitions, xihMaxPartitions] at hn
  exact ⟨not_not.1 hs, by omega, by omega⟩

theorem validateImageHeaderTable_secondary {t : ImageHeaderTable}
    (h : validateImageHeaderTable t = xfsblStatusSecondaryBootMode) : ¬ t.Same := by
  unfold validateImageHeaderTable at h
  obtain ⟨_, h⟩ := ite_eq_of_ne h (by decide)
  obtain ⟨_, h⟩ := ite_eq_of_ne h (by decide)
  intro hs
  unfold ImageHeaderTable.Same at hs
  rw [if_neg (not_not.2 hs)] at h
  obtain ⟨_, h⟩ := ite_eq_of_ne h (by decide)
  exact absurd h (by decide)

/-- The acts of `XFsbl_ReadImageHeader`. -/
def headerActs (t : ImageHeaderTable) : List Act :=
  .tableRead t ::
    if t.Same then (List.range t.noOfPartitions.toNat).map .headerRead else []

theorem headerActs_mem (t : ImageHeaderTable) (w : World) : (w.replay (headerActs t)).mem = w.mem := by
  have reads (is : List Nat) (w : World) : (w.replay (is.map .headerRead)).mem = w.mem := by
    induction is generalizing w with
    | nil => rfl
    | cons i is ih => exact ih w
  unfold headerActs
  split
  · exact reads _ w
  · rfl

/-- The acts of `XFsbl_ValidateHeader`: the headers, then the FSBL event. -/
def passActs (t : ImageHeaderTable) (start : Nat) (input : List UInt8) (d : Digest) : List Act :=
  headerActs t ++ [.hashed .fsbl start input, .recorded .fsbl (fsblEvent d)]

/-- A successful `XFsbl_ReadImageHeader`. -/
structure HeadersRead (t : ImageHeaderTable) (w w' : World) : Prop where
  acts : Does (headerActs t) w w'
  table : w'.inst.imageHeader.imageHeaderTable = t
  count : t.Same → 2 ≤ t.noOfPartitions.toNat ∧ t.noOfPartitions.toNat ≤ 32
  kept : ¬ t.Same → w'.inst.imageHeader.partitionHeader = w.inst.imageHeader.partitionHeader

/-- A successful `XFsbl_ValidateHeader`. -/
structure HeaderPass (hw : Hw) (t : ImageHeaderTable) (w w' : World) : Prop where
  acts : ∃ d,
    let start := (w'.inst.imageHeader.partitionHeader.get 0).destinationLoadAddress.toNat
    let input := w.mem.load start fsblHashedBytes
    IsDigest hw input d ∧ Does (passActs t start input d) w w'
  table : w'.inst.imageHeader.imageHeaderTable = t
  count : t.Same → 2 ≤ t.noOfPartitions.toNat ∧ t.noOfPartitions.toNat ≤ 32
  kept : ¬ t.Same → w'.inst.imageHeader.partitionHeader = w.inst.imageHeader.partitionHeader

section Success

variable {hw : Hw} {w w' : World} {u : Unit}

theorem setHeader_ok {i : Nat} {h : PartitionHeader} (hs : setHeader i h w = .ok u w') :
    i < 32 ∧ Does [.headerRead i] w w' ∧
      w'.inst.imageHeader.imageHeaderTable = w.inst.imageHeader.imageHeaderTable := by
  obtain ⟨_, v, h1, hs⟩ := bind_ok.1 hs
  rcases when_ok.1 h1 with ⟨-, h1⟩ | ⟨hi, rfl⟩
  · simp at h1
  obtain ⟨_, v, h2, hs⟩ := bind_ok.1 hs
  obtain rfl := modifyInst_ok.1 h2
  obtain rfl := act_ok.1 hs
  exact ⟨by simpa [xihMaxPartitions] using hi, ⟨rfl, rfl⟩, rfl⟩

theorem readPartitionHeaders_ok {fromImageHdr : Bool}
    {flashImageOffsetAddress runningCpu imageHeaderTableAddressOffset : UInt32}
    {remaining index : Nat} {partitionHeaderAddress : UInt32} {entryCount : Nat}
    (h : readPartitionHeaders hw fromImageHdr flashImageOffsetAddress runningCpu
      imageHeaderTableAddressOffset remaining index partitionHeaderAddress entryCount w = .ok u w') :
    Does ((List.range' index remaining).map .headerRead) w w' ∧
      w'.inst.imageHeader.imageHeaderTable = w.inst.imageHeader.imageHeaderTable := by
  induction remaining generalizing index partitionHeaderAddress entryCount w with
  | zero =>
    obtain ⟨-, rfl⟩ := pure_ok.1 h
    exact ⟨.refl w, rfl⟩
  | succ remaining ih =>
    obtain ⟨bytes, v, h1, h⟩ := bind_ok.1 h
    have hv := (frame_readHeaderBytes (R := Ticks) hw _ _ _).ok h1
    obtain ⟨_, v₁, h2, h⟩ := bind_ok.1 h
    obtain ⟨-, hd, ht⟩ := setHeader_ok h2
    obtain ⟨_, v₂, h3, h⟩ := bind_ok.1 h
    have hk : Inits (fun _ => False) v₁ v₂ := rel_of_ok h3 <| frame_when fun _ =>
      frame_modify_keeps (fun _ => rfl) (fun _ => rfl) fun _ => rfl
    obtain ⟨hd', ht'⟩ := ih h
    have hall := ((hv.moves.toDoes.trans hd).trans hk.does).trans hd'
    refine ⟨by simpa [List.range'_succ] using hall, ?_⟩
    rw [ht', hk.2, ht, hv.inst]

theorem setTable_ok {t : ImageHeaderTable} (h : setTable t w = .ok u w') :
    Does [.tableRead t] w w' ∧ w'.inst.imageHeader = { w.inst.imageHeader with imageHeaderTable := t } := by
  obtain ⟨_, v, h1, h⟩ := bind_ok.1 h
  obtain rfl := modifyInst_ok.1 h1
  obtain rfl := act_ok.1 h
  exact ⟨⟨rfl, rfl⟩, rfl⟩

theorem readImageHeader_ok {fromImageHdr : Bool}
    {flashImageOffsetAddress runningCpu imageHeaderTableAddressOffset : UInt32}
    (h : readImageHeader hw fromImageHdr flashImageOffsetAddress runningCpu
      imageHeaderTableAddressOffset w = .ok u w') : ∃ t, HeadersRead t w w' := by
  obtain ⟨bytes, v, h1, h⟩ := bind_ok.1 h
  have hv := (frame_readHeaderBytes (R := Ticks) hw _ _ _).ok h1
  obtain ⟨_, v₁, h2, h⟩ := bind_ok.1 h
  obtain ⟨hd, hi⟩ := setTable_ok h2
  rw [hv.inst] at hi
  refine ⟨ImageHeaderTable.ofBytes bytes, ?_⟩
  split at h
  · rename_i hs
    obtain ⟨-, rfl⟩ := pure_ok.1 h
    have hsame := validateImageHeaderTable_secondary hs
    have hall := hv.moves.toDoes.trans hd
    refine ⟨?_, by rw [hi], fun hs => absurd hs hsame, fun _ => by rw [hi]⟩
    simpa [headerActs, hsame] using hall
  · obtain ⟨_, v₂, h3, h⟩ := bind_ok.1 h
    obtain ⟨hs, rfl⟩ := ensure_ok.1 h3
    obtain ⟨hsame, hcount⟩ := validateImageHeaderTable_success hs
    obtain ⟨hd', ht'⟩ := readPartitionHeaders_ok h
    have hall := (hv.moves.toDoes.trans hd).trans hd'
    refine ⟨?_, by rw [ht', hi], fun _ => hcount, fun hs => absurd hsame hs⟩
    simpa [headerActs, hsame, List.range_eq_range'] using hall

/-- A step without acts that keeps the headers may stand before the reading. -/
theorem HeadersRead.after {t : ImageHeaderTable} {v : World} (h : HeadersRead t v w')
    (hv : Inits (fun _ => False) w v) : HeadersRead t w w' := by
  refine ⟨hv.does.trans h.acts, h.table, h.count, fun hs => ?_⟩
  rw [h.kept hs, hv.2]

theorem HeaderPass.after {t : ImageHeaderTable} {v : World} (h : HeaderPass hw t v w')
    (hv : Inits (fun _ => False) w v) : HeaderPass hw t w w' := by
  obtain ⟨⟨d, hd, ha⟩, htab, hcount, hkept⟩ := h
  have hmem : v.mem = w.mem := hv.does.mem
  rw [hmem] at hd ha
  refine ⟨⟨d, hd, hv.does.trans ha⟩, htab, hcount, fun hs => ?_⟩
  rw [hkept hs, hv.2]

theorem readHeaders_ok {imageOffsetAddress : UInt32}
    (h : readHeaders hw imageOffsetAddress w = .ok u w') : ∃ t, HeadersRead t w w' := by
  obtain ⟨_, v, h1, h⟩ := bind_ok.1 h
  obtain ⟨rfl, rfl⟩ := get_ok.1 h1
  obtain ⟨_, v₁, h2, h⟩ := bind_ok.1 h
  obtain ⟨efuseCtrl, v₂, h3, h⟩ := bind_ok.1 h
  obtain ⟨_, v₃, h4, h⟩ := bind_ok.1 h
  have k2 : Inits (fun _ => False) w v₁ :=
    rel_of_ok h2 (frame_modifyInst_keeps (fun _ => rfl) fun _ => rfl)
  have k3 : Inits (fun _ => False) v₁ v₂ := (frame_readReg hw _).ok h3
  have k4 : Inits (fun _ => False) v₂ v₃ := (frame_ensure _ _).ok h4
  have k := trans_of _ (trans_of _ k2 k3) k4
  split at h
  · obtain ⟨_, v₄, h5, h⟩ := bind_ok.1 h
    obtain ⟨_, v₅, h6, h⟩ := bind_ok.1 h
    have k5 : Inits (fun _ => False) v₃ v₄ :=
      rel_of_ok h5 (frame_modifyInst_keeps (fun _ => rfl) fun _ => rfl)
    have k6 : Inits (fun _ => False) v₄ v₅ := (frame_authenticateHeaders hw _ _ _).ok h6
    obtain ⟨t, ht⟩ := readImageHeader_ok h
    exact ⟨t, ht.after (trans_of _ k (trans_of _ k5 k6))⟩
  · obtain ⟨t, ht⟩ := readImageHeader_ok h
    exact ⟨t, ht.after k⟩

theorem tpmMeasureFsbl_ok (h : tpmMeasureFsbl hw w = .ok u w') :
    w'.inst.imageHeader = w.inst.imageHeader ∧
      ∃ d, let header := w.inst.imageHeader.partitionHeader.get 0
        let input := w.mem.load header.destinationLoadAddress.toNat fsblHashedBytes
        IsDigest hw input d ∧
          Does [.hashed .fsbl header.destinationLoadAddress.toNat input,
            .recorded .fsbl (fsblEvent d)] w w' := by
  obtain ⟨ph, v, h1, h⟩ := bind_ok.1 h
  obtain ⟨⟨_, rfl⟩, rfl⟩ := header_ok.1 h1
  obtain ⟨input, v, h2, h⟩ := bind_ok.1 h
  obtain ⟨rfl, rfl⟩ := loadMem_ok.1 h2
  obtain ⟨d, v, h3, h⟩ := bind_ok.1 h
  obtain ⟨hv, hd⟩ := shaDigest_ok h3
  obtain ⟨_, v₁, h4, h⟩ := bind_ok.1 h
  obtain rfl := act_ok.1 h4
  obtain rfl := act_ok.1 h
  exact ⟨by rw [← hv.inst]; rfl, d, hd, hv.moves.toDoes.trans ((Does.act v _).trans (.act _ _))⟩

theorem validateHeader_ok (h : validateHeader hw w = .ok u w') : ∃ t, HeaderPass hw t w w' := by
  obtain ⟨multiBootOffset, v, h1, h⟩ := bind_ok.1 h
  obtain ⟨_, v₁, h2, h⟩ := bind_ok.1 h
  obtain ⟨rfl, rfl⟩ := get_ok.1 h2
  obtain ⟨_, v₂, h3, h⟩ := bind_ok.1 h
  obtain ⟨_, v₃, h4, h⟩ := bind_ok.1 h
  have k1 : Inits (fun _ => False) w v := (frame_readReg hw _).ok h1
  have k3 : Inits (fun _ => False) v v₂ :=
    rel_of_ok h3 (frame_modifyInst_keeps (fun _ => rfl) fun _ => rfl)
  have k4 : Inits (fun _ => False) v₂ v₃ := (frame_readToBuffer hw _ _).ok h4
  obtain ⟨_, v₄, h5, h⟩ := bind_ok.1 h
  obtain ⟨t, ht⟩ := readHeaders_ok h5
  obtain ⟨hi, d, hd, hm⟩ := tpmMeasureFsbl_ok h
  have hmem : v₄.mem = v₃.mem := by
    rw [ht.acts.mem, headerActs_mem]
  rw [hmem] at hd hm
  refine ⟨t, HeaderPass.after ⟨⟨d, ?_⟩, ?_, ht.count, fun hs => ?_⟩
    (trans_of _ (trans_of _ k1 k3) k4)⟩
  · rw [hi]
    exact ⟨hd, ht.acts.trans hm⟩
  · rw [hi, ht.table]
  · rw [hi, ht.kept hs]

/-- After the primary boot device, the mode of the boot is not JTAG. -/
theorem primaryBootDeviceInit_ok (h : primaryBootDeviceInit hw w = .ok u w') :
    Inits (fun _ => False) w w' ∧ w'.inst.primaryBootDevice ≠ xfsblJtagBootMode := by
  obtain ⟨reg, v, h1, h⟩ := bind_ok.1 h
  obtain ⟨_, v₁, h2, h⟩ := bind_ok.1 h
  obtain ⟨_, v₂, h3, h⟩ := bind_ok.1 h
  have k1 : Inits (fun _ => False) w v := (frame_readReg hw _).ok h1
  have k2 : Inits (fun _ => False) v v₁ :=
    rel_of_ok h2 (frame_modifyInst_keeps (fun _ => rfl) fun _ => rfl)
  have k3 : Inits (fun _ => False) v₁ v₂ := (frame_when fun _ => frame_checked hw _).ok h3
  have p3 : Boots (fun _ => False) v₁ v₂ := (frame_when fun _ => frame_checked hw _).ok h3
  have hset := modifyInst_ok.1 h2
  split at h
  · simp at h
  rename_i hmode
  cases hdev : bootModeDevice (reg &&& crlApbBootModeUserBootModeMask) with
  | none => simp [hdev] at h
  | some dev =>
    simp only [hdev] at h
    have k4 : Inits (fun _ => False) v₂ w' := (frame_useDevice hw (fun _ _ => rfl) _ _ _).ok h
    have p4 : Boots (fun _ => False) v₂ w' := (frame_useDevice hw (fun _ _ => rfl) _ _ _).ok h
    refine ⟨trans_of _ (trans_of _ (trans_of _ k1 k2) k3) k4, ?_⟩
    have hp := congrArg (fun p => p.2.2.2) (p4.2.trans p3.2)
    rw [← hset] at hp
    simp only [XFsblPs.platform] at hp
    rwa [hp]

theorem secondaryBootDeviceInit_ok (h : secondaryBootDeviceInit hw w = .ok u w') :
    (w.inst.secondaryBootDevice = xihIhtPpdSame ∧ w = w') ∨
      w.inst.secondaryBootDevice ≠ xihIhtPpdSame ∧ ∃ t, HeaderPass hw t w w' := by
  obtain ⟨v, v', h1, h⟩ := bind_ok.1 h
  obtain ⟨rfl, rfl⟩ := get_ok.1 h1
  split at h
  · exact .inl ⟨by assumption, (pure_ok.1 h).2⟩
  refine .inr ⟨by assumption, ?_⟩
  cases hdev : secBootMode w.inst.secondaryBootDevice with
  | none => simp [hdev] at h
  | some dev =>
    simp only [hdev] at h
    obtain ⟨_, v, h2, h⟩ := bind_ok.1 h
    obtain ⟨_, v₁, h3, h⟩ := bind_ok.1 h
    have k2 : Inits (fun _ => False) w v := (frame_useDevice hw (fun _ _ => rfl) _ _ _).ok h2
    have k3 : Inits (fun _ => False) v v₁ :=
      rel_of_ok h3 (frame_modifyInst_keeps (fun _ => rfl) fun _ => rfl)
    obtain ⟨t, ht⟩ := validateHeader_ok h
    exact ⟨t, ht.after (trans_of _ k2 k3)⟩

/-- The passes of a successful stage 2. -/
inductive DeviceBooted (hw : Hw) (w w' : World) : Prop where
  | primary {t : ImageHeaderTable} : t.Same → HeaderPass hw t w w' → DeviceBooted hw w w'
  | secondary {t t' : ImageHeaderTable} {v : World} : ¬ t.Same → HeaderPass hw t w v →
      HeaderPass hw t' v w' → DeviceBooted hw w w'

/-- **What a successful stage 2 did.** -/
theorem bootDevice_ok (h : bootDeviceInitAndValidate hw w = .ok u w') :
    DeviceBooted hw w w' ∧ w'.inst.primaryBootDevice ≠ xfsblJtagBootMode := by
  obtain ⟨_, v, h1, h⟩ := bind_ok.1 h
  obtain ⟨k1, hmode⟩ := primaryBootDeviceInit_ok h1
  obtain ⟨_, v₁, h2, h⟩ := bind_ok.1 h
  obtain ⟨t, ht⟩ := validateHeader_ok h2
  obtain ⟨_, v₂, h3, h⟩ := bind_ok.1 h
  have k3 : Inits (fun _ => False) v₁ v₂ :=
    rel_of_ok h3 (frame_modifyInst_keeps (fun _ => rfl) fun _ => rfl)
  have p : v₂.inst.platform = v.inst.platform := by
    have p2 := ((frame_validateHeader (f := XFsblPs.platform) hw).ok h2).2
    obtain rfl := modifyInst_ok.1 h3
    exact p2
  have hsec : v₂.inst.secondaryBootDevice = t.partitionPresentDevice := by
    obtain rfl := modifyInst_ok.1 h3
    rw [← ht.table]
  have ht := ht.after k1
  have p' := ((frame_secondaryBootDeviceInit (f := XFsblPs.platform) hw).ok h).2.trans p
  have hmode' : w'.inst.primaryBootDevice ≠ xfsblJtagBootMode := by
    have hp := congrArg (fun p => p.2.2.2) p'
    simp only [XFsblPs.platform] at hp
    rwa [hp]
  refine ⟨?_, hmode'⟩
  rcases secondaryBootDeviceInit_ok h with ⟨hs, rfl⟩ | ⟨hs, t', ht'⟩
  · rw [hsec] at hs
    obtain ⟨⟨d, hd, ha⟩, htab, hcount, hkept⟩ := ht
    refine .primary hs ⟨⟨d, ?_⟩, by rw [k3.2, htab], hcount, fun hs => ?_⟩
    · have hall := ha.trans k3.does
      rw [k3.2]
      exact ⟨hd, by simpa using hall⟩
    · rw [k3.2, hkept hs]
  · rw [hsec] at hs
    exact .secondary hs ht (ht'.after k3)

end Success

end MeasuredBoot
