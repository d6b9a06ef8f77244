import MeasuredBoot.BootPasses
import MeasuredBoot.Handoff

/-!
# How functions end early

No function indexes the partition headers out of bounds (`Proper`, one of the `Usual` kinds of
ends) where its own partition number is below 32 and, for the look at the next header, the table counts at
most 32 partitions. Stage 2 returns the JTAG status only in JTAG mode
(`raises_bootDeviceInitAndValidate`), and a handoff never asks to continue
(`raises_handoff`).
-/

namespace MeasuredBoot

open Prog

/-- Not an access past the partition headers. -/
def InBounds (e : Halt) : Prop := ∀ i, e ≠ .headerOutOfBounds i

/-- Not an access past the partition headers, and no error that is a success. -/
def Proper (e : Halt) : Prop := InBounds e ∧ e ≠ .status xfsblSuccess

theorem proper_status {code : UInt32} (h : code ≠ xfsblSuccess) : Proper (.status code) :=
  ⟨fun _ => nofun, by simpa using h⟩

/-- The ends of functions that stay within their arrays. -/
class Usual (E : Halt → Prop) : Prop where
  status {code : UInt32} : code ≠ xfsblSuccess → E (.status code)
  hang : E .hang
  noDeviceOps : E .noDeviceOps
  printUnset : E .printUnset

instance : Usual Proper where
  status := proper_status
  hang := ⟨fun _ => nofun, nofun⟩
  noDeviceOps := ⟨fun _ => nofun, nofun⟩
  printUnset := ⟨fun _ => nofun, nofun⟩

/-- Not an access past the partition headers or the handoff table. -/
def Inside (e : Halt) : Prop := Proper e ∧ e ≠ .handoffOutOfBounds

instance : Usual Inside where
  status h := ⟨proper_status h, nofun⟩
  hang := ⟨Usual.hang, nofun⟩
  noDeviceOps := ⟨Usual.noDeviceOps, nofun⟩
  printUnset := ⟨Usual.printUnset, nofun⟩

/-- The handoff table is as it was. -/
def SameTable (w w' : World) : Prop := w'.inst.handoffValues = w.inst.handoffValues

instance : IsPreorder World SameTable where
  refl _ := rfl
  trans _ _ _ h h' := h'.trans h

instance : Silent SameTable where
  tick _ := rfl

/-- An act that makes no entry. -/
def Act.NoEntry (a : Act) : Prop := ∀ m v, a ≠ .handoffEntry m v

theorem effect_sameTable (w : World) {a : Act} (ha : a.NoEntry) : SameTable w (w.effect a) := by
  cases a with
  | handoffEntry m v => exact absurd rfl (ha m v)
  | _ => rfl

theorem replay_sameTable (w : World) {as : List Act} (h : ∀ a ∈ as, Act.NoEntry a) :
    SameTable w (w.replay as) := by
  induction as generalizing w with
  | nil => exact rfl
  | cons a as ih =>
    rw [List.forall_mem_cons] at h
    exact trans_of SameTable (effect_sameTable w h.1) (ih _ h.2)

theorem Does.sameTable {as : List Act} {w w' : World} (h : Does as w w')
    (ha : ∀ a ∈ as, Act.NoEntry a) : SameTable w w' :=
  h.handoffValues.trans (replay_sameTable w ha)

theorem Emits.sameTable {A : Act → Prop} (hA : ∀ a, A a → a.NoEntry) {w w' : World}
    (h : Emits A w w') : SameTable w w' := by
  obtain ⟨as, ha, hd⟩ := h
  exact hd.sameTable fun a h => hA a (ha a h)

/-! ## Primitives -/

section Primitives

variable {E : Halt → Prop} (hw : Hw)

theorem raises_ask {α : Type} (f : Nat → α) : Raises E (ask f) := by
  intro w e w' h
  cases h

theorem raises_act (a : Act) : Raises E (act a) := raises_modify

theorem raises_modifyInst (f : XFsblPs → XFsblPs) : Raises E (modifyInst f) := raises_modify

theorem raises_ensure {p : Prop} [Decidable p] {code : UInt32} (h : ¬ p → E (.status code)) :
    Raises E (ensure p code) := raises_ite (fun _ => raises_pure _) fun hp => raises_throw (h hp)

theorem raises_when {p : Prop} [Decidable p] {c : Fsbl Unit} (h : p → Raises E c) :
    Raises E (when p c) := raises_ite h fun _ => raises_pure _

theorem raises_ofExcept {α : Type} {x : Except UInt32 α} (h : ∀ code, x = .error code →
    E (.status code)) : Raises E (ofExcept x) := by
  cases x with
  | ok a => exact raises_pure _
  | error code => exact raises_throw (h code rfl)

theorem raises_header {n : Nat} (hn : n < 32) : Raises E (header n) := by
  intro w e w' h
  rw [header, dif_pos hn] at h
  cases h

theorem raises_statusOf {c : Fsbl Unit} (h : Raises E c) : Raises E (statusOf c) := by
  intro w e w' he
  unfold statusOf at he
  split at he
  · cases he
  · cases he
  · cases he
    exact h _ _ _ (by assumption)

theorem raises_readReg (r : Reg) : Raises E (readReg hw r) := raises_ask _

theorem raises_call (c : Call) : Raises E (call hw c) := raises_ask _

theorem raises_checked {c : Call}
    (h : ∀ t, hw.call t c ≠ xfsblSuccess → E (.status (hw.call t c))) :
    Raises E (checked hw c) := by
  intro w e w' he
  rcases bind_error.1 he with he | ⟨status, v, hc, he⟩
  · exact (raises_call hw c _ _ _ he)
  · rw [call_ok hc] at he
    exact raises_ensure (h _) _ _ _ he

theorem raises_checkedAs {c : Call} {code : UInt32} (h : E (.status code)) :
    Raises E (checkedAs hw c code) :=
  raises_bind (raises_call hw c) fun _ => raises_ensure fun _ => h

theorem raises_wait {c : Call} (h : E .hang) : Raises E (wait hw c) :=
  raises_bind (raises_call hw c) fun _ => raises_ite (fun _ => raises_pure _) fun _ => raises_throw h

theorem raises_deviceOpsCopy {srcAddress : UInt32} {length : Nat} (h : E .noDeviceOps) :
    Raises E (deviceOpsCopy hw srcAddress length) := by
  refine raises_bind raises_get fun w => ?_
  cases w.inst.deviceOps with
  | none => exact raises_throw h
  | some device => exact raises_ask _

theorem deviceOpsCopy_ok {srcAddress : UInt32} {length : Nat} {w w' : World} {r : UInt32 × Mem}
    (h : deviceOpsCopy hw srcAddress length w = .ok r w') :
    ∃ t device, r = hw.deviceCopy t device srcAddress length := by
  obtain ⟨v, v', h1, h⟩ := bind_ok.1 h
  obtain ⟨rfl, rfl⟩ := get_ok.1 h1
  cases hd : w.inst.deviceOps with
  | none => simp [hd] at h
  | some device =>
    simp only [hd] at h
    injection h with h _
    exact ⟨_, _, h.symm⟩

theorem raises_deviceRead {srcAddress : UInt32} {length : Nat} (h : E .noDeviceOps)
    (hs : ∀ t device, (hw.deviceCopy t device srcAddress length).1 ≠ xfsblSuccess →
      E (.status (hw.deviceCopy t device srcAddress length).1)) :
    Raises E (deviceRead hw srcAddress length) := by
  intro w e w' he
  rcases bind_error.1 he with he | ⟨r, v, hc, he⟩
  · exact raises_deviceOpsCopy hw h _ _ _ he
  · obtain ⟨t, device, rfl⟩ := deviceOpsCopy_ok hw hc
    exact raises_bind (raises_ensure (hs t device)) (fun _ => raises_pure _) _ _ _ he

theorem raises_loadMem (start length : Nat) : Raises E (loadMem start length) :=
  raises_bind raises_get fun _ => raises_pure _

theorem raises_shaDigest {input : List UInt8} (h : E .hang) : Raises E (shaDigest hw input) := by
  refine raises_bind (raises_ask _) fun x => ?_
  cases x with
  | done => exact raises_pure _
  | timeout => exact raises_pure _
  | stuck => exact raises_throw h

end Primitives

section Functions

variable (hw : Hw)

/-! ## Stage 1 -/

section Proper

theorem remapClusterId_error {platform clusterId code : UInt32}
    (h : remapClusterId platform clusterId = .error code) : code = xfsblErrorUnsupportedClusterId := by
  unfold remapClusterId at h
  repeat' split at h
  all_goals cases h
  rfl

theorem getLoadAddress_error {destinationCpu length code : UInt32} {address : UInt64}
    (h : getLoadAddress destinationCpu address length = .error code) :
    code = xfsblErrorLoadAddress := by
  unfold getLoadAddress at h
  repeat' split at h
  all_goals
    cases h
  all_goals rfl

variable {E : Halt → Prop} [Usual E]

theorem usual_checked (c : Call) : Raises E (checked hw c) :=
  raises_checked hw fun _ => Usual.status

theorem usual_checkedAs (c : Call) {code : UInt32} (h : code ≠ xfsblSuccess) :
    Raises E (checkedAs hw c code) := raises_checkedAs hw (Usual.status h)

theorem usual_ensure {p : Prop} [Decidable p] {code : UInt32} (h : code ≠ xfsblSuccess) :
    Raises E (ensure p code) := raises_ensure fun _ => Usual.status h

theorem usual_eccInitRanges (ranges : List (Nat × Nat)) :
    Raises E (eccInitRanges hw ranges) := by
  have loop (fuel startAddr numBytes : Nat) :
      Raises E (eccInitLoop hw fuel startAddr numBytes) := by
    induction fuel generalizing startAddr numBytes with
    | zero => exact raises_pure _
    | succ fuel ih =>
      refine raises_ite (fun _ => raises_pure _) fun _ => ?_
      refine raises_bind (raises_wait hw Usual.hang) fun _ => raises_bind (raises_act _) fun _ => ?_
      refine raises_bind (raises_wait hw Usual.hang) fun _ => raises_bind (raises_call hw _) fun _ => ?_
      exact raises_bind (usual_ensure (by decide)) fun _ => ih _ _
  induction ranges with
  | nil => exact raises_pure _
  | cons r ranges ih => exact raises_bind (loop _ _ _) fun _ => ih

theorem usual_tcmEccInit (cpuId : UInt32) : Raises E (tcmEccInit hw cpuId) :=
  raises_bind raises_get fun _ => raises_bind (usual_eccInitRanges hw _) fun _ =>
    raises_modifyInst _

theorem usual_fsblInitialize : Raises E (fsblInitialize hw) := by
  refine raises_bind ?_ fun resetReason => ?_
  · refine raises_bind (raises_readReg hw _) fun _ => raises_ite (fun _ => raises_pure _) fun _ => ?_
    exact raises_bind (raises_readReg hw _) fun _ =>
      raises_ite (fun _ => raises_pure _) fun _ => raises_pure _
  refine raises_bind (raises_modifyInst _) fun _ => ?_
  refine raises_bind (raises_when fun _ => ?_) fun _ => raises_bind ?_ fun _ => ?_
  · refine raises_bind (raises_when fun _ => ?_) fun _ => ?_
    · refine raises_bind (raises_readReg hw _) fun _ => raises_when fun _ => ?_
      exact raises_bind (usual_checkedAs hw _ (by decide)) fun _ => usual_checkedAs hw _ (by decide)
    · exact raises_bind (raises_when fun _ => raises_wait hw Usual.hang) fun _ =>
        usual_checked hw _
  · refine raises_bind (raises_readReg hw _) fun _ => raises_bind (raises_readReg hw _) fun _ => ?_
    refine raises_bind (raises_ofExcept fun _ h => remapClusterId_error h ▸ Usual.status (by decide))
      fun _ => ?_
    refine raises_ite (fun _ => raises_modifyInst _) fun _ => ?_
    refine raises_ite (fun _ => ?_) fun _ => raises_throw (Usual.status (by decide))
    refine raises_bind (raises_readReg hw _) fun _ => raises_bind (raises_modifyInst _) fun _ => ?_
    exact raises_act _
  refine raises_bind (raises_when fun _ => ?_) fun _ => ?_
  · refine raises_bind (raises_bind raises_get fun _ => raises_when fun _ => ?_) fun _ => ?_
    · exact usual_tcmEccInit hw _
    · exact usual_checked hw _
  · exact raises_bind (raises_act _) fun _ => raises_act _

/-! ## Loading -/

theorem usual_partitionHeaderValidation {n : Nat} (hn : n < 32) :
    Raises E (partitionHeaderValidation hw n) := by
  refine raises_bind (raises_header hn) fun _ => raises_bind (raises_act _) fun _ => ?_
  refine raises_bind (usual_ensure (by decide)) fun _ => raises_ite (fun _ => raises_pure _) fun _ => ?_
  refine raises_bind raises_get fun _ => raises_bind (raises_readReg hw _) fun _ => ?_
  refine raises_ite (fun _ => raises_pure _) fun _ => ?_
  exact raises_bind (raises_ensure Usual.status) fun _ => raises_pure _

theorem usual_configureMemory (runningCpu destinationCpu : UInt32) (address : UInt64) :
    Raises E (configureMemory hw runningCpu destinationCpu address) := by
  have tcm (memory : TcmMemory) (eccMask : UInt32) :
      Raises E (configureTcm hw memory runningCpu destinationCpu eccMask) := by
    refine raises_bind (raises_when fun _ => ?_) fun _ => ?_
    · cases memory <;> exact usual_checkedAs hw _ (by decide)
    · exact raises_bind raises_get fun _ => raises_when fun _ => usual_tcmEccInit hw _
  refine raises_ite (fun _ => tcm _ _) fun _ => raises_ite (fun _ => tcm _ _) fun _ => ?_
  exact raises_ite (fun _ => tcm _ _) fun _ => raises_pure _

theorem usual_deviceRead (srcAddress : UInt32) (length : Nat) :
    Raises E (deviceRead hw srcAddress length) :=
  raises_deviceRead hw Usual.noDeviceOps fun _ _ => Usual.status

theorem usual_copyToMemory (n : Nat) (h : PartitionHeader) (inst : XFsblPs)
    (destinationCpu : UInt32) : Raises E (copyToMemory hw n h inst destinationCpu) := by
  refine raises_bind (raises_when fun _ => ?_) fun _ => ?_
  · exact raises_bind (usual_deviceRead hw _ _) fun _ => raises_pure _
  refine raises_bind (raises_ofExcept fun _ h => ?_) fun _ => ?_
  · exact getLoadAddress_error h ▸ Usual.status (by decide)
  refine raises_bind (usual_configureMemory hw _ _ _) fun _ => ?_
  refine raises_bind (raises_when fun _ => raises_wait hw Usual.hang) fun _ => ?_
  refine raises_bind (raises_deviceOpsCopy hw Usual.noDeviceOps) fun _ => ?_
  exact raises_bind (raises_act _) fun _ => raises_ensure Usual.status

theorem usual_flushPrinted (run : PrintRun) : Raises E (flushPrinted run) := by
  unfold flushPrinted
  split
  · exact raises_act _
  · exact raises_throw Usual.printUnset
  · exact raises_throw Usual.hang

theorem usual_tpmMeasurePartition {n : Nat} (hn : n < 32) (loadAddress : UInt64) :
    Raises E (tpmMeasurePartition hw n loadAddress) := by
  have record (d : Digest) (pcr : UInt32) (name : CStr) :
      Raises E (recordPartition n d pcr name) :=
    raises_bind (raises_act _) fun _ => raises_act _
  have print : Raises E printEventLog :=
    raises_bind raises_get fun _ => usual_flushPrinted _
  refine raises_bind (raises_header hn) fun _ => raises_bind (raises_loadMem _ _) fun _ => ?_
  refine raises_bind (raises_shaDigest hw Usual.hang) fun _ => raises_bind (raises_act _) fun _ => ?_
  refine raises_bind raises_get fun _ => ?_
  refine raises_ite (fun _ => record _ _ _) fun _ => raises_ite (fun _ => record _ _ _) fun _ => ?_
  refine raises_ite (fun _ => record _ _ _) fun _ => raises_ite (fun _ => ?_) fun _ => raises_pure _
  exact raises_bind (record _ _ _) fun _ => print

theorem usual_tpmMeasurePl {n : Nat} (hn : n < 32) (source : UInt64) :
    Raises E (tpmMeasurePl hw n source) := by
  have record (r : UInt32 × Digest) : Raises E (recordBitstream n r) :=
    raises_ite (fun _ => raises_pure _) fun _ =>
      raises_bind (raises_act _) fun _ => raises_pure _
  refine raises_bind (raises_header hn) fun h => raises_ite (fun _ => ?_) fun _ => ?_
  · refine raises_bind (raises_bind (raises_loadMem _ _) fun _ => ?_) fun _ => record _
    refine raises_bind ?_ fun _ => ?_
    · refine raises_bind (raises_when fun _ => raises_throw Usual.hang) fun _ => ?_
      exact raises_bind (raises_wait hw Usual.hang) fun _ => raises_call hw _
    · refine raises_bind (raises_shaDigest hw Usual.hang) fun _ => ?_
      exact raises_bind (raises_act _) fun _ => raises_pure _
  · refine raises_bind (raises_bind (raises_ask _) fun blocks => ?_) fun _ => record _
    cases aesBlockLoop (h.unEncryptedDataWordLength <<< 2) 0 blocks with
    | none => exact raises_throw Usual.hang
    | some status =>
      refine raises_bind (raises_ask _) fun _ => raises_bind (raises_ask _) fun finish => ?_
      refine raises_bind (raises_call hw _) fun _ => ?_
      cases finish with
      | stuck => exact raises_throw Usual.hang
      | done => exact raises_pure _
      | timeout => exact raises_pure _

theorem usual_checkPartition (n : Nat) (h : PartitionHeader) (inst : XFsblPs)
    (loadAddress : UInt64) : Raises E (checkPartition hw n h inst loadAddress) := by
  have chk {c : Call} : Raises E (checked hw c) := usual_checked hw _
  refine raises_bind (raises_when fun _ => usual_checkedAs hw _ (by decide)) fun _ => ?_
  refine raises_bind (raises_when fun _ => ?_) fun _ => raises_bind ?_ fun _ => ?_
  · exact raises_bind (usual_checkedAs hw _ (by decide)) fun _ => chk
  · refine raises_ite (fun _ => raises_pure _) fun _ => raises_bind (usual_ensure (by decide)) fun _ => ?_
    refine raises_bind (raises_loadMem _ _) fun _ => raises_bind (raises_shaDigest hw Usual.hang) fun _ => ?_
    exact raises_bind (usual_deviceRead hw _ _) fun _ => usual_ensure (by decide)
  · refine raises_ite (fun _ => raises_pure _) fun _ => raises_ite (fun _ => chk) fun _ => ?_
    exact raises_bind (usual_ensure (by decide)) fun _ => raises_bind (usual_ensure (by decide)) fun _ => chk

/-! The handoff table decides how the making of an entry ends. -/

section Table

variable {P : World → Prop} {n : Nat} (hP : ∀ w w', SameTable w w' → P w → P w')
  (hu : ∀ h destinationCpu, RaisesFrom P E (updateHandoff n h destinationCpu)) (hn : n < 32)

include hP hu hn

theorem usual_partitionCopy : RaisesFrom P E (partitionCopy hw n) := by
  refine raisesFrom_bind hP (raises_header hn) (frame_header n) fun h => ?_
  refine raisesFrom_bind hP raises_get frame_get fun w => raisesFrom_ite (fun _ => hu _ _) fun _ => ?_
  refine raisesFrom_ite (fun _ => (raises_pure _).raisesFrom) fun _ => ?_
  exact (usual_copyToMemory hw n h w.inst _).raisesFrom

omit hP in
theorem usual_finishPartition (h : PartitionHeader) (destinationCpu : UInt32)
    (loadAddress : UInt64) : RaisesFrom P E (finishPartition hw n h destinationCpu loadAddress) := by
  refine raisesFrom_ite (fun _ => ?_) fun _ => (raises_pure _).raisesFrom
  intro w hw' e w' he
  rcases bind_error.1 he with he | ⟨_, v, -, he⟩
  · exact raisesFrom_ite (fun _ => hu _ _) (fun _ => (raises_pure _).raisesFrom) w hw' _ _ he
  · exact usual_tpmMeasurePartition hw hn _ _ _ _ he

theorem usual_partitionValidation : RaisesFrom P E (partitionValidation hw n) := by
  have measured {c : Fsbl Unit} (hc : Frame (Loads (MeasureAct n)) c) : Frame SameTable c := by
    refine hc.mono fun _ _ h => h.emits.sameTable ?_
    rintro a ha m v rfl
    exact ha
  refine raisesFrom_bind hP (raises_header hn) (frame_header n) fun h => ?_
  refine raisesFrom_bind hP raises_get frame_get fun w => ?_
  refine raisesFrom_ite (fun _ => (raises_pure _).raisesFrom) fun _ => ?_
  refine raisesFrom_bind hP (raises_ofExcept fun _ h => ?_) (frame_ofExcept _) fun _ => ?_
  · exact getLoadAddress_error h ▸ Usual.status (by decide)
  refine raisesFrom_bind hP (usual_checkPartition hw _ _ _ _) (frame_checkPartition hw _ _ _ _)
    fun _ => ?_
  refine raisesFrom_bind hP (raises_when fun _ => ?_) (frame_when fun _ => ?_) fun _ => ?_
  · refine raises_bind (raises_ask _) fun _ => ?_
    exact raises_bind (raises_act _) fun _ => usual_ensure (by decide)
  · refine frame_bind (frame_ask _) fun _ => ?_
    exact frame_bind (frame_act fun _ => rfl) fun _ => frame_ensure _ _
  refine raisesFrom_bind hP (raises_when fun _ => ?_) (measured (frame_downloadBitstream hw n h _))
    fun _ => ?_
  · exact raises_bind (usual_tpmMeasurePl hw hn _) fun _ => usual_ensure (by decide)
  refine raisesFrom_bind hP (raises_when fun _ => ?_) (frame_afterBitstream hw h) fun _ => ?_
  · exact raises_bind (usual_checked hw _) fun _ => usual_checkedAs hw _ (by decide)
  exact usual_finishPartition hw hu hn h _ _

end Table

theorem raises_updateHandoff (n : Nat) (h : PartitionHeader) (destinationCpu : UInt32) :
    RaisesFrom (fun _ => True) Proper (updateHandoff n h destinationCpu) := by
  refine Raises.raisesFrom ?_
  refine raises_bind raises_get fun _ => raises_ite (fun _ => ?_) fun _ => raises_pure _
  exact raises_ite (fun _ => raises_act _) fun _ => raises_throw ⟨fun _ => nofun, nofun⟩

/-- The look at the next header stays in bounds where the table counts at most 32 partitions. -/
theorem usual_checkPmuFw {n : Nat} {w w' : World} {e : Halt} (hn : n < 32)
    (hN : (w.inst.imageHeader.imageHeaderTable.noOfPartitions - 1).toNat < 32)
    (h : checkPmuFw hw n w = .error e w') : E e := by
  rcases bind_error.1 h with h | ⟨done, v, -, h⟩
  · rcases bind_error.1 h with h | ⟨ph, v, hv, h⟩
    · exact raises_header hn _ _ _ h
    obtain ⟨-, rfl⟩ := header_ok.1 hv
    split at h
    · rcases bind_error.1 h with h | ⟨v, v', hv, h⟩
      · simp at h
      obtain ⟨rfl, rfl⟩ := get_ok.1 hv
      split at h
      · exact raises_bind (raises_header (by omega)) (fun _ => raises_pure _) _ _ _ h
      · simp at h
    · simp at h
  · refine raises_when (fun _ => ?_) _ _ _ h
    exact raises_bind (raises_act _) fun _ => raises_wait hw Usual.hang

/-- **A load stays within the partition headers.** -/
theorem proper_partitionLoad {n : Nat} {w w' : World} {e : Halt} (hn : n < 32)
    (hN : (w.inst.imageHeader.imageHeaderTable.noOfPartitions - 1).toNat < 32)
    (h : partitionLoad hw n w = .error e w') : Proper e := by
  rcases bind_error.1 h with h | ⟨owned, v, h1, h⟩
  · exact usual_partitionHeaderValidation hw hn _ _ _ h
  by_cases ho : owned = true
  · subst ho
    rcases bind_error.1 h with h | ⟨_, v₁, h2, h⟩
    · exact usual_partitionCopy hw (fun _ _ _ h => h) (raises_updateHandoff n) hn _ trivial _ _ h
    rcases bind_error.1 h with h | ⟨_, v₂, h3, h⟩
    · exact usual_partitionValidation hw (fun _ _ _ h => h) (raises_updateHandoff n) hn _ trivial _
        _ h
    obtain ⟨_, -, m1⟩ := (frame_partitionHeaderValidation (R := Loads (PlaceAct n)) hw n).ok h1
    obtain ⟨_, -, m2⟩ := (frame_partitionCopy hw n).ok h2
    obtain ⟨_, -, m3⟩ := (frame_partitionValidation hw n).ok h3
    refine usual_checkPmuFw hw hn ?_ h
    rwa [m3.imageHeader, m2.imageHeader, m1.imageHeader]
  · rw [when, if_neg ho] at h
    simp at h

end Proper

/-! ## Stage 2 -/

/-- In bounds, and not the JTAG status. -/
def BootError (e : Halt) : Prop := Inside e ∧ e ≠ .status xfsblStatusJtag

section BootError

private theorem bst {code : UInt32} (h : code ≠ xfsblStatusJtag) (h0 : code ≠ xfsblSuccess) :
    BootError (.status code) := ⟨Usual.status h0, by simpa using h⟩

private theorem bhang : BootError .hang := ⟨Usual.hang, nofun⟩

theorem bootError_ensure {p : Prop} [Decidable p] {code : UInt32} (h : code ≠ xfsblStatusJtag)
    (h0 : code ≠ xfsblSuccess) : Raises BootError (ensure p code) :=
  raises_ensure fun _ => bst h h0

theorem validateImageHeaderTable_ne_jtag (t : ImageHeaderTable) :
    validateImageHeaderTable t ≠ xfsblStatusJtag := by
  unfold validateImageHeaderTable
  repeat' split
  all_goals decide

theorem bootError_checked {c : Call} (h : c.OfBootDevice) : Raises BootError (checked hw c) :=
  raises_checked hw fun t => bst (hw.callStatus t c h)

theorem bootError_deviceRead (srcAddress : UInt32) (length : Nat) :
    Raises BootError (deviceRead hw srcAddress length) :=
  raises_deviceRead hw ⟨Usual.noDeviceOps, nofun⟩ fun _ _ => bst (hw.copyStatus _ _ _ _)

theorem bootError_readHeaderBytes (fromImageHdr : Bool) (flashImageOffsetAddress address : UInt32) :
    Raises BootError (readHeaderBytes hw fromImageHdr flashImageOffsetAddress address) :=
  raises_ite (fun _ => raises_bind raises_get fun _ => raises_pure _) fun _ =>
    bootError_deviceRead hw _ _

theorem bootError_readPartitionHeaders (fromImageHdr : Bool)
    (flashImageOffsetAddress runningCpu imageHeaderTableAddressOffset : UInt32)
    (remaining index : Nat) (partitionHeaderAddress : UInt32) (entryCount : Nat)
    (h : index + remaining ≤ 32) :
    Raises BootError (readPartitionHeaders hw fromImageHdr flashImageOffsetAddress runningCpu
      imageHeaderTableAddressOffset remaining index partitionHeaderAddress entryCount) := by
  induction remaining generalizing index partitionHeaderAddress entryCount with
  | zero => exact raises_pure _
  | succ remaining ih =>
    refine raises_bind (bootError_readHeaderBytes hw _ _ _) fun bytes => ?_
    refine raises_bind (raises_bind (raises_when fun hi => ?_) fun _ => ?_) fun _ => ?_
    · exact absurd (show index < 32 by omega) hi
    · exact raises_bind (raises_modifyInst _) fun _ => raises_act _
    · exact raises_bind (raises_when fun _ => raises_modify) fun _ => ih _ _ _ (by omega)

theorem bootError_readImageHeader (fromImageHdr : Bool)
    (flashImageOffsetAddress runningCpu imageHeaderTableAddressOffset : UInt32) :
    Raises BootError (readImageHeader hw fromImageHdr flashImageOffsetAddress runningCpu
      imageHeaderTableAddressOffset) := by
  refine raises_bind (bootError_readHeaderBytes hw _ _ _) fun bytes => ?_
  refine raises_bind (raises_bind (raises_modifyInst _) fun _ => raises_act _) fun _ => ?_
  refine raises_ite (fun _ => raises_pure _) fun _ => ?_
  intro w e w' he
  rcases bind_error.1 he with he | ⟨_, v, h1, he⟩
  · exact raises_ensure (bst (validateImageHeaderTable_ne_jtag _)) _ _ _ he
  · obtain ⟨-, -, hN⟩ := validateImageHeaderTable_success (ensure_ok.1 h1).1
    exact bootError_readPartitionHeaders hw _ _ _ _ _ _ _ _ (by omega) _ _ _ he

theorem bootError_validateHeader : Raises BootError (validateHeader hw) := by
  have buffer (srcAddress : UInt32) (length : Nat) :
      Raises BootError (readToBuffer hw srcAddress length) := by
    refine raises_bind (raises_when fun _ => raises_throw ⟨⟨⟨fun _ => nofun, nofun⟩, nofun⟩, nofun⟩) fun _ => ?_
    exact raises_bind (bootError_deviceRead hw _ _) fun _ => raises_modify
  refine raises_bind (raises_readReg hw _) fun _ => raises_bind raises_get fun _ => ?_
  refine raises_bind (raises_modifyInst _) fun _ => raises_bind (buffer _ _) fun _ => ?_
  refine raises_bind ?_ fun _ => ?_
  · refine raises_bind raises_get fun w => raises_bind (raises_modifyInst _) fun _ => ?_
    refine raises_bind (raises_readReg hw _) fun _ => ?_
    refine raises_bind (bootError_ensure (by decide) (by decide)) fun _ => ?_
    refine raises_ite (fun _ => ?_) fun _ => bootError_readImageHeader hw _ _ _ _
    refine raises_bind (raises_modifyInst _) fun _ => raises_bind ?_ fun _ =>
      bootError_readImageHeader hw _ _ _ _
    refine raises_bind (bootError_deviceRead hw _ _) fun field => ?_
    refine raises_bind (bootError_ensure (by decide) (by decide)) fun _ => ?_
    refine raises_bind (bootError_deviceRead hw _ _) fun _ => ?_
    refine raises_bind (bootError_checked hw trivial) fun _ => raises_bind (buffer _ _) fun _ => ?_
    refine raises_bind (bootError_checked hw trivial) fun _ => ?_
    exact raises_bind raises_get fun _ => bootError_ensure (by decide) (by decide)
  · refine raises_bind (raises_header (by omega)) fun _ => raises_bind (raises_loadMem _ _) fun _ => ?_
    refine raises_bind (raises_shaDigest hw bhang) fun _ => ?_
    exact raises_bind (raises_act _) fun _ => raises_act _

theorem bootError_useDevice (controller : Controller) (device : Device) (bootMode : UInt32) :
    Raises BootError (useDevice hw controller device bootMode) :=
  raises_bind (bootError_ensure (by decide) (by decide)) fun _ =>
    raises_bind (raises_modifyInst _) fun _ => bootError_checked hw trivial

theorem bootError_secondaryBootDeviceInit : Raises BootError (secondaryBootDeviceInit hw) := by
  refine raises_bind raises_get fun w => raises_ite (fun _ => raises_pure _) fun _ => ?_
  split
  · exact raises_throw (bst (by decide) (by decide))
  · refine raises_bind (bootError_useDevice hw _ _ _) fun _ => ?_
    exact raises_bind (raises_modifyInst _) fun _ => bootError_validateHeader hw

/-- The mode register never says JTAG. -/
def NotJtagMode : Prop :=
  ∀ t, hw.in32 t .bootModeUser &&& crlApbBootModeUserBootModeMask ≠ xfsblJtagBootMode

/-- **Stage 2 gives the JTAG status in JTAG mode only**, and stays within the partition headers. -/
theorem raises_bootDeviceInitAndValidate {w w' : World} {e : Halt}
    (h : bootDeviceInitAndValidate hw w = .error e w') :
    Inside e ∧ (NotJtagMode hw → e ≠ .status xfsblStatusJtag) := by
  have rest {c : Fsbl Unit} (hc : Raises BootError c) {v v' : World}
      (he : c v = .error e v') : Inside e ∧ (NotJtagMode hw → e ≠ .status xfsblStatusJtag) :=
    ⟨(hc _ _ _ he).1, fun _ => (hc _ _ _ he).2⟩
  rcases bind_error.1 h with h | ⟨_, v, -, h⟩
  · rcases bind_error.1 h with h | ⟨reg, v, hreg, h⟩
    · exact absurd h (raises_readReg (E := fun _ => False) hw _ _ _ _)
    rcases bind_error.1 h with h | ⟨_, v₁, -, h⟩
    · exact absurd h (raises_modifyInst (E := fun _ => False) _ _ _ _)
    rcases bind_error.1 h with h | ⟨_, v₂, -, h⟩
    · exact rest (raises_when fun _ => bootError_checked (c := .csuDmaInit) hw trivial) h
    split at h
    · rename_i hj
      obtain ⟨rfl, -⟩ := throw_error.1 h
      refine ⟨Usual.status (by decide), fun hmode => ?_⟩
      injection hreg with hreg _
      exact absurd (by rw [← hj, ← hreg]) (hmode _)
    · refine rest ?_ h
      split
      · exact bootError_useDevice hw _ _ _
      · exact raises_throw (bst (by decide) (by decide))
  · refine rest ?_ h
    refine raises_bind (bootError_validateHeader hw) fun _ => ?_
    exact raises_bind (raises_modifyInst _) fun _ => bootError_secondaryBootDeviceInit hw

end BootError

/-! ## Handoff -/

/-- In bounds, and not a request to go on after an early handoff. -/
def HandoffError (e : Halt) : Prop :=
  Inside e ∧ e ≠ .status xfsblStatusContinuePartitionLoad ∧
    e ≠ .status xfsblStatusContinueOtherHandoff

section HandoffError

/-- The codes a handoff may return. -/
private def HandoffCode (code : UInt32) : Prop :=
  code ≠ xfsblSuccess ∧ code ≠ xfsblStatusContinuePartitionLoad ∧
    code ≠ xfsblStatusContinueOtherHandoff

private instance (code : UInt32) : Decidable (HandoffCode code) :=
  inferInstanceAs (Decidable (_ ∧ _ ∧ _))

private theorem hst {code : UInt32} (h : HandoffCode code) : HandoffError (.status code) :=
  ⟨Usual.status h.1, by simpa using h.2.1, by simpa using h.2.2⟩

private theorem hexit {address : UInt64} {flags : UInt32} : HandoffError (.exit address flags) :=
  ⟨⟨⟨fun _ => nofun, nofun⟩, nofun⟩, nofun, nofun⟩

theorem raises_setCpuPwrSettings (cpuSettings flags : UInt32) :
    Raises HandoffError (setCpuPwrSettings hw cpuSettings flags) := by
  have power {cpuId code : UInt32} (h : powerUpCpuError cpuId = some code) :
      HandoffError (.status code) := by
    unfold powerUpCpuError at h
    repeat' split at h
    all_goals
      cases h
    all_goals exact hst (by decide)
  refine raises_ite (fun _ => ?_) fun _ => raises_pure _
  split
  · rename_i hcode
    refine raises_bind (raises_checkedAs hw (power hcode)) fun _ => ?_
    exact raises_bind (raises_act _) fun _ => raises_act _
  · exact raises_throw (hst (by decide))

theorem raises_handoffEntries (h : PartitionHeader) (inst : XFsblPs) (vs : List HandoffValue)
    (running : Option (UInt64 × UInt32)) :
    Raises HandoffError (handoffEntries hw h inst vs running) := by
  induction vs generalizing running with
  | nil => exact raises_pure _
  | cons v vs ih =>
    refine raises_ite (fun _ => raises_bind ?_ fun _ => ih _) fun _ => ?_
    · refine raises_bind (raises_checkedAs hw (hst (by decide))) fun _ => ?_
      refine raises_bind (raises_statusOf (raises_setCpuPwrSettings hw _ _)) fun _ => ?_
      refine raises_bind (raises_ensure fun _ => hst (by decide)) fun _ => ?_
      exact raises_bind (raises_act _) fun _ => raises_setCpuPwrSettings hw _ _
    · exact raises_bind (raises_ensure fun _ => hst (by decide)) fun _ => ih _

/-- **A handoff stays within the partition headers and never asks to continue.** -/
theorem raises_handoff {n : Nat} (hn : n < 32) : Raises HandoffError (handoff hw n) := by
  have chk {c : Call} {code : UInt32} (h : HandoffCode code) :
      Raises HandoffError (checkedAs hw c code) := raises_checkedAs hw (hst h)
  refine raises_bind (raises_act _) fun _ => raises_bind (raises_header hn) fun _ => ?_
  refine raises_bind raises_get fun w => raises_bind (raises_when fun _ => ?_) fun _ => ?_
  · refine raises_bind (chk (by decide)) fun _ => ?_
    exact raises_bind (chk (by decide)) fun _ => chk (by decide)
  refine raises_bind (raises_when fun _ => ?_) fun _ => ?_
  · refine raises_bind (raises_readReg hw _) fun _ => ?_
    exact raises_ite (fun _ => raises_bind (raises_act _) fun _ => raises_throw hexit) fun _ =>
      raises_throw hexit
  refine raises_bind (chk (by decide)) fun _ => ?_
  refine raises_bind (raises_handoffEntries hw _ _ _ _) fun running => raises_throw ?_
  unfold handoffExit
  repeat' split
  all_goals exact hexit

end HandoffError

end Functions

end MeasuredBoot
