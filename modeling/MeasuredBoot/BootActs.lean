import MeasuredBoot.Initialization
import MeasuredBoot.PartitionActs

/-!
# The acts of stages 1 and 2

`fsblInitialize_ok`: a successful stage 1 wrote the log header and the ROM event, behind
stores outside the log. `validateHeader_ok`: a successful header validation read one
table, the partition headers it counts unless it names a secondary device, and
recorded one FSBL event. `bootDevice_ok` puts the passes together (`DeviceBooted`).
-/

namespace MeasuredBoot

open Prog

/-- The fields of the instance that stage 2 leaves alone once the boot mode is read. -/
def XFsblPs.platform (i : XFsblPs) : UInt32 × UInt32 × UInt32 × UInt32 :=
  (i.processorID, i.a53ExecState, i.resetReason, i.primaryBootDevice)

/-- The processor and the reset reason, as stage 1 found them. -/
def XFsblPs.reset (i : XFsblPs) : UInt32 × UInt32 := (i.processorID, i.resetReason)

/-- A part of the instance the header validation does not write. -/
class Unwritten {β : Type} (f : XFsblPs → β) : Prop where
  write : ∀ (i : XFsblPs) attributes auth offset header device secondary values,
    f { i with
      bootHdrAttributes := attributes
      authEnabled := auth
      imageOffsetAddress := offset
      imageHeader := header
      deviceOps := device
      secondaryBootDevice := secondary
      handoffValues := values } = f i

instance : Unwritten XFsblPs.platform where
  write _ _ _ _ _ _ _ _ := rfl

instance : Unwritten XFsblPs.tcmEccInitStatus where
  write _ _ _ _ _ _ _ _ := rfl

instance : Unwritten XFsblPs.reset where
  write _ _ _ _ _ _ _ _ := rfl

/-- What `XFsbl_ValidateHeader` does not write. -/
class Unvalidated {β : Type} (f : XFsblPs → β) : Prop where
  write : ∀ (i : XFsblPs) attributes auth offset header values,
    f { i with
      bootHdrAttributes := attributes
      authEnabled := auth
      imageOffsetAddress := offset
      imageHeader := header
      handoffValues := values } = f i

instance {β : Type} (f : XFsblPs → β) [Unwritten f] : Unvalidated f where
  write i attributes auth offset header values :=
    Unwritten.write i attributes auth offset header i.deviceOps i.secondaryBootDevice values

instance : Unvalidated XFsblPs.deviceOps where
  write _ _ _ _ _ _ := rfl

/-- Acts of one kind, and an instance that is the same for `f`. -/
def Keeps {β : Type} (f : XFsblPs → β) (A : Act → Prop) (w w' : World) : Prop :=
  Emits A w w' ∧ f w'.inst = f w.inst

section Keeps

variable {β : Type} {f : XFsblPs → β} {A B : Act → Prop} {w w' : World}

instance : IsPreorder World (Keeps f A) where
  refl w := ⟨refl_of (Emits A) w, rfl⟩
  trans := by
    rintro w w' w'' ⟨h, e⟩ ⟨h', e'⟩
    exact ⟨trans_of (Emits A) h h', e'.trans e⟩

instance : Silent (Keeps f A) where
  tick w := ⟨Silent.tick w, rfl⟩

theorem keeps_act {a : Act} (hf : ∀ i vs, f { i with handoffValues := vs } = f i) (h : A a) :
    Keeps f A w (w.apply a) := by
  refine ⟨emits_act h, ?_⟩
  cases a <;> first | rfl | exact hf _ _

theorem Keeps.mono (hAB : ∀ a, A a → B a) (h : Keeps f A w w') : Keeps f B w w' :=
  ⟨h.1.mono hAB, h.2⟩

/-- No acts at all. -/
theorem Keeps.does (h : Keeps f (fun _ => False) w w') : Does [] w w' := by
  obtain ⟨⟨as, ha, hd⟩, -⟩ := h
  obtain rfl := List.eq_nil_iff_forall_not_mem.2 ha
  exact hd

theorem frame_modifyInst_keeps {g : XFsblPs → XFsblPs} (hf : ∀ i, f (g i) = f i)
    (hv : ∀ i, (g i).handoffValues = i.handoffValues) : Frame (Keeps f A) (modifyInst g) := by
  refine frame_modify fun w => ⟨emits_of_view rfl ?_, hf _⟩
  simp only [World.view, hv]

theorem frame_modify_keeps {g : World → World} (ht : ∀ w, (g w).trace = w.trace)
    (hv : ∀ w, (g w).view = w.view) (hi : ∀ w, (g w).inst = w.inst) :
    Frame (Keeps f A) (modify g : Fsbl Unit) :=
  frame_modify fun w => ⟨emits_of_view (ht w) (hv w), by rw [hi]⟩

end Keeps

/-- Acts of one kind, and an unchanged platform. -/
abbrev Boots (A : Act → Prop) : World → World → Prop := Keeps XFsblPs.platform A

/-- Acts of one kind, and unchanged headers. -/
abbrev Inits (A : Act → Prop) : World → World → Prop := Keeps XFsblPs.imageHeader A

instance {β : Type} {f : XFsblPs → β} [Unvalidated f] (A : Act → Prop) : Steps A (Keeps f A) where
  act _ _ h := keeps_act (fun _ _ => Unvalidated.write ..) h

theorem inits_act {A : Act → Prop} {a : Act} {w : World} (h : A a) : Inits A w (w.apply a) :=
  keeps_act (fun _ _ => rfl) h

/-! ## Stage 1 -/

/-- Stores of stage 1 away from the log. -/
def SetupAct : Act → Prop
  | .eccInit start _ => tcmBase ≤ start
  | .stored start bytes => start = 0 ∧ bytes = lowVectors
  | _ => False

/-- The acts of stage 1. -/
def InitAct (hw : Hw) : Act → Prop
  | .logHeader => True
  | .recorded .rom e => e = romEvent hw
  | a => SetupAct a

theorem initAct_of_setupAct {hw : Hw} (a : Act) (h : SetupAct a) : InitAct hw a := by
  cases a <;> first | exact h | exact h.elim

theorem setupAct_of_tcmInit (a : Act) (h : TcmInit a) : SetupAct a := by
  cases a <;> first | exact h | exact h.elim

theorem Loads.inits {A B : Act → Prop} (hAB : ∀ a, A a → B a) {w w' : World} (h : Loads A w w') :
    Inits B w w' := by
  obtain ⟨as, ha, hm⟩ := h
  exact ⟨⟨as, fun a h => hAB a (ha a h), hm.toDoes⟩, hm.imageHeader⟩

section Stage1

variable (hw : Hw)

section Silent

variable {R : World → World → Prop} [Silent R]

theorem frame_getResetReason : Frame R (getResetReason hw) := by
  refine frame_bind (frame_readReg hw _) fun val => ?_
  refine frame_ite (fun _ => frame_pure _) fun _ => ?_
  refine frame_bind (frame_readReg hw _) fun storage => ?_
  exact frame_ite (fun _ => frame_pure _) fun _ => frame_pure _

theorem frame_systemInit (resetReason : UInt32) : Frame R (systemInit hw resetReason) := by
  refine frame_bind (frame_when fun _ => ?_) fun _ => ?_
  · refine frame_bind (frame_readReg hw _) fun version => frame_when fun _ => ?_
    exact frame_bind (frame_checkedAs hw _ _) fun _ => frame_checkedAs hw _ _
  · exact frame_bind (frame_when fun _ => frame_wait hw _) fun _ => frame_checked hw _

end Silent

theorem frame_processorInit {β : Type} {f : XFsblPs → β} {A : Act → Prop}
    (hp : ∀ i processor state, f { i with processorID := processor, a53ExecState := state } = f i)
    (hv : ∀ i vs, f { i with handoffValues := vs } = f i) (hA : A (.stored 0 lowVectors)) :
    Frame (Keeps f A) (processorInit hw) := by
  refine frame_bind (frame_readReg hw _) fun mpidr => ?_
  refine frame_bind (frame_readReg hw _) fun platform => ?_
  refine frame_bind (frame_ofExcept _) fun clusterId => ?_
  refine frame_ite (fun _ => frame_modifyInst_keeps (fun _ => hp _ _ _) fun _ => rfl) fun _ => ?_
  refine frame_ite (fun _ => ?_) fun _ => frame_throw _
  refine frame_bind (frame_readReg hw _) fun regValue => ?_
  refine frame_bind (frame_modifyInst_keeps (fun _ => hp _ _ _) fun _ => rfl) fun _ => ?_
  exact frame_act fun _ => keeps_act hv hA

theorem frame_tcmInit : Frame (Inits SetupAct) (tcmInit hw) :=
  frame_bind frame_get fun _ => frame_when fun _ =>
    (frame_tcmEccInit hw _).mono fun _ _ => Loads.inits setupAct_of_tcmInit

/-- Everything of stage 1 before the measurement. -/
def setup : Fsbl Unit := do
  let resetReason ← getResetReason hw
  modifyInst fun i => { i with resetReason }
  when (resetReason ≠ xfsblMasterOnlyReset) (systemInit hw resetReason)
  processorInit hw
  when (resetReason ≠ xfsblMasterOnlyReset) do
    tcmInit hw
    checked hw .boardInit

theorem fsblInitialize_eq : fsblInitialize hw = (do setup hw; tpmMeasureRom hw) := by
  simp only [fsblInitialize, setup, bind_assoc]

theorem frame_setup : Frame (Inits SetupAct) (setup hw) := by
  refine frame_bind (frame_getResetReason hw) fun resetReason => ?_
  refine frame_bind (frame_modifyInst_keeps (fun _ => rfl) fun _ => rfl) fun _ => ?_
  refine frame_bind (frame_when fun _ => frame_systemInit hw _) fun _ => ?_
  refine frame_bind (frame_processorInit hw (fun _ _ _ => rfl) (fun _ _ => rfl) ⟨rfl, rfl⟩) fun _ => ?_
  refine frame_when fun _ => ?_
  exact frame_bind (frame_tcmInit hw) fun _ => frame_checked hw _

theorem frame_fsblInitialize : Frame (Inits (InitAct hw)) (fsblInitialize hw) := by
  rw [fsblInitialize_eq]
  refine frame_bind ((frame_setup hw).mono fun _ _ h => ⟨h.1.mono initAct_of_setupAct, h.2⟩)
    fun _ => ?_
  exact frame_bind (frame_act fun _ => inits_act trivial) fun _ => frame_act fun _ => inits_act rfl

theorem fsblInitialize_ok {w w' : World} {u : Unit} (h : fsblInitialize hw w = .ok u w') :
    w'.inst.imageHeader = w.inst.imageHeader ∧ ∃ pre, (∀ a ∈ pre, SetupAct a) ∧
      Does (pre ++ [.logHeader, .recorded .rom (romEvent hw)]) w w' := by
  rw [fsblInitialize_eq] at h
  obtain ⟨_, v, h1, h⟩ := bind_ok.1 h
  obtain ⟨⟨pre, hpre, hd⟩, hi⟩ := (frame_setup hw).ok h1
  obtain ⟨_, v₁, h2, h⟩ := bind_ok.1 h
  obtain rfl := act_ok.1 h2
  obtain rfl := act_ok.1 h
  exact ⟨hi, pre, hpre, hd.trans ((Does.act v _).trans (.act _ _))⟩

end Stage1

/-! ## Stage 2 -/

/-- The reading of headers. -/
def ReadAct : Act → Prop
  | .tableRead _ => True
  | .headerRead _ => True
  | _ => False

/-- The acts of stage 2. -/
def BootAct : Act → Prop
  | .tableRead _ => True
  | .headerRead _ => True
  | .hashed .fsbl _ _ => True
  | .recorded .fsbl e => ∃ d, e = fsblEvent d
  | _ => False

theorem bootAct_of_readAct (a : Act) (h : ReadAct a) : BootAct a := by
  cases a <;> first | exact h | exact h.elim

section Stage2

variable (hw : Hw) {β : Type} {f : XFsblPs → β} [Unvalidated f]

theorem frame_tpmMeasureFsbl : Frame (Keeps f BootAct) (tpmMeasureFsbl hw) := by
  refine frame_bind (frame_header 0) fun h => ?_
  refine frame_bind (frame_loadMem _ _) fun input => ?_
  refine frame_bind (frame_shaDigest hw input) fun d => ?_
  exact frame_bind (frame_step (A := BootAct) trivial) fun _ =>
    frame_step (A := BootAct) ⟨d, rfl⟩

omit [Unvalidated f] in
theorem frame_useDevice {A : Act → Prop}
    (hf : ∀ i device, f { i with deviceOps := device } = f i) (controller : Controller)
    (device : Device) (bootMode : UInt32) :
    Frame (Keeps f A) (useDevice hw controller device bootMode) := by
  refine frame_bind (frame_ensure _ _) fun _ => ?_
  refine frame_bind (frame_modifyInst_keeps (fun _ => hf _ _) fun _ => rfl) fun _ => ?_
  exact frame_checked hw _

theorem frame_setHeader (i : Nat) (h : PartitionHeader) : Frame (Keeps f ReadAct) (setHeader i h) := by
  refine frame_bind (frame_when fun _ => frame_throw _) fun _ => ?_
  refine frame_bind (frame_modifyInst_keeps (fun _ => Unvalidated.write ..) fun _ => rfl) fun _ => ?_
  exact frame_step (A := ReadAct) trivial

theorem frame_readHeaderBytes {R : World → World → Prop} [Silent R] (fromImageHdr : Bool)
    (flashImageOffsetAddress address : UInt32) :
    Frame R (readHeaderBytes hw fromImageHdr flashImageOffsetAddress address) :=
  frame_ite (fun _ => frame_bind frame_get fun _ => frame_pure _) fun _ => frame_deviceRead hw _ _

theorem frame_readPartitionHeaders (fromImageHdr : Bool)
    (flashImageOffsetAddress runningCpu imageHeaderTableAddressOffset : UInt32)
    (remaining index : Nat) (partitionHeaderAddress : UInt32) (entryCount : Nat) :
    Frame (Keeps f ReadAct) (readPartitionHeaders hw fromImageHdr flashImageOffsetAddress runningCpu
      imageHeaderTableAddressOffset remaining index partitionHeaderAddress entryCount) := by
  induction remaining generalizing index partitionHeaderAddress entryCount with
  | zero => exact frame_pure _
  | succ remaining ih =>
    refine frame_bind (frame_readHeaderBytes hw _ _ _) fun bytes => ?_
    refine frame_bind (frame_setHeader _ _) fun _ => ?_
    refine frame_bind (frame_when fun _ => ?_) fun _ => ih _ _ _
    exact frame_modify_keeps (fun _ => rfl) (fun _ => rfl) fun _ => rfl

theorem frame_setTable (t : ImageHeaderTable) : Frame (Keeps f ReadAct) (setTable t) :=
  frame_bind (frame_modifyInst_keeps (fun _ => Unvalidated.write ..) fun _ => rfl) fun _ =>
    frame_step (A := ReadAct) trivial

theorem frame_readImageHeader (fromImageHdr : Bool)
    (flashImageOffsetAddress runningCpu imageHeaderTableAddressOffset : UInt32) :
    Frame (Keeps f ReadAct) (readImageHeader hw fromImageHdr flashImageOffsetAddress runningCpu
      imageHeaderTableAddressOffset) := by
  refine frame_bind (frame_readHeaderBytes hw _ _ _) fun bytes => ?_
  refine frame_bind (frame_setTable _) fun _ => ?_
  refine frame_ite (fun _ => frame_pure _) fun _ => ?_
  exact frame_bind (frame_ensure _ _) fun _ => frame_readPartitionHeaders hw _ _ _ _ _ _ _ _

omit [Unvalidated f] in
theorem frame_readToBuffer {A : Act → Prop} (srcAddress : UInt32)
    (length : Nat) : Frame (Keeps f A) (readToBuffer hw srcAddress length) := by
  refine frame_bind (frame_when fun _ => frame_throw _) fun _ => ?_
  refine frame_bind (frame_deviceRead hw _ _) fun bytes => ?_
  exact frame_modify_keeps (fun _ => rfl) (fun _ => rfl) fun _ => rfl

omit [Unvalidated f] in
theorem frame_authenticateHeaders {A : Act → Prop}
    (imageOffsetAddress imageHeaderTableAddressOffset efuseCtrl : UInt32) :
    Frame (Keeps f A) (authenticateHeaders hw imageOffsetAddress imageHeaderTableAddressOffset
      efuseCtrl) := by
  refine frame_bind (frame_deviceRead hw _ _) fun field => ?_
  refine frame_bind (frame_ensure _ _) fun _ => ?_
  refine frame_bind (frame_deviceRead hw _ _) fun _ => ?_
  refine frame_bind (frame_checked hw _) fun _ => ?_
  refine frame_bind (frame_readToBuffer hw _ _) fun _ => ?_
  refine frame_bind (frame_checked hw _) fun _ => ?_
  exact frame_bind frame_get fun w => frame_ensure _ _

theorem frame_readHeaders (imageOffsetAddress : UInt32) :
    Frame (Keeps f ReadAct) (readHeaders hw imageOffsetAddress) := by
  refine frame_bind frame_get fun w => ?_
  refine frame_bind (frame_modifyInst_keeps (fun _ => Unvalidated.write ..) fun _ => rfl) fun _ => ?_
  refine frame_bind (frame_readReg hw _) fun efuseCtrl => ?_
  refine frame_bind (frame_ensure _ _) fun _ => ?_
  refine frame_ite (fun _ => ?_) fun _ => frame_readImageHeader hw _ _ _ _
  refine frame_bind (frame_modifyInst_keeps (fun _ => Unvalidated.write ..) fun _ => rfl) fun _ => ?_
  refine frame_bind (frame_authenticateHeaders hw _ _ _) fun _ => ?_
  exact frame_readImageHeader hw _ _ _ _

theorem frame_validateHeader : Frame (Keeps f BootAct) (validateHeader hw) := by
  refine frame_bind (frame_readReg hw _) fun multiBootOffset => ?_
  refine frame_bind frame_get fun w => ?_
  refine frame_bind (frame_modifyInst_keeps (fun _ => Unvalidated.write ..) fun _ => rfl) fun _ => ?_
  refine frame_bind (frame_readToBuffer hw _ _) fun _ => ?_
  refine frame_bind ?_ fun _ => frame_tpmMeasureFsbl hw
  exact (frame_readHeaders hw _).mono fun _ _ => Keeps.mono bootAct_of_readAct

end Stage2

section Devices

variable (hw : Hw) {β : Type} {f : XFsblPs → β} [Unwritten f]

theorem frame_secondaryBootDeviceInit : Frame (Keeps f BootAct) (secondaryBootDeviceInit hw) := by
  refine frame_bind frame_get fun w => frame_ite (fun _ => frame_pure _) fun _ => ?_
  split
  · exact frame_throw _
  · refine frame_bind (frame_useDevice hw (fun _ _ => Unwritten.write ..) _ _ _) fun _ => ?_
    refine frame_bind (frame_modifyInst_keeps (fun _ => Unwritten.write ..) fun _ => rfl) fun _ => ?_
    exact frame_validateHeader hw

omit [Unwritten f] in
theorem frame_primaryBootDeviceInit {A : Act → Prop}
    (hp : ∀ i mode, f { i with primaryBootDevice := mode } = f i)
    (hd : ∀ i device, f { i with deviceOps := device } = f i) :
    Frame (Keeps f A) (primaryBootDeviceInit hw) := by
  refine frame_bind (frame_readReg hw _) fun reg => ?_
  refine frame_bind (frame_modifyInst_keeps (fun _ => hp _ _) fun _ => rfl) fun _ => ?_
  refine frame_bind (frame_when fun _ => frame_checked hw _) fun _ => ?_
  refine frame_ite (fun _ => frame_throw _) fun _ => ?_
  split
  · exact frame_useDevice hw hd _ _ _
  · exact frame_throw _

theorem frame_bootDeviceInitAndValidate
    (hp : ∀ i mode, f { i with primaryBootDevice := mode } = f i) :
    Frame (Keeps f BootAct) (bootDeviceInitAndValidate hw) := by
  refine frame_bind (frame_primaryBootDeviceInit hw hp fun _ _ => Unwritten.write ..) fun _ => ?_
  refine frame_bind (frame_validateHeader hw) fun _ => ?_
  refine frame_bind (frame_modifyInst_keeps (fun _ => Unwritten.write ..) fun _ => rfl) fun _ => ?_
  exact frame_secondaryBootDeviceInit hw

end Devices

end MeasuredBoot
