import MeasuredBoot.MeasureActs
import MeasuredBoot.PartitionLoad

/-!
# The acts of `XFsbl_PartitionLoad`

`frame_partitionLoad`: any run of a load makes only acts of its own partition
(`LoadAct n`). `partitionLoad_ok`: what a successful load did (`PartitionLoaded`), in
the order of the source: the header test, then the acts of the copy (`CopyActs`),
of the validation with the measurement (`ValidActs`), and of the PMU wake-up.
-/

namespace MeasuredBoot

open Prog

/-- The lowest address `XFsbl_TcmEccInit` initialises. -/
def tcmBase : Nat := 0xFFE00000

/-- A transfer of the TCM initialisation. -/
def TcmInit : Act → Prop
  | .eccInit start _ => tcmBase ≤ start
  | _ => False

/-- The acts of a load of partition `n` that are not measurements. -/
def PlaceAct (n : Nat) : Act → Prop
  | .headerChecked m _ => m = n
  | .handoffEntry m _ => m = n
  | .placed m _ _ _ => m = n
  | .eccInit start _ => tcmBase ≤ start
  | .pmuWoken => True
  | _ => False

/-- The acts of a load of partition `n` that neither touch memory nor measure. -/
def CheckAct (n : Nat) : Act → Prop
  | .headerChecked m _ => m = n
  | .handoffEntry m _ => m = n
  | .pmuWoken => True
  | _ => False

/-- The acts of a load of partition `n`. -/
def LoadAct (n : Nat) : Act → Prop
  | .headerChecked m _ => m = n
  | .handoffEntry m _ => m = n
  | .placed m _ _ _ => m = n
  | .eccInit start _ => tcmBase ≤ start
  | .pmuWoken => True
  | a => MeasureAct n a

/-- The acts of a load of partition `n` before the PMU check: those that keep count, those that are
not measurements, and all of them. -/
def HandleAct (n : Nat) (a : Act) : Prop := CheckAct n a ∧ a.Inner

def BodyPlaceAct (n : Nat) (a : Act) : Prop := PlaceAct n a ∧ a.Inner

def BodyAct (n : Nat) (a : Act) : Prop := LoadAct n a ∧ a.Inner

theorem placeAct_of_checkAct {n : Nat} (a : Act) (h : CheckAct n a) : PlaceAct n a := by
  cases a <;> first | exact h | exact h.elim

theorem loadAct_of_placeAct {n : Nat} (a : Act) (h : PlaceAct n a) : LoadAct n a := by
  cases a <;> first | exact h | exact h.elim

theorem loadAct_of_measureAct {n : Nat} (a : Act) (h : MeasureAct n a) : LoadAct n a := by
  cases a <;> first | exact h | exact h.elim

theorem bodyPlaceAct_of_tcmInit {n : Nat} (a : Act) (h : TcmInit a) : BodyPlaceAct n a := by
  cases a <;> first | exact ⟨h, trivial⟩ | exact h.elim

theorem bodyAct_of_bodyPlaceAct {n : Nat} (a : Act) (h : BodyPlaceAct n a) : BodyAct n a :=
  ⟨loadAct_of_placeAct a h.1, h.2⟩

/-- A bitstream over a PS-only reset: it stays in the PL. -/
def PlKept (h : PartitionHeader) (resetReason : UInt32) : Prop :=
  h.toPl = true ∧ resetReason = xfsblPsOnlyReset

instance (n : Nat) : Steps (MeasureAct n) (Loads (LoadAct n)) :=
  Steps.of_imp (loadAct_of_measureAct (n := n))

instance (n : Nat) (R : World → World → Prop) [Steps (CheckAct n) R] : Steps (HandleAct n) R :=
  Steps.of_imp (A := HandleAct n) (B := CheckAct n) fun _ h => h.1

instance (n : Nat) : Steps (HandleAct n) (Loads (BodyPlaceAct n)) :=
  Steps.of_imp (A := HandleAct n) (B := BodyPlaceAct n) fun a h => ⟨placeAct_of_checkAct a h.1, h.2⟩

instance (n : Nat) : Steps (HandleAct n) (Loads (BodyAct n)) :=
  Steps.of_imp (A := HandleAct n) (B := BodyAct n) fun a h =>
    ⟨loadAct_of_placeAct a (placeAct_of_checkAct a h.1), h.2⟩

instance (n : Nat) : Steps (RecordAct n) (Loads (BodyAct n)) :=
  Steps.of_imp (A := RecordAct n) (B := BodyAct n) fun a h => ⟨loadAct_of_measureAct a h.1, h.2⟩

instance (n : Nat) : Steps (CheckAct n) (Loads (PlaceAct n)) :=
  Steps.of_imp (placeAct_of_checkAct (n := n))

instance (n : Nat) : Steps (CheckAct n) (Loads (LoadAct n)) :=
  Steps.of_imp fun a h => loadAct_of_placeAct (n := n) a (placeAct_of_checkAct a h)

/-! ## Frames -/

section Frames

variable (hw : Hw) (n : Nat)

theorem frame_modifyInst {A : Act → Prop} {f : XFsblPs → XFsblPs}
    (hf : ∀ i, (f i).fixed = i.fixed) (hv : ∀ i, (f i).handoffValues = i.handoffValues) :
    Frame (Loads A) (modifyInst f) := by
  refine frame_modify fun w => ⟨[], by simp, ⟨(List.append_nil _).symm, ?_⟩, hf _⟩
  simp only [World.view, World.replay_nil, hv]

section Check

variable {R : World → World → Prop} [Steps (HandleAct n) R]

theorem frame_partitionHeaderValidation : Frame R (partitionHeaderValidation hw n) := by
  refine frame_bind (frame_header n) fun h => ?_
  refine frame_bind (frame_step (A := HandleAct n) ⟨rfl, trivial⟩) fun _ => ?_
  refine frame_bind (frame_ensure _ _) fun _ => ?_
  refine frame_ite (fun _ => frame_pure _) fun _ => ?_
  refine frame_bind frame_get fun w => ?_
  refine frame_bind (frame_readReg hw _) fun e => ?_
  refine frame_ite (fun _ => frame_pure _) fun _ => ?_
  exact frame_bind (frame_ensure _ _) fun _ => frame_pure _

theorem frame_updateHandoff (h : PartitionHeader) (destinationCpu : UInt32) :
    Frame R (updateHandoff n h destinationCpu) := by
  refine frame_bind frame_get fun w => ?_
  refine frame_ite (fun _ => ?_) fun _ => frame_pure _
  exact frame_ite (fun _ => frame_step (A := HandleAct n) ⟨rfl, trivial⟩) fun _ => frame_throw _

theorem frame_finishPartition [Steps (RecordAct n) R] (h : PartitionHeader)
    (destinationCpu : UInt32) (loadAddress : UInt64) :
    Frame R (finishPartition hw n h destinationCpu loadAddress) := by
  refine frame_when fun _ => ?_
  refine frame_bind (frame_when fun _ => frame_updateHandoff n h _) fun _ => ?_
  exact frame_tpmMeasurePartition hw n _

theorem frame_pmuFwLoadDone {R : World → World → Prop} [Silent R] : Frame R (pmuFwLoadDone n) := by
  refine frame_bind (frame_header n) fun h => ?_
  refine frame_ite (fun _ => ?_) fun _ => frame_pure _
  refine frame_bind frame_get fun w => ?_
  exact frame_ite (fun _ => frame_bind (frame_header _) fun _ => frame_pure _) fun _ => frame_pure _

theorem frame_checkPmuFw {R : World → World → Prop} [Steps (CheckAct n) R] :
    Frame R (checkPmuFw hw n) := by
  refine frame_bind (frame_pmuFwLoadDone n) fun done => ?_
  refine frame_when fun _ => ?_
  exact frame_bind (frame_step (A := CheckAct n) trivial) fun _ => frame_wait hw _

end Check

theorem frame_eccInitLoop (fuel startAddr numBytes : Nat) (h : numBytes = 0 ∨ tcmBase ≤ startAddr) :
    Frame (Loads TcmInit) (eccInitLoop hw fuel startAddr numBytes) := by
  induction fuel generalizing startAddr numBytes with
  | zero => exact frame_pure _
  | succ fuel ih =>
    refine frame_ite (fun _ => frame_pure _) fun h0 => ?_
    have hbase : tcmBase ≤ startAddr := h.resolve_left h0
    refine frame_bind (frame_wait hw _) fun _ => ?_
    refine frame_bind (frame_act fun _ => loads_act hbase) fun _ => ?_
    refine frame_bind (frame_wait hw _) fun _ => ?_
    refine frame_bind (frame_call hw _) fun status => ?_
    exact frame_bind (frame_ensure _ _) fun _ => ih _ _ (.inr (Nat.le_add_right_of_le hbase))

theorem frame_eccInitRanges (ranges : List (Nat × Nat)) (h : ∀ r ∈ ranges, r.2 = 0 ∨ tcmBase ≤ r.1) :
    Frame (Loads TcmInit) (eccInitRanges hw ranges) := by
  induction ranges with
  | nil => exact frame_pure _
  | cons r ranges ih =>
    obtain ⟨destAddr, lengthBytes⟩ := r
    rw [List.forall_mem_cons] at h
    exact frame_bind (frame_eccInitLoop hw _ _ _ h.1) fun _ => ih h.2

theorem tcmEccRanges_base (processorID cpuId : UInt32) :
    ∀ r ∈ (tcmEccRanges processorID cpuId).1, r.2 = 0 ∨ tcmBase ≤ r.1 := by
  have h0 : tcmBase ≤ xfsblR50HighAtcmStartAddress.toNat := by decide
  have h1 : tcmBase ≤ xfsblR50HighBtcmStartAddress.toNat := by decide
  have h2 : tcmBase ≤ xfsblR51HighAtcmStartAddress.toNat := by decide
  have h3 : tcmBase ≤ xfsblR51HighBtcmStartAddress.toNat := by decide
  intro r hr
  unfold tcmEccRanges at hr
  dsimp only at hr
  repeat' split at hr
  all_goals
    simp only [List.mem_cons, List.not_mem_nil, or_false] at hr
    rcases hr with rfl | rfl <;> first | exact .inl rfl | exact .inr (by omega)

theorem frame_tcmEccInit (cpuId : UInt32) : Frame (Loads TcmInit) (tcmEccInit hw cpuId) := by
  refine frame_bind frame_get fun w => ?_
  refine frame_bind (frame_eccInitRanges hw _ (tcmEccRanges_base _ _)) fun _ => ?_
  exact frame_modifyInst (fun _ => rfl) fun _ => rfl

theorem frame_powerUpMemory {R : World → World → Prop} [Silent R] (memory : TcmMemory) :
    Frame R (powerUpMemory hw memory) := by
  cases memory <;> exact frame_checkedAs hw _ _

theorem frame_configureTcm (memory : TcmMemory) (runningCpu destinationCpu eccMask : UInt32) :
    Frame (Loads TcmInit) (configureTcm hw memory runningCpu destinationCpu eccMask) := by
  refine frame_bind (frame_when fun _ => frame_powerUpMemory hw memory) fun _ => ?_
  exact frame_bind frame_get fun w => frame_when fun _ => frame_tcmEccInit hw _

theorem frame_configureMemory (runningCpu destinationCpu : UInt32) (address : UInt64) :
    Frame (Loads TcmInit) (configureMemory hw runningCpu destinationCpu address) := by
  refine frame_ite (fun _ => frame_configureTcm hw _ _ _ _) fun _ => ?_
  refine frame_ite (fun _ => frame_configureTcm hw _ _ _ _) fun _ => ?_
  exact frame_ite (fun _ => frame_configureTcm hw _ _ _ _) fun _ => frame_pure _

theorem frame_copyToMemory (h : PartitionHeader) (inst : XFsblPs) (destinationCpu : UInt32) :
    Frame (Loads (BodyPlaceAct n)) (copyToMemory hw n h inst destinationCpu) := by
  refine frame_bind (frame_when fun _ => ?_) fun _ => ?_
  · exact frame_bind (frame_deviceRead hw _ _) fun _ => frame_pure _
  refine frame_bind (frame_ofExcept _) fun loadAddress => ?_
  refine frame_bind ?_ fun _ => ?_
  · exact (frame_configureMemory hw _ _ _).mono fun _ _ => Loads.mono bodyPlaceAct_of_tcmInit
  refine frame_bind (frame_when fun _ => frame_wait hw _) fun _ => ?_
  exact frame_deviceLoad hw n _ _ _ fun w data => loads_act ⟨rfl, trivial⟩

theorem frame_partitionCopy : Frame (Loads (BodyPlaceAct n)) (partitionCopy hw n) := by
  refine frame_bind (frame_header n) fun h => ?_
  refine frame_bind frame_get fun w => ?_
  refine frame_ite (fun _ => frame_updateHandoff n _ _) fun _ => ?_
  exact frame_ite (fun _ => frame_pure _) fun _ => frame_copyToMemory hw n _ _ _

section Silent

variable {R : World → World → Prop} [Silent R]

theorem frame_checkPartitionChecksum (h : PartitionHeader) (inst : XFsblPs) (loadAddress : UInt64) :
    Frame R (checkPartitionChecksum hw h inst loadAddress) := by
  refine frame_ite (fun _ => frame_pure _) fun _ => ?_
  refine frame_bind (frame_ensure _ _) fun _ => ?_
  refine frame_bind (frame_loadMem _ _) fun input => ?_
  refine frame_bind (frame_shaDigest hw _) fun _ => ?_
  exact frame_bind (frame_deviceRead hw _ _) fun _ => frame_ensure _ _

theorem frame_beforeBitstream (h : PartitionHeader) : Frame R (beforeBitstream hw h) :=
  frame_when fun _ => frame_bind (frame_checkedAs hw _ _) fun _ => frame_checked hw _

theorem frame_authenticatePartition (h : PartitionHeader) (inst : XFsblPs) :
    Frame R (authenticatePartition hw n h inst) := by
  refine frame_ite (fun _ => frame_pure _) fun _ => ?_
  refine frame_ite (fun _ => frame_checked hw _) fun _ => ?_
  refine frame_bind (frame_ensure _ _) fun _ => ?_
  exact frame_bind (frame_ensure _ _) fun _ => frame_checked hw _

theorem frame_afterBitstream (h : PartitionHeader) : Frame R (afterBitstream hw h) :=
  frame_when fun _ => frame_bind (frame_checked hw _) fun _ => frame_checkedAs hw _ _

theorem frame_checkPartition (h : PartitionHeader) (inst : XFsblPs) (loadAddress : UInt64) :
    Frame R (checkPartition hw n h inst loadAddress) := by
  refine frame_bind (frame_when fun _ => frame_checkedAs hw _ _) fun _ => ?_
  refine frame_bind (frame_beforeBitstream hw h) fun _ => ?_
  refine frame_bind (frame_checkPartitionChecksum hw h inst _) fun _ => ?_
  exact frame_authenticatePartition hw n h inst

end Silent

theorem frame_decryptPartition (h : PartitionHeader) (loadAddress : UInt64) :
    Frame (Loads (BodyPlaceAct n)) (decryptPartition hw n h loadAddress) := by
  refine frame_when fun _ => ?_
  refine frame_bind (frame_ask _) fun r => ?_
  exact frame_bind (frame_act fun _ => loads_act ⟨rfl, trivial⟩) fun _ => frame_ensure _ _

theorem frame_downloadBitstream {R : World → World → Prop} [Steps (PlAct n) R]
    (h : PartitionHeader) (loadAddress : UInt64) : Frame R (downloadBitstream hw n h loadAddress) :=
  frame_when fun _ => frame_bind (frame_tpmMeasurePl hw n _) fun _ => frame_ensure _ _

theorem frame_validatePlaced (h : PartitionHeader) (inst : XFsblPs) (destinationCpu : UInt32) :
    Frame (Loads (BodyAct n)) (validatePlaced hw n h inst destinationCpu) := by
  refine frame_bind (frame_ofExcept _) fun loadAddress => ?_
  refine frame_bind (frame_checkPartition hw n h inst _) fun _ => ?_
  refine frame_bind ?_ fun _ => frame_bind ?_ fun _ => ?_
  · exact (frame_decryptPartition hw n h _).mono fun _ _ => Loads.mono bodyAct_of_bodyPlaceAct
  · exact frame_downloadBitstream hw n h _
  refine frame_bind (frame_afterBitstream hw h) fun _ => ?_
  exact frame_finishPartition hw n h _ _

theorem frame_partitionValidation : Frame (Loads (BodyAct n)) (partitionValidation hw n) := by
  refine frame_bind (frame_header n) fun h => ?_
  refine frame_bind frame_get fun w => ?_
  exact frame_ite (fun _ => frame_pure _) fun _ => frame_validatePlaced hw n h _ _

theorem frame_partitionLoad : Frame (Loads (LoadAct n)) (partitionLoad hw n) := by
  refine frame_bind (frame_partitionHeaderValidation hw n) fun owned => ?_
  refine frame_when fun _ => frame_bind ?_ fun _ => ?_
  · exact (frame_partitionCopy hw n).mono fun _ _ => Loads.mono fun a h =>
      loadAct_of_placeAct a h.1
  refine frame_bind ?_ fun _ => frame_checkPmuFw hw n
  exact (frame_partitionValidation hw n).mono fun _ _ => Loads.mono fun _ h => h.1

end Frames

end MeasuredBoot
