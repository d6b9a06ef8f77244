import MeasuredBoot.Handoff
import MeasuredBoot.Lib.Run

/-!
# The stage machine (`xfsbl_main.c`)

`runStage` is one pass of the loop in `main`: it gives the next stage, partition
number and status. `boot` is the transition system of whole runs, one step a
pass, from any memory. Its steps are determined by the hardware.
-/

namespace MeasuredBoot

/-- `FsblStage`; `ended`: the loop was left inside a pass. -/
inductive Stage where
  | stage1
  | stage2
  | stage3
  | stage4
  | stageErr
  | stageDefault
  | ended (h : Halt)
  deriving DecidableEq

/-- The locals of `main`. -/
structure Locals where
  fsblStage : Stage
  partitionNum : Nat
  fsblStatus : UInt32

section Hw

variable (hw : Hw)

/-! ## The stages -/

def xfsblR5_0StatusMask : UInt32 := 0x2
def xfsblR5_1StatusMask : UInt32 := 0x4

/-- The R5 a partition is for, as a mask of `XFSBL_R5_USAGE_STATUS_REG`. -/
def usedRPUMask (h : PartitionHeader) (processorID : UInt32) : UInt32 :=
  let destCpu := h.effectiveCpu processorID
  if destCpu = xihPhAttrbDestCpuR5_0 ∨ destCpu = xihPhAttrbDestCpuR5L then xfsblR5_0StatusMask
  else if h.getDestinationCpu = xihPhAttrbDestCpuR5_1 then xfsblR5_1StatusMask
  else 0

def markUsedRPUCores (n : Nat) : Fsbl Unit := do
  let h ← header n
  let w ← get
  act (.r5Used (usedRPUMask h w.inst.processorID))

/-- `XFsbl_PartitionLoad` and what follows its success. -/
def loadAndMark (n : Nat) : Fsbl UInt32 := do
  act (.loadCalled n)
  let status ← statusOf (partitionLoad hw n)
  act (.loadReturned n status)
  when (status = xfsblSuccess) (markUsedRPUCores n)
  pure status

/-- The boot modes with a fallback. -/
def fallbackSupported (bootMode : UInt32) : Bool := (bootModeDevice bootMode).isSome

/-- `XFsbl_ErrorLockDown`; on a master-only reset the fallback waits for ever. -/
def errorLockDown (errorStatus : UInt32) : Fsbl Unit := do
  modifyInst fun i => { i with errorCode := errorStatus }
  let reg ← readReg hw .bootModeUser
  if fallbackSupported (reg &&& crlApbBootModeUserBootModeMask) then do
    let w ← get
    if w.inst.resetReason = xfsblMasterOnlyReset then throw .hang else throw .reset
  else throw (.exit 0 xfsblNoHandoffExit)

def runStage1 : Fsbl Locals := do
  let status ← statusOf (fsblInitialize hw)
  if status ≠ xfsblSuccess then pure ⟨.stageErr, 0, status + xfsblErrorStage1⟩
  else pure ⟨.stage2, 0, status⟩

def runStage2 : Fsbl Locals := do
  let status ← statusOf (bootDeviceInitAndValidate hw)
  if status ≠ xfsblSuccess ∧ status ≠ xfsblStatusJtag then
    pure ⟨.stageErr, 0, status + xfsblErrorStage2⟩
  else if status = xfsblStatusJtag then do
    act (.r5Used (xfsblR5_0StatusMask ||| xfsblR5_1StatusMask))
    pure ⟨.stage4, 0, status⟩
  else do
    act .r5UsageCleared
    pure ⟨.stage3, 1, status⟩

def runStage3 (n : Nat) : Fsbl Locals := do
  let status ← loadAndMark hw n
  if status ≠ xfsblSuccess then pure ⟨.stageErr, n, status + xfsblErrorStage3⟩
  else do
    let w ← get
    if n < (w.inst.imageHeader.imageHeaderTable.noOfPartitions - 1).toNat then
      pure ⟨.stage3, n + 1, status⟩
    else pure ⟨.stage4, n, status⟩

def runStage4 (n : Nat) : Fsbl Locals := do
  let status ← statusOf (handoff hw n)
  if status = xfsblStatusContinuePartitionLoad then pure ⟨.stage3, n + 1, status⟩
  else if status = xfsblStatusContinueOtherHandoff then pure ⟨.stage4, n, status⟩
  else if status ≠ xfsblSuccess then pure ⟨.stageErr, n, status + xfsblErrorStage4⟩
  else pure ⟨.stageDefault, n, status⟩

def runStageErr (l : Locals) : Fsbl Locals := do
  errorLockDown hw l.fsblStatus
  pure { l with fsblStage := .stageDefault }

/-- One pass of the loop; the last pass leaves it for the exit behind it. -/
def runStage (l : Locals) : Fsbl Locals :=
  match l.fsblStage with
  | .stage1 => runStage1 hw
  | .stage2 => runStage2 hw
  | .stage3 => runStage3 hw l.partitionNum
  | .stage4 => runStage4 hw l.partitionNum
  | .stageErr => runStageErr hw l
  | .stageDefault => throw (.exit 0 xfsblNoHandoffExit)
  | .ended h => throw h

/-! ## Runs -/

structure MainState where
  locals : Locals
  world : World

/-- The state after a pass. -/
def mainStep (s : MainState) : MainState :=
  match runStage hw s.locals s.world with
  | .ok l w => ⟨l, w⟩
  | .error h w => ⟨{ s.locals with fsblStage := .ended h }, w⟩

/-- The first world of a run: nothing in it is the program's but its own variables. -/
structure World.Initial (w : World) : Prop where
  inst : w.inst = .initial
  logPtr2 : w.logPtr2 = eventLogStart
  partition : w.partition = 1
  trace : w.trace = []

/-- The run has not ended. -/
def MainState.Running (s : MainState) : Prop := ∀ h, s.locals.fsblStage ≠ .ended h

/-- The run is in the error stage or behind it. -/
def MainState.Over (s : MainState) : Prop :=
  s.locals.fsblStage = .stageErr ∨ s.locals.fsblStage = .stageDefault ∨
    ∃ h, s.locals.fsblStage = .ended h

def boot : TransSys MainState where
  init s := s.locals = ⟨.stage1, 0, xfsblSuccess⟩ ∧ s.world.Initial
  next s t := s.Running ∧ t = mainStep hw s

end Hw

end MeasuredBoot
