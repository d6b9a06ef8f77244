import MeasuredBoot.HandoffRuns
import MeasuredBoot.RegularHandoff

/-!
# The build with early handoff (`XFSBL_EARLY_HANDOFF`)

An R5 is released as soon as the last partition of its application is loaded: stage 3 goes to stage
4 for it and comes back. `XFsbl_Handoff` takes the next R5 of the table then, from the static index
`CpuIndexEarlyHandoff` on; the handoff behind the last partition takes the other CPUs. Both are one
loop, which leaves the FSBL when it gets to the end of the table. The other stages
are those of the regular build.
-/

namespace MeasuredBoot

open Prog

def xihPhAttrbDestDeviceNone : UInt32 := 0x00
def xihPhAttrbDestDevicePs : UInt32 := 0x10

/-- `XFsbl_CheckEarlyHandoffCpu`. -/
def checkEarlyHandoffCpu (cpuId : UInt32) : Bool :=
  cpuId = xihPhAttrbDestCpuR5_0 ∨ cpuId = xihPhAttrbDestCpuR5_1 ∨ cpuId = xihPhAttrbDestCpuR5L

/-- The CPU of a partition as `XFsbl_CheckEarlyHandoff` sees it. -/
def PartitionHeader.earlyCpu (h : PartitionHeader) (runningCpu : UInt32) : UInt32 :=
  if h.getDestinationCpu = xihPhAttrbDestCpuNone ∧
      (h.getDestinationDevice = xihPhAttrbDestDevicePs ∨
        h.getDestinationDevice = xihPhAttrbDestDeviceNone) then runningCpu
  else h.getDestinationCpu

/-- `XFsbl_CheckEarlyHandoff`. -/
def checkEarlyHandoff (inst : XFsblPs) (partitionNum : Nat) : Bool :=
  let destinationCpu := (inst.imageHeader.header partitionNum).earlyCpu inst.processorID
  let destinationCpuNxt :=
    if partitionNum + 1 ≤ (inst.imageHeader.imageHeaderTable.noOfPartitions - 1).toNat then
      (inst.imageHeader.header (partitionNum + 1)).earlyCpu inst.processorID
    else 0
  checkEarlyHandoffCpu destinationCpu ∧ destinationCpu ≠ inst.processorID ∧
    destinationCpuNxt ≠ destinationCpu

namespace EarlyBuild

section Hw

variable (hw : Hw)

/-- Which entries the loop of `XFsbl_Handoff` takes. -/
def takes (earlyHandoff : Bool) (processorID cpuId : UInt32) : Bool :=
  (checkEarlyHandoffCpu cpuId ∧ earlyHandoff) ∨
    (¬ earlyHandoff ∧ ¬ checkEarlyHandoffCpu cpuId) ∨
    ((¬ earlyHandoff ∧ checkEarlyHandoffCpu cpuId) ∧ cpuId = processorID)

/-- What the loop does with an entry it takes. -/
def handoffEntry (h : PartitionHeader) (inst : XFsblPs) (v : HandoffValue)
    (running : Option (UInt64 × UInt32)) : Fsbl (Option (UInt64 × UInt32)) :=
  if v.cpu ≠ inst.processorID then do
    handoffOtherCpu hw h v
    pure running
  else do
    let execState := v.cpuSettings &&& xihPhAttrbA53ExecStMask
    ensure (¬ execStateMismatch inst.a53ExecState execState) xfsblErrorUnsupportedHandoff
    pure (some (v.handoffAddress, execState))

/-- The loop of `XFsbl_Handoff` over the entries from `CpuIndex` on: the new static index and the
status. At the end of the table the FSBL exits. `last`: no partition is left to load. -/
def handoffEntries (h : PartitionHeader) (inst : XFsblPs) (earlyHandoff last : Bool) :
    List HandoffValue → Nat → Option (UInt64 × UInt32) → Fsbl (Nat × UInt32)
  | [], _, running => throw (handoffExit running)
  | v :: vs, cpuIndexEarlyHandoff, running => do
    let running ←
      if takes earlyHandoff inst.processorID v.cpu then handoffEntry hw h inst v running
      else pure running
    if earlyHandoff ∧ checkEarlyHandoffCpu v.cpu then
      if last then pure (cpuIndexEarlyHandoff, xfsblStatusContinueOtherHandoff)
      else pure (cpuIndexEarlyHandoff + 1, xfsblStatusContinuePartitionLoad)
    else handoffEntries h inst earlyHandoff last vs (cpuIndexEarlyHandoff + 1) running

/-- No partition behind `n` is left to load. -/
def lastPartition (inst : XFsblPs) (n : Nat) : Bool :=
  ¬ n < (inst.imageHeader.imageHeaderTable.noOfPartitions - 1).toNat

/-- `XFsbl_Handoff` behind the reading of its header and of the instance. -/
def handoffBehind (h : PartitionHeader) (inst : XFsblPs) (n : Nat) (earlyHandoff : Bool)
    (cpuIndexEarlyHandoff : Nat) : Fsbl (Nat × UInt32) := do
  when (inst.resetReason ≠ xfsblMasterOnlyReset) do
    checkedAs hw .pmInit xfsblErrorPmInit
    protectionConfig hw
  when (inst.primaryBootDevice = xfsblJtagBootMode) (jtagExit hw)
  checkedAs hw .hookBeforeHandoff xfsblErrorHookBeforeHandoff
  let cpuIndex := if earlyHandoff then cpuIndexEarlyHandoff else 0
  handoffEntries hw h inst earlyHandoff (lastPartition inst n) (inst.handoffValues.drop cpuIndex)
    cpuIndexEarlyHandoff none

/-- `XFsbl_Handoff`. -/
def handoff (n : Nat) (earlyHandoff : Bool) (cpuIndexEarlyHandoff : Nat) : Fsbl (Nat × UInt32) := do
  act .handoffCalled
  let partitionHeader ← header n
  let w ← get
  handoffBehind hw partitionHeader w.inst n earlyHandoff cpuIndexEarlyHandoff

/-- Its status, and the static index where it comes back. -/
def handoffStatus (n : Nat) (earlyHandoff : Bool) (cpuIndexEarlyHandoff : Nat) :
    Fsbl (Nat × UInt32) := fun w =>
  match handoff hw n earlyHandoff cpuIndexEarlyHandoff w with
  | .error (.status code) w' => .ok (cpuIndexEarlyHandoff, code) w'
  | r => r

/-! ## The stages -/

/-- Stage 3; `XFsbl_CheckEarlyHandoff` decides what comes next. -/
def runStage3 (n : Nat) (earlyHandoff : Bool) : Fsbl (Locals × Bool) := do
  let status ← loadAndMark hw n
  if status ≠ xfsblSuccess then pure (⟨.stageErr, n, status + xfsblErrorStage3⟩, earlyHandoff)
  else do
    let w ← get
    let early := checkEarlyHandoff w.inst n
    let status := if early then 1 else 0
    if n < (w.inst.imageHeader.imageHeaderTable.noOfPartitions - 1).toNat then
      if early then pure (⟨.stage4, n, status⟩, true)
      else pure (⟨.stage3, n + 1, status⟩, earlyHandoff)
    else pure (⟨.stage4, n, status⟩, early)

def runStage4 (n : Nat) (earlyHandoff : Bool) (cpuIndexEarlyHandoff : Nat) :
    Fsbl (Locals × Bool × Nat) := do
  let (cpuIndexEarlyHandoff, status) ← handoffStatus hw n earlyHandoff cpuIndexEarlyHandoff
  if status = xfsblStatusContinuePartitionLoad then
    pure (⟨.stage3, n + 1, status⟩, earlyHandoff, cpuIndexEarlyHandoff)
  else if status = xfsblStatusContinueOtherHandoff then
    pure (⟨.stage4, n, status⟩, false, cpuIndexEarlyHandoff)
  else if status ≠ xfsblSuccess then
    pure (⟨.stageErr, n, status + xfsblErrorStage4⟩, earlyHandoff, cpuIndexEarlyHandoff)
  else pure (⟨.stageDefault, n, status⟩, earlyHandoff, cpuIndexEarlyHandoff)

/-- `main` with its local `EarlyHandoff`, and the static index of `XFsbl_Handoff`. -/
structure State where
  main : MainState
  earlyHandoff : Bool
  cpuIndexEarlyHandoff : Nat

/-- The state after a pass. -/
def mainStep (s : State) : State :=
  let locals := s.main.locals
  match locals.fsblStage with
  | .stage3 =>
    match runStage3 hw locals.partitionNum s.earlyHandoff s.main.world with
    | .ok (l, early) w => { s with main := ⟨l, w⟩, earlyHandoff := early }
    | .error h w => { s with main := ⟨{ locals with fsblStage := .ended h }, w⟩ }
  | .stage4 =>
    match runStage4 hw locals.partitionNum s.earlyHandoff s.cpuIndexEarlyHandoff s.main.world with
    | .ok (l, early, index) w => ⟨⟨l, w⟩, early, index⟩
    | .error h w => { s with main := ⟨{ locals with fsblStage := .ended h }, w⟩ }
  | _ => { s with main := MeasuredBoot.mainStep hw s.main }

def boot : TransSys State where
  init s := (MeasuredBoot.boot hw).init s.main ∧ s.earlyHandoff = false ∧ s.cpuIndexEarlyHandoff = 0
  next s t := s.main.Running ∧ t = mainStep hw s

end Hw

/-! ## What parts of a handoff release -/

def releasedCpu : Act → Option UInt32
  | .released cpuSettings => some (cpuSettings &&& xihPhAttrbDestCpuMask)
  | _ => none

/-- The CPUs that acts release, in order. -/
def releasedCpus (as : List Act) : List UInt32 := as.filterMap releasedCpu

/-- Exactly these CPUs are released. -/
def Frees (cpus : List UInt32) (w w' : World) : Prop :=
  ∃ as, releasedCpus as = cpus ∧ (∀ a ∈ as, HandoffAct a) ∧ Moves as w w'

/-- Some of these CPUs are released, in this order. -/
def FreesSome (cpus : List UInt32) (w w' : World) : Prop :=
  ∃ freed, freed.Sublist cpus ∧ Frees freed w w'

/-- An error of a handoff, which leads to the error stage. -/
def Refused (e : Halt) : Prop :=
  ∃ code, e = .status code ∧ code ≠ xfsblSuccess ∧ code ≠ xfsblStatusContinuePartitionLoad ∧
    code ≠ xfsblStatusContinueOtherHandoff

/-- A part of a handoff releases `cpus` and gives a `V`, or ends in an `E` behind the releases, or is
refused before. -/
def Releases {α : Type} (V : α → Prop) (E : Halt → Prop) (cpus : List UInt32) (c : Fsbl α) : Prop :=
  ∀ w, match c w with
    | .ok a w' => V a ∧ Frees cpus w w'
    | .error e w' => Refused e ∧ FreesSome cpus w w' ∨ E e ∧ Frees cpus w w'

section Releases

variable {α β : Type} {V : α → Prop} {U : β → Prop} {E : Halt → Prop} {cpus freed : List UInt32}
  {c : Fsbl α} {f : α → Fsbl β} {w w' w'' : World} {hw : Hw} {h : PartitionHeader} {inst : XFsblPs}
  {v : HandoffValue} {vs skipped : List HandoffValue} {running : Option (UInt64 × UInt32)}

theorem releasedCpus_append (as bs : List Act) :
    releasedCpus (as ++ bs) = releasedCpus as ++ releasedCpus bs := List.filterMap_append

theorem Frees.refl (w : World) : Frees [] w w := ⟨[], rfl, by simp, .refl w⟩

theorem Frees.trans (h : Frees cpus w w') (h' : Frees freed w' w'') :
    Frees (cpus ++ freed) w w'' := by
  obtain ⟨as, rfl, ha, hm⟩ := h
  obtain ⟨bs, rfl, hb, hm'⟩ := h'
  exact ⟨as ++ bs, releasedCpus_append as bs, forall_mem_append ha hb, hm.trans hm'⟩

theorem frees_of_ticks (h : Ticks w w') : Frees [] w w' := ⟨[], rfl, by simp, h.moves⟩

theorem Frees.some (h : Frees cpus w w') : FreesSome cpus w w' := ⟨cpus, List.Sublist.refl _, h⟩

/-- The releases of a run are in its trace. -/
theorem Frees.trace (h : Frees cpus w w') :
    releasedCpus w'.trace = releasedCpus w.trace ++ cpus := by
  obtain ⟨as, rfl, -, hm⟩ := h
  rw [hm.trace, releasedCpus_append]

theorem releases_bind (hc : Releases V (fun _ => False) cpus c)
    (hf : ∀ a, V a → Releases U E freed (f a)) : Releases U E (cpus ++ freed) (c >>= f) := by
  intro w
  rw [bind_apply]
  have hcw := hc w
  cases hr : c w with
  | error e w₁ =>
    rw [hr] at hcw
    rcases hcw with ⟨hrefused, some, hsub, hfrees⟩ | ⟨hfalse, -⟩
    · exact .inl ⟨hrefused, some, List.sublist_append_of_sublist_left hsub, hfrees⟩
    · exact hfalse.elim
  | ok a w₁ =>
    rw [hr] at hcw
    obtain ⟨hv, hfrees⟩ := hcw
    have hfw := hf a hv w₁
    show match f a w₁ with
      | .ok b w' => _
      | .error e w' => _
    cases hr' : f a w₁ with
    | ok b w₂ =>
      rw [hr'] at hfw
      exact ⟨hfw.1, hfrees.trans hfw.2⟩
    | error e w₂ =>
      rw [hr'] at hfw
      rcases hfw with ⟨hrefused, some, hsub, hfrees'⟩ | ⟨he, hfrees'⟩
      · exact .inl ⟨hrefused, cpus ++ some, (List.Sublist.refl cpus).append hsub,
          hfrees.trans hfrees'⟩
      · exact .inr ⟨he, hfrees.trans hfrees'⟩

/-- A part that releases nothing, before one that does. -/
theorem releases_behind (hc : Releases (fun _ => True) (fun _ => False) [] c)
    (hf : ∀ a, Releases U E freed (f a)) : Releases U E freed (c >>= f) :=
  releases_bind hc fun a _ => hf a

/-- What does not come back ends a part. -/
theorem releases_ends (hc : Releases (fun _ => False) E cpus c) :
    Releases U E cpus (c >>= f) := by
  intro w
  have hcw := hc w
  rw [bind_apply]
  cases hr : c w with
  | ok a w₁ =>
    rw [hr] at hcw
    exact hcw.1.elim
  | error e w₁ =>
    rw [hr] at hcw
    exact hcw

theorem releases_pure {a : α} (h : V a) : Releases V E [] (pure a : Fsbl α) :=
  fun w => ⟨h, .refl w⟩

theorem releases_throw {e : Halt} (h : E e) : Releases V E [] (throw e : Fsbl α) :=
  fun w => .inr ⟨h, .refl w⟩

/-- A part that only takes time. -/
theorem releases_of_ticks (hf : Frame Ticks c) (hr : Raises Refused c) :
    Releases (fun _ => True) E [] c := by
  intro w
  have hfw := hf w
  cases hc : c w with
  | ok a w₁ =>
    rw [hc] at hfw
    exact ⟨trivial, frees_of_ticks hfw⟩
  | error e w₁ =>
    rw [hc] at hfw
    exact .inl ⟨hr _ _ _ hc, (frees_of_ticks hfw).some⟩

/-- A code that says neither success nor how to go on. -/
def RefusedCode (code : UInt32) : Prop :=
  code ≠ xfsblSuccess ∧ code ≠ xfsblStatusContinuePartitionLoad ∧
    code ≠ xfsblStatusContinueOtherHandoff

instance (code : UInt32) : Decidable (RefusedCode code) := inferInstanceAs (Decidable (_ ∧ _ ∧ _))

theorem refused_status {code : UInt32} (h : RefusedCode code) : Refused (.status code) :=
  ⟨code, rfl, h⟩

theorem releases_checkedAs {k : Call} {code : UInt32} (h : RefusedCode code) :
    Releases (fun _ => True) E [] (checkedAs hw k code) :=
  releases_of_ticks (frame_checkedAs hw _ _) (raises_checkedAs hw (refused_status h))

theorem releases_ensure {p : Prop} [Decidable p] {code : UInt32} (h : RefusedCode code) :
    Releases (fun _ => True) E [] (ensure p code) :=
  releases_of_ticks (frame_ensure _ _) (raises_ensure fun _ => refused_status h)

theorem releases_act {a : Act} (ha : HandoffAct a) (h : releasedCpus [a] = cpus) :
    Releases (fun _ => True) E cpus (act a) :=
  fun w => ⟨trivial, [a], h, by simpa using ha, .act w a⟩

theorem powerUpCpuError_refused {cpuId code : UInt32} (h : powerUpCpuError cpuId = some code) :
    RefusedCode code := by
  unfold powerUpCpuError at h
  repeat' split at h
  all_goals
    cases h
  all_goals decide

theorem releases_setCpuPwrSettings {cpuSettings : UInt32} :
    Releases (fun _ => True) E [cpuSettings &&& xihPhAttrbDestCpuMask]
      (setCpuPwrSettings hw cpuSettings xfsblCpuSwrst) := by
  rw [setCpuPwrSettings_swrst]
  cases hp : powerUpCpuError (cpuSettings &&& xihPhAttrbDestCpuMask) with
  | some code =>
    refine releases_behind (releases_checkedAs (powerUpCpuError_refused hp)) fun _ => ?_
    refine releases_behind (releases_act trivial rfl) fun _ => ?_
    exact releases_act trivial rfl
  | none =>
    exact fun w => .inl ⟨refused_status (by decide), [], List.nil_sublist _, .refl w⟩

/-- Another CPU's entry. -/
theorem releases_handoffOtherCpu :
    Releases (fun _ => True) E [v.cpu] (handoffOtherCpu hw h v) := by
  have hpower : Releases (fun _ => True) (fun _ => False) []
      (statusOf (setCpuPwrSettings hw v.cpuSettings xfsblCpuPowerUp)) :=
    fun w => ⟨trivial, .refl w⟩
  have code : RefusedCode xfsblErrorUnavailableCpu ∧ RefusedCode xfsblErrorPwrUpCpu := by decide
  refine releases_behind (releases_checkedAs code.1) fun _ => ?_
  refine releases_behind hpower fun _ => ?_
  refine releases_behind (releases_ensure code.2) fun _ => ?_
  refine releases_behind (releases_act trivial rfl) fun _ => ?_
  exact releases_setCpuPwrSettings

end Releases

/-! ## The loop -/

/-- What the loop gives behind the entry of an early handoff at `index`. -/
def behindEntry (last : Bool) (index : Nat) : Nat × UInt32 :=
  if last then (index, xfsblStatusContinueOtherHandoff)
  else (index + 1, xfsblStatusContinuePartitionLoad)

theorem behindEntry_ne_success {last : Bool} {index : Nat} :
    (behindEntry last index).2 ≠ xfsblSuccess := by
  have h : xfsblStatusContinueOtherHandoff ≠ xfsblSuccess ∧
      xfsblStatusContinuePartitionLoad ≠ xfsblSuccess := by decide
  cases last
  · exact h.2
  · exact h.1

/-- The CPUs the handoff behind the last partition releases. -/
def regularCpus (runningCpu : UInt32) (vs : List HandoffValue) : List UInt32 :=
  (vs.map HandoffValue.cpu).filter fun cpu => ¬ checkEarlyHandoffCpu cpu ∧ cpu ≠ runningCpu

section Loop

variable {hw : Hw} {h : PartitionHeader} {inst : XFsblPs} {v : HandoffValue}
  {vs skipped : List HandoffValue} {running : Option (UInt64 × UInt32)} {last early : Bool}
  {n index : Nat} {E : Halt → Prop} {w : World}

/-- An early handoff passes the other entries. -/
theorem handoffEntries_skip (hs : ∀ u ∈ skipped, checkEarlyHandoffCpu u.cpu = false) :
    handoffEntries hw h inst true last (skipped ++ vs) index running =
      handoffEntries hw h inst true last vs (index + skipped.length) running := by
  induction skipped generalizing index with
  | nil => rfl
  | cons u skipped ih =>
    obtain ⟨hu, hs⟩ := List.forall_mem_cons.1 hs
    have hpass : handoffEntries hw h inst true last (u :: (skipped ++ vs)) index running =
        handoffEntries hw h inst true last (skipped ++ vs) (index + 1) running := by
      rw [handoffEntries]
      simp [takes, hu]
    rw [List.cons_append, hpass, ih hs, List.length_cons, Nat.add_assoc, Nat.add_comm 1]

/-- It stops behind an R5. -/
theorem handoffEntries_early (hv : checkEarlyHandoffCpu v.cpu = true) :
    handoffEntries hw h inst true last (v :: vs) index running =
      handoffEntry hw h inst v running >>= fun _ => pure (behindEntry last index) := by
  rw [handoffEntries, if_pos (by simp [takes, hv])]
  unfold behindEntry
  cases last
  all_goals simp [hv]

/-- The regular handoff goes through the whole table. -/
theorem handoffEntries_regular :
    handoffEntries hw h inst false last (v :: vs) index running =
      (if takes false inst.processorID v.cpu then handoffEntry hw h inst v running
        else pure running) >>= handoffEntries hw h inst false last vs (index + 1) := by
  rw [handoffEntries]
  split <;> rfl

/-- Another CPU's entry is released, the running CPU's one is kept. -/
theorem releases_handoffEntry (hr : v.cpu ≠ inst.processorID) :
    Releases (· = running) (fun _ => False) [v.cpu] (handoffEntry hw h inst v running) := by
  rw [handoffEntry, if_pos hr]
  exact @releases_bind _ _ (fun _ => True) _ _ [v.cpu] [] _ _ releases_handoffOtherCpu
    fun _ _ => releases_pure rfl

theorem releases_runningEntry (hr : v.cpu = inst.processorID) :
    Releases (· = some (v.handoffAddress, v.cpuSettings &&& xihPhAttrbA53ExecStMask))
      (fun _ => False) [] (handoffEntry hw h inst v running) := by
  rw [handoffEntry, if_neg (not_not.2 hr)]
  exact releases_behind (releases_ensure (by decide)) fun _ => releases_pure rfl

/-- **The early handoff** releases the first R5 from the static index on, and stops there. -/
theorem releases_early (hs : ∀ u ∈ skipped, checkEarlyHandoffCpu u.cpu = false)
    (hv : checkEarlyHandoffCpu v.cpu = true) (hr : v.cpu ≠ inst.processorID) :
    Releases (· = behindEntry last (index + skipped.length)) E [v.cpu]
      (handoffEntries hw h inst true last (skipped ++ v :: vs) index running) := by
  rw [handoffEntries_skip hs, handoffEntries_early hv]
  exact @releases_bind _ _ (· = running) _ _ [v.cpu] [] _ _ (releases_handoffEntry hr)
    fun _ _ => releases_pure rfl

theorem regularCpus_cons (runningCpu : UInt32) : regularCpus runningCpu (v :: vs) =
    (if ¬ checkEarlyHandoffCpu v.cpu ∧ v.cpu ≠ runningCpu then [v.cpu] else []) ++
      regularCpus runningCpu vs := by
  unfold regularCpus
  rw [List.map_cons, List.filter_cons]
  by_cases hc : ¬ checkEarlyHandoffCpu v.cpu ∧ v.cpu ≠ runningCpu
  · rw [if_pos hc, if_pos (decide_eq_true hc), List.singleton_append]
  · rw [if_neg hc, if_neg (fun hd => hc (of_decide_eq_true hd)), List.nil_append]

/-- **The regular handoff** releases the other CPUs of the table that are no R5, and exits. -/
theorem releases_regular (hd : (vs.map HandoffValue.cpu).Nodup) :
    Releases (fun _ => False)
      (· = handoffExit ((runningEntry inst.processorID vs).or running))
      (regularCpus inst.processorID vs)
      (handoffEntries hw h inst false last vs index running) := by
  induction vs generalizing index running with
  | nil => exact releases_throw rfl
  | cons v vs ih =>
    obtain ⟨hv, hd⟩ := List.nodup_cons.1 hd
    rw [handoffEntries_regular, regularCpus_cons]
    by_cases hr : v.cpu = inst.processorID
    · have hrest := @ih (some (v.handoffAddress, v.cpuSettings &&& xihPhAttrbA53ExecStMask))
        (index + 1) hd
      rw [runningEntry_absent (hr ▸ hv), Option.none_or] at hrest
      have htakes : takes false inst.processorID v.cpu = true := by
        unfold takes
        cases checkEarlyHandoffCpu v.cpu <;> simp [hr]
      rw [if_pos htakes, if_neg (fun hc => hc.2 hr), runningEntry_running hr]
      refine releases_bind (releases_runningEntry hr) fun r hrun => ?_
      subst hrun
      exact hrest
    rw [runningEntry_other hr]
    by_cases hc : checkEarlyHandoffCpu v.cpu = true
    · have htakes : ¬ takes false inst.processorID v.cpu = true := by simp [takes, hc, hr]
      rw [if_neg htakes, if_neg fun hn => hn.1 hc]
      refine @releases_bind _ _ (· = running) _ _ [] _ _ _ (releases_pure rfl) fun r hrun => ?_
      subst hrun
      exact ih hd
    · have htakes : takes false inst.processorID v.cpu = true := by simp [takes, hc]
      rw [if_pos htakes, if_pos ⟨hc, hr⟩]
      refine releases_bind (releases_handoffEntry hr) fun r hrun => ?_
      subst hrun
      exact ih hd

/-! ## The whole handoff -/

theorem releases_protection : Releases (fun _ => True) E []
    (when (inst.resetReason ≠ xfsblMasterOnlyReset) do
      checkedAs hw .pmInit xfsblErrorPmInit
      protectionConfig hw) := by
  have code : RefusedCode xfsblErrorPmInit ∧ RefusedCode xfsblErrorProtectionCfg := by decide
  refine releases_of_ticks (frame_when fun _ => frame_protection) (raises_when fun _ => ?_)
  refine raises_bind (raises_checkedAs hw (refused_status code.1)) fun _ => ?_
  exact raises_bind (raises_checkedAs hw (refused_status code.2)) fun _ =>
    raises_checkedAs hw (refused_status code.2)

/-- Before the table the handoff releases nothing. -/
theorem releases_handoffBehind {V : Nat × UInt32 → Prop} {cpus : List UInt32}
    (hb : inst.primaryBootDevice ≠ xfsblJtagBootMode)
    (he : Releases V E cpus (handoffEntries hw h inst early (lastPartition inst n)
      (inst.handoffValues.drop (if early then index else 0)) index none)) :
    Releases V E cpus (handoffBehind hw h inst n early index) := by
  refine releases_behind releases_protection fun _ => ?_
  rw [when, if_neg hb]
  refine releases_behind (releases_pure trivial) fun _ => ?_
  exact releases_behind (releases_checkedAs (by decide)) fun _ => he

/-- An exit of the handoff. -/
def IsExit (e : Halt) : Prop := ∃ address flags, e = .exit address flags

theorem isExit_handoffExit : IsExit (handoffExit running) := by
  unfold handoffExit
  repeat' split
  all_goals exact ⟨_, _, rfl⟩

/-- A JTAG boot releases nothing. -/
theorem releases_jtag (hb : inst.primaryBootDevice = xfsblJtagBootMode) :
    Releases (fun _ => False) IsExit [] (handoffBehind hw h inst n early index) := by
  have hread : Releases (fun _ => True) (fun _ => False) [] (readReg hw .platformInfo) :=
    releases_of_ticks (frame_readReg hw _) (raises_readReg hw _)
  have hexit : Releases (fun _ => False) IsExit [] (jtagExit hw) := by
    refine releases_behind hread fun platform => ?_
    split
    · refine releases_behind (releases_act ⟨rfl, rfl⟩ rfl) fun _ => ?_
      exact releases_throw ⟨_, _, rfl⟩
    · exact releases_throw ⟨_, _, rfl⟩
  refine releases_behind releases_protection fun _ => ?_
  rw [when, if_pos hb]
  exact releases_ends hexit

theorem handoff_start (hn : n < 32) : handoff hw n early index w =
    handoffBehind hw (w.inst.imageHeader.header n) w.inst n early index
      (w.apply .handoffCalled) := by
  have hheader : header n (w.apply .handoffCalled) =
      .ok (w.inst.imageHeader.header n) (w.apply .handoffCalled) :=
    header_ok.2 ⟨⟨hn, (header_eq hn).symm⟩, rfl⟩
  show ((header n >>= _) (w.apply .handoffCalled)) = _
  rw [bind_apply, hheader]
  rfl

end Loop

/-! ## The pass of stage 4 -/

/-- How a pass of stage 4 ends: with an error behind some of the releases, or behind all of them
back in the loop of `main` or outside of it. -/
inductive HandoffPass (V : Nat × UInt32 → Prop) (E : Halt → Prop) (cpus : List UInt32)
    (s t : State) : Prop where
  | refused : t.main.locals.fsblStage = .stageErr →
      FreesSome cpus (s.main.world.apply .handoffCalled) t.main.world → HandoffPass V E cpus s t
  | back {r : Nat × UInt32} : V r →
      Frees cpus (s.main.world.apply .handoffCalled) t.main.world →
      (r.2 = xfsblStatusContinuePartitionLoad →
        t.main.locals = ⟨.stage3, s.main.locals.partitionNum + 1, r.2⟩ ∧
          t.earlyHandoff = s.earlyHandoff) →
      (r.2 = xfsblStatusContinueOtherHandoff →
        t.main.locals = ⟨.stage4, s.main.locals.partitionNum, r.2⟩ ∧ t.earlyHandoff = false) →
      t.cpuIndexEarlyHandoff = r.1 → HandoffPass V E cpus s t
  | ended {e : Halt} : E e → t.main.locals.fsblStage = .ended e →
      Frees cpus (s.main.world.apply .handoffCalled) t.main.world → HandoffPass V E cpus s t

theorem handoff_pass {hw : Hw} {s : State} {V : Nat × UInt32 → Prop} {E : Halt → Prop}
    {cpus : List UInt32} (hs : s.main.locals.fsblStage = .stage4)
    (hn : s.main.locals.partitionNum < 32) (hV : ∀ r, V r → r.2 ≠ xfsblSuccess)
    (hE : ∀ code, ¬ E (.status code))
    (h : Releases V E cpus (handoffBehind hw
      (s.main.world.inst.imageHeader.header s.main.locals.partitionNum) s.main.world.inst
      s.main.locals.partitionNum s.earlyHandoff s.cpuIndexEarlyHandoff)) :
    HandoffPass V E cpus s (mainStep hw s) := by
  obtain ⟨⟨⟨stage, n, status⟩, w⟩, early, index⟩ := s
  obtain rfl : stage = .stage4 := hs
  have hw' := h (w.apply .handoffCalled)
  have hstart : handoff hw n early index w = handoffBehind hw (w.inst.imageHeader.header n) w.inst n
    early index (w.apply .handoffCalled) := handoff_start hn
  have hstep : mainStep hw ⟨⟨⟨.stage4, n, status⟩, w⟩, early, index⟩ =
      match runStage4 hw n early index w with
      | .ok (l, early, index) w => ⟨⟨l, w⟩, early, index⟩
      | .error h w => ⟨⟨⟨.ended h, n, status⟩, w⟩, early, index⟩ := rfl
  have hrun : runStage4 hw n early index w = (handoffStatus hw n early index >>= _) w := rfl
  rw [bind_apply] at hrun
  simp only at hw'
  rw [← hstart] at hw'
  cases hr : handoff hw n early index w with
  | ok r v =>
    obtain ⟨index', status'⟩ := r
    rw [hr] at hw'
    obtain ⟨hv, hfrees⟩ := hw'
    have hstatus : handoffStatus hw n early index w = .ok (index', status') v := by
      unfold handoffStatus
      rw [hr]
    have hload : xfsblStatusContinueOtherHandoff ≠ xfsblStatusContinuePartitionLoad := by decide
    rw [hstatus] at hrun
    rw [hstep, hrun]
    by_cases h1 : status' = xfsblStatusContinuePartitionLoad
    · simp only [h1, if_true]
      exact .back hv hfrees (fun _ => ⟨by rw [h1]; rfl, rfl⟩) (fun h2 => absurd (h2.symm.trans h1) hload)
        rfl
    by_cases h2 : status' = xfsblStatusContinueOtherHandoff
    · simp only [h2, hload, if_false, if_true]
      exact .back hv hfrees (fun h1' => absurd h1' h1) (fun _ => ⟨by rw [h2]; rfl, rfl⟩) rfl
    · simp only [h1, h2, if_false, if_pos (hV _ hv)]
      exact .refused rfl hfrees.some
  | error e v =>
    rw [hr] at hw'
    rcases hw' with ⟨⟨code, rfl, h0, h1, h2⟩, hfrees⟩ | ⟨he, hfrees⟩
    · have hstatus : handoffStatus hw n early index w = .ok (index, code) v := by
        unfold handoffStatus
        rw [hr]
      rw [hstatus] at hrun
      rw [hstep, hrun]
      simp only [h1, h2, if_false, if_pos h0]
      exact .refused rfl hfrees
    · have hstatus : handoffStatus hw n early index w = .error e v := by
        unfold handoffStatus
        rw [hr]
        cases e with
        | status code => exact absurd he (hE code)
        | _ => rfl
      rw [hstatus] at hrun
      rw [hstep, hrun]
      exact .ended he rfl hfrees

/-! ## The pass of stage 3 -/

/-- How a pass of stage 3 ends. -/
inductive LoadPass (hw : Hw) (s t : State) : Prop where
  | failed : t.main.Over → releasedCpus t.main.world.trace = releasedCpus s.main.world.trace →
      LoadPass hw s t
  | loaded {v : World} {mask : UInt32} : partitionLoad hw s.main.locals.partitionNum
        (s.main.world.apply (.loadCalled s.main.locals.partitionNum)) = .ok () v →
      t.main.world = (v.apply (.loadReturned s.main.locals.partitionNum xfsblSuccess)).apply
        (.r5Used mask) →
      t.cpuIndexEarlyHandoff = s.cpuIndexEarlyHandoff →
      (if checkEarlyHandoff v.inst s.main.locals.partitionNum then
        t.main.locals.fsblStage = .stage4 ∧
          t.main.locals.partitionNum = s.main.locals.partitionNum ∧ t.earlyHandoff = true
      else if lastPartition v.inst s.main.locals.partitionNum then
        t.main.locals.fsblStage = .stage4 ∧
          t.main.locals.partitionNum = s.main.locals.partitionNum ∧ t.earlyHandoff = false
      else t.main.locals.fsblStage = .stage3 ∧
        t.main.locals.partitionNum = s.main.locals.partitionNum + 1) → LoadPass hw s t

section Load

variable {hw : Hw} {s : State} {n : Nat} {early : Bool} {w : World}

/-- No act outside a handoff releases a CPU. -/
theorem Emits.releasedCpus {A : Act → Prop} {w w' : World} (h : Emits A w w')
    (hA : ∀ a, A a → releasedCpu a = none) :
    releasedCpus w'.trace = releasedCpus w.trace := by
  obtain ⟨as, ha, hd⟩ := h
  have hnone : EarlyBuild.releasedCpus as = [] :=
    List.filterMap_eq_nil_iff.2 fun a h => hA a (ha a h)
  rw [hd.trace, releasedCpus_append, hnone, List.append_nil]

theorem loadAct_not_released (a : Act) (h : LoadAct n a) : releasedCpu a = none := by
  cases a <;> first | rfl | exact h.elim

theorem passAct_not_released {l : Locals} (hl : l.fsblStage ≠ .stage4) (a : Act)
    (h : PassAct hw l a) : releasedCpu a = none := by
  unfold PassAct at h
  split at h
  · cases a <;> first | rfl | exact h.elim
  · rcases h with h | ⟨mask, rfl⟩ | rfl
    · cases a <;> first | rfl | exact h.elim
    · rfl
    · rfl
  · rcases h with h | rfl | ⟨status, rfl⟩ | ⟨mask, rfl⟩
    · exact loadAct_not_released a h
    all_goals rfl
  · exact absurd (by assumption) hl
  · exact h.elim

theorem final_early_stage3 : final (runStage3 hw n early w) = final (loadAndMark hw n w) := by
  refine final_seq (fun status t => ?_) w
  split
  · rfl
  · show final ((if n < (t.inst.imageHeader.imageHeaderTable.noOfPartitions - 1).toNat then
      if checkEarlyHandoff t.inst n then _ else _ else _ : Fsbl (Locals × Bool)) t) = t
    repeat' split
    all_goals rfl

theorem load_pass (hs : s.main.locals.fsblStage = .stage3)
    (hh : HeadersOk s.main.locals.partitionNum s.main.world.inst.imageHeader) :
    LoadPass hw s (mainStep hw s) := by
  obtain ⟨⟨⟨stage, n, status⟩, w⟩, early, index⟩ := s
  obtain rfl : stage = .stage3 := hs
  have hstep : mainStep hw ⟨⟨⟨.stage3, n, status⟩, w⟩, early, index⟩ =
      match runStage3 hw n early w with
      | .ok (l, early) w => ⟨⟨l, w⟩, early, index⟩
      | .error h w => ⟨⟨⟨.ended h, n, status⟩, w⟩, early, index⟩ := rfl
  have hquiet : EarlyBuild.releasedCpus (final (runStage3 hw n early w)).trace =
      EarlyBuild.releasedCpus w.trace := by
    rw [final_early_stage3, ← MeasuredBoot.final_runStage3]
    exact Emits.releasedCpus (frame_runStage hw ⟨.stage3, n, status⟩ w)
      (passAct_not_released (by nofun))
  rw [hstep]
  cases hr : runStage3 hw n early w with
  | error e v =>
    rw [hr] at hquiet
    exact .failed (.inr (.inr ⟨e, rfl⟩)) hquiet
  | ok r v =>
    obtain ⟨l, early'⟩ := r
    rw [hr] at hquiet
    obtain ⟨code, v₁, h1, h2⟩ := bind_ok.1 hr
    rcases loadAndMark_ok hh h1 with ⟨u, mask, rfl, hl, rfl⟩ | hne
    · rw [if_neg (not_not.2 rfl)] at h2
      obtain ⟨_, v₂, h3, h2⟩ := bind_ok.1 h2
      obtain ⟨rfl, rfl⟩ := get_ok.1 h3
      have hinst : ((u.apply (.loadReturned n xfsblSuccess)).apply (.r5Used mask)).inst = u.inst := rfl
      simp only [hinst] at h2
      have hlast : lastPartition u.inst n = true ↔
          ¬ n < (u.inst.imageHeader.imageHeaderTable.noOfPartitions - 1).toNat := decide_eq_true_iff
      by_cases hlt : n < (u.inst.imageHeader.imageHeaderTable.noOfPartitions - 1).toNat
      · by_cases hc : checkEarlyHandoff u.inst n = true
        · rw [if_pos hlt, if_pos hc] at h2
          obtain ⟨hp, rfl⟩ := pure_ok.1 h2
          obtain ⟨rfl, rfl⟩ := Prod.mk.inj hp
          refine .loaded hl rfl rfl ?_
          rw [if_pos hc]
          exact ⟨rfl, rfl, rfl⟩
        · rw [if_pos hlt, if_neg hc] at h2
          obtain ⟨hp, rfl⟩ := pure_ok.1 h2
          obtain ⟨rfl, rfl⟩ := Prod.mk.inj hp
          refine .loaded hl rfl rfl ?_
          rw [if_neg hc, if_neg (mt hlast.1 (not_not.2 hlt))]
          exact ⟨rfl, rfl⟩
      · rw [if_neg hlt] at h2
        obtain ⟨hp, rfl⟩ := pure_ok.1 h2
        obtain ⟨rfl, rfl⟩ := Prod.mk.inj hp
        refine .loaded hl rfl rfl ?_
        rw [if_pos (hlast.2 hlt)]
        split
        · exact ⟨rfl, rfl, by assumption⟩
        · exact ⟨rfl, rfl, by simpa using (by assumption : ¬ checkEarlyHandoff u.inst n = true)⟩
    · rw [if_pos hne] at h2
      obtain ⟨hp, -⟩ := pure_ok.1 h2
      obtain ⟨rfl, rfl⟩ := Prod.mk.inj hp
      exact .failed (.inl rfl) hquiet

end Load

end EarlyBuild

end MeasuredBoot
