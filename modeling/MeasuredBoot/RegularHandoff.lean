import MeasuredBoot.HandoffTable

/-!
# The regular handoff

`releases` is what the table asks for: each other CPU gets its reset vector, is powered up and
released, in table order; `runningEntry` is where the FSBL itself goes then.
`handoff_regular`: a handoff without an error does this and exits. A JTAG boot exits
before the table.
-/

namespace MeasuredBoot

open Prog

/-! ## What the table asks for -/

/-- One other CPU is released. The island is powered up behind the write of the reset vector. -/
def releaseActs (vector : UInt32) (v : HandoffValue) : List Act :=
  [.resetVector v.handoffAddress v.cpuSettings vector, .poweredUp v.cpuSettings,
    .released v.cpuSettings]

/-- The releases of a table. -/
def releases (runningCpu vector : UInt32) (vs : List HandoffValue) : List Act :=
  (vs.filter (·.cpu ≠ runningCpu)).flatMap (releaseActs vector)

/-- The address and the execution state of the running CPU's entry. -/
def runningEntry (runningCpu : UInt32) (vs : List HandoffValue) : Option (UInt64 × UInt32) :=
  (vs.find? (·.cpu = runningCpu)).map fun v =>
    (v.handoffAddress, v.cpuSettings &&& xihPhAttrbA53ExecStMask)

/-- The handoff releases the other CPUs of the table, and exits to the running CPU's entry. -/
def RegularHandoff (hw : Hw) (n : Nat) (w : World) : Prop :=
  ∃ w', handoff hw n w =
      .error (handoffExit (runningEntry w.inst.processorID w.inst.handoffValues)) w' ∧
    w'.trace = w.trace ++ .handoffCalled :: releases w.inst.processorID
      ((w.inst.imageHeader.header n).getVectorLocation >>> xihAttrbVectorLocationShift)
      w.inst.handoffValues

/-- No step of the handoff reports an error. -/
def NoHandoffError (hw : Hw) (n : Nat) (w : World) : Prop :=
  ∀ code w', handoff hw n w ≠ .error (.status code) w'

section Table

variable {runningCpu vector : UInt32} {v : HandoffValue} {vs : List HandoffValue}

theorem releases_other (h : v.cpu ≠ runningCpu) :
    releases runningCpu vector (v :: vs) = releaseActs vector v ++ releases runningCpu vector vs := by
  simp [releases, h]

theorem releases_running (h : v.cpu = runningCpu) :
    releases runningCpu vector (v :: vs) = releases runningCpu vector vs := by
  simp [releases, h]

theorem runningEntry_other (h : v.cpu ≠ runningCpu) :
    runningEntry runningCpu (v :: vs) = runningEntry runningCpu vs := by
  simp [runningEntry, h]

theorem runningEntry_running (h : v.cpu = runningCpu) :
    runningEntry runningCpu (v :: vs) =
      some (v.handoffAddress, v.cpuSettings &&& xihPhAttrbA53ExecStMask) := by
  simp [runningEntry, h]

theorem runningEntry_absent (h : runningCpu ∉ vs.map HandoffValue.cpu) :
    runningEntry runningCpu vs = none := by
  have hf : vs.find? (·.cpu = runningCpu) = none := by
    rw [List.find?_eq_none]
    intro v hv hc
    exact h (List.mem_map.2 ⟨v, hv, of_decide_eq_true hc⟩)
  rw [runningEntry, hf, Option.map_none]

end Table

/-! ## One entry -/

section Entries

variable {hw : Hw} {h : PartitionHeader} {inst : XFsblPs} {v : HandoffValue}
  {vs : List HandoffValue} {running r : Option (UInt64 × UInt32)} {w w' : World} {u : Unit}

/-- A reset powers the CPU up, and releases it. -/
theorem setCpuPwrSettings_swrst (cpuSettings : UInt32) :
    setCpuPwrSettings hw cpuSettings xfsblCpuSwrst =
      match powerUpCpuError (cpuSettings &&& xihPhAttrbDestCpuMask) with
      | some code => do
        checkedAs hw (.powerUpCpu cpuSettings) code
        act (.poweredUp cpuSettings)
        act (.released cpuSettings)
      | none => throw (.status xfsblErrorHandoffCpuid) := rfl

theorem setCpuPwrSettings_release {cpuSettings : UInt32}
    (hs : setCpuPwrSettings hw cpuSettings xfsblCpuSwrst w = .ok u w') :
    Does [.poweredUp cpuSettings, .released cpuSettings] w w' := by
  rw [setCpuPwrSettings_swrst] at hs
  split at hs
  · obtain ⟨_, w₁, h1, hs⟩ := bind_ok.1 hs
    obtain ⟨_, w₂, h2, hs⟩ := bind_ok.1 hs
    obtain rfl := act_ok.1 h2
    obtain rfl := act_ok.1 hs
    have hticks : Ticks w w₁ := (frame_checkedAs hw _ _).ok h1
    exact hticks.moves.toDoes.trans ((Does.act w₁ _).trans (Does.act _ _))
  · simp at hs

/-- **Another CPU's entry**: reset vector, power-up and release, once each. -/
theorem handoffOtherCpu_ok (hs : handoffOtherCpu hw h v w = .ok u w') :
    Does (releaseActs (h.getVectorLocation >>> xihAttrbVectorLocationShift) v) w w' := by
  obtain ⟨_, w₁, h1, hs⟩ := bind_ok.1 hs
  obtain ⟨status, w₂, h2, hs⟩ := bind_ok.1 hs
  obtain ⟨_, w₃, h3, hs⟩ := bind_ok.1 hs
  obtain ⟨_, w₄, h4, hs⟩ := bind_ok.1 hs
  -- the request to power up does nothing
  have hpower : statusOf (setCpuPwrSettings hw v.cpuSettings xfsblCpuPowerUp) w₁ =
      .ok xfsblSuccess w₁ := rfl
  rw [hpower] at h2
  obtain ⟨-, rfl⟩ := EStateM.Result.ok.inj h2
  obtain ⟨-, rfl⟩ := ensure_ok.1 h3
  obtain rfl := act_ok.1 h4
  have hticks : Ticks w w₁ := (frame_checkedAs hw _ _).ok h1
  exact hticks.moves.toDoes.trans ((Does.act w₁ _).trans (setCpuPwrSettings_release hs))

/-- **The loop over a table of distinct CPUs.** -/
theorem handoffEntries_ok (hd : (vs.map HandoffValue.cpu).Nodup)
    (hs : handoffEntries hw h inst vs running w = .ok r w') :
    r = (runningEntry inst.processorID vs).or running ∧
      Does (releases inst.processorID (h.getVectorLocation >>> xihAttrbVectorLocationShift) vs)
        w w' := by
  induction vs generalizing running w with
  | nil =>
    obtain ⟨rfl, rfl⟩ := pure_ok.1 hs
    exact ⟨rfl, .refl w⟩
  | cons v vs ih =>
    obtain ⟨hv, hd⟩ := List.nodup_cons.1 hd
    unfold handoffEntries at hs
    dsimp only at hs
    split at hs
    · rename_i hcpu
      obtain ⟨_, w₁, h1, hs⟩ := bind_ok.1 hs
      obtain ⟨hr, hdoes⟩ := ih hd hs
      rw [runningEntry_other hcpu, releases_other hcpu]
      exact ⟨hr, (handoffOtherCpu_ok h1).trans hdoes⟩
    · rename_i hcpu
      have hcpu : v.cpu = inst.processorID := Decidable.not_not.1 hcpu
      obtain ⟨_, w₁, h1, hs⟩ := bind_ok.1 hs
      obtain ⟨-, rfl⟩ := ensure_ok.1 h1
      obtain ⟨hr, hdoes⟩ := ih hd hs
      rw [runningEntry_absent (hcpu ▸ hv)] at hr
      rw [runningEntry_running hcpu, releases_running hcpu]
      exact ⟨hr, hdoes⟩

end Entries

/-! ## The whole handoff -/

section Handoff

variable {hw : Hw} {n : Nat} {w w' : World}

/-- The steps of a handoff end early with an error code only. -/
def IsStatus (e : Halt) : Prop := ∃ code, e = .status code

theorem status_checkedAs (c : Call) (code : UInt32) : Raises IsStatus (checkedAs hw c code) :=
  raises_checkedAs hw ⟨code, rfl⟩

theorem status_ensure {p : Prop} [Decidable p] (code : UInt32) : Raises IsStatus (ensure p code) :=
  raises_ensure fun _ => ⟨code, rfl⟩

theorem status_setCpuPwrSettings (cpuSettings flags : UInt32) :
    Raises IsStatus (setCpuPwrSettings hw cpuSettings flags) := by
  refine raises_ite (fun _ => ?_) fun _ => raises_pure _
  split
  · refine raises_bind (status_checkedAs _ _) fun _ => ?_
    exact raises_bind (raises_act _) fun _ => raises_act _
  · exact raises_throw ⟨_, rfl⟩

theorem status_handoffEntries (h : PartitionHeader) (inst : XFsblPs) (vs : List HandoffValue)
    (running : Option (UInt64 × UInt32)) :
    Raises IsStatus (handoffEntries hw h inst vs running) := by
  induction vs generalizing running with
  | nil => exact raises_pure _
  | cons v vs ih =>
    refine raises_ite (fun _ => raises_bind ?_ fun _ => ih _) fun _ => ?_
    · refine raises_bind (status_checkedAs _ _) fun _ => ?_
      refine raises_bind (raises_statusOf (status_setCpuPwrSettings _ _)) fun _ => ?_
      refine raises_bind (status_ensure _) fun _ => ?_
      exact raises_bind (raises_act _) fun _ => status_setCpuPwrSettings _ _
    · exact raises_bind (status_ensure _) fun _ => ih _

theorem status_protection :
    Raises IsStatus (do checkedAs hw .pmInit xfsblErrorPmInit; protectionConfig hw) := by
  refine raises_bind (status_checkedAs _ _) fun _ => ?_
  exact raises_bind (status_checkedAs _ _) fun _ => status_checkedAs _ _

theorem frame_protection :
    Frame Ticks (do checkedAs hw .pmInit xfsblErrorPmInit; protectionConfig hw) := by
  refine frame_bind (frame_checkedAs hw _ _) fun _ => ?_
  exact frame_bind (frame_checkedAs hw _ _) fun _ => frame_checkedAs hw _ _

/-- A handoff behind the reading of its header and of the instance. -/
def handoffBehind (hw : Hw) (h : PartitionHeader) (inst : XFsblPs) : Fsbl Unit := do
  when (inst.resetReason ≠ xfsblMasterOnlyReset) do
    checkedAs hw .pmInit xfsblErrorPmInit
    protectionConfig hw
  when (inst.primaryBootDevice = xfsblJtagBootMode) (jtagExit hw)
  checkedAs hw .hookBeforeHandoff xfsblErrorHookBeforeHandoff
  let running ← handoffEntries hw h inst inst.handoffValues none
  throw (handoffExit running)

theorem handoff_start (hn : n < 32) : handoff hw n w =
    handoffBehind hw (w.inst.imageHeader.header n) w.inst (w.apply .handoffCalled) := by
  have hheader : header n (w.apply .handoffCalled) =
      .ok (w.inst.imageHeader.header n) (w.apply .handoffCalled) :=
    header_ok.2 ⟨⟨hn, (header_eq hn).symm⟩, rfl⟩
  show ((header n >>= _) (w.apply .handoffCalled)) = _
  rw [bind_apply, hheader]
  rfl

/-- A handoff ends with an error code, or behind the whole table. -/
theorem handoff_cases (hn : n < 32) (hb : w.inst.primaryBootDevice ≠ xfsblJtagBootMode) :
    (∃ code w', handoff hw n w = .error (.status code) w') ∨
      ∃ v running w', Does [.handoffCalled] w v ∧
        handoffEntries hw (w.inst.imageHeader.header n) w.inst w.inst.handoffValues none v =
          .ok running w' ∧
        handoff hw n w = .error (handoffExit running) w' := by
  have failed {α : Type} {c : Fsbl α} {t t' : World} {e : Halt} (hc : Raises IsStatus c)
      (he : c t = .error e t') (hr : handoff hw n w = .error e t') :
      ∃ code w', handoff hw n w = .error (.status code) w' := by
    obtain ⟨code, rfl⟩ := hc _ _ _ he
    exact ⟨code, _, hr⟩
  have hstart : handoff hw n w =
      handoffBehind hw (w.inst.imageHeader.header n) w.inst (w.apply .handoffCalled) := handoff_start hn
  have hdoes : Does [.handoffCalled] w (w.apply .handoffCalled) := .act w _
  generalize w.apply .handoffCalled = w₀ at hstart hdoes
  have hprotect : Raises IsStatus (when (w.inst.resetReason ≠ xfsblMasterOnlyReset) do
      checkedAs hw .pmInit xfsblErrorPmInit
      protectionConfig hw) := raises_when fun _ => status_protection
  have hticks : Frame Ticks (when (w.inst.resetReason ≠ xfsblMasterOnlyReset) do
      checkedAs hw .pmInit xfsblErrorPmInit
      protectionConfig hw) := frame_when fun _ => frame_protection
  -- each step fails, or the next one runs
  cases h1 : (when (w.inst.resetReason ≠ xfsblMasterOnlyReset) do
      checkedAs hw .pmInit xfsblErrorPmInit
      protectionConfig hw : Fsbl Unit) w₀ with
  | error e t => exact .inl (failed hprotect h1 (hstart.trans (bind_error.2 (.inl h1))))
  | ok _ w₁ =>
    have hjtag : when (w.inst.primaryBootDevice = xfsblJtagBootMode) (jtagExit hw) w₁ = .ok () w₁ :=
      when_ok.2 (.inr ⟨hb, rfl⟩)
    cases h2 : checkedAs hw .hookBeforeHandoff xfsblErrorHookBeforeHandoff w₁ with
    | error e t =>
      refine .inl (failed (status_checkedAs _ _) h2 ?_)
      refine hstart.trans (bind_error.2 (.inr ⟨_, _, h1, ?_⟩))
      exact bind_error.2 (.inr ⟨_, _, hjtag, bind_error.2 (.inl h2)⟩)
    | ok _ w₂ =>
      have behind {e : Halt} {t : World}
          (hr : (do
            let running ← handoffEntries hw (w.inst.imageHeader.header n) w.inst
              w.inst.handoffValues none
            throw (handoffExit running) : Fsbl Unit) w₂ = .error e t) :
          handoff hw n w = .error e t := by
        refine hstart.trans (bind_error.2 (.inr ⟨_, _, h1, ?_⟩))
        exact bind_error.2 (.inr ⟨_, _, hjtag, bind_error.2 (.inr ⟨_, _, h2, hr⟩)⟩)
      cases h3 : handoffEntries hw (w.inst.imageHeader.header n) w.inst w.inst.handoffValues none
          w₂ with
      | error e t =>
        exact .inl (failed (status_handoffEntries _ _ _ _) h3 (behind (bind_error.2 (.inl h3))))
      | ok running w₃ =>
        have hbefore : Ticks w₀ w₂ := trans_of _ (hticks.ok h1) ((frame_checkedAs hw _ _).ok h2)
        refine .inr ⟨w₂, running, w₃, hdoes.trans hbefore.moves.toDoes, h3, behind ?_⟩
        exact bind_error.2 (.inr ⟨_, _, h3, throw_error.2 ⟨rfl, rfl⟩⟩)

/-- **The regular handoff**: a handoff without an error takes every other entry of the table
through reset vector, power-up and release once, in table order, and leaves to the running CPU's
entry, or without one to no address. -/
theorem handoff_regular (hn : n < 32) (hb : w.inst.primaryBootDevice ≠ xfsblJtagBootMode)
    (hd : (w.inst.handoffValues.map HandoffValue.cpu).Nodup) (he : NoHandoffError hw n w) :
    RegularHandoff hw n w := by
  rcases @handoff_cases hw n w hn hb with ⟨code, w', h⟩ | ⟨v, running, w', hcalled, hs, h⟩
  · exact absurd h (he code w')
  · obtain ⟨hr, hdoes⟩ := handoffEntries_ok hd hs
    rw [Option.or_none] at hr
    refine ⟨w', by rw [h, hr], ?_⟩
    rw [(hcalled.trans hdoes).trace, List.singleton_append]

/-- Why a run halted. -/
def haltOf : EStateM.Result Halt World Unit → Option Halt
  | .ok _ _ => none
  | .error e _ => some e

theorem haltOf_error {e : Halt} (h : handoff hw n w = .error e w') : haltOf (handoff hw n w) = some e := by
  rw [h]
  rfl

/-- Partitions for A53-1, the running A53-0 and R5-0. -/
def threeCpuBoard : Board := qspiBoard [{ attributes := 0x200 }, {}, { attributes := 0x500 }]

theorem handoff_regular_threeCpuBoard :
    RegularHandoff threeCpuBoard.hw 3 (threeCpuBoard.after 5).world := by
  refine handoff_regular (by decide) (by decide +kernel) (by decide +kernel) fun code w' h => ?_
  have hexit : haltOf (handoff threeCpuBoard.hw 3 (threeCpuBoard.after 5).world) =
      some (.exit 0x100000 xfsblHandoffExit) := by decide +kernel
  rw [haltOf_error h] at hexit
  cases hexit

/-- A board without an image, booted over JTAG, on a platform that needs a branch to itself. -/
def jtagHw : Hw :=
  { plainBoard.hw with
    in32 := fun _ r =>
      match r with
      | .platformInfo | .psVersion => 2
      | _ => 0 }

/-- A JTAG boot hands off with an empty table, and not to no address. -/
theorem not_handoff_regular :
    ¬ ∀ (hw : Hw) (s : MainState), (boot hw).Reachable s → s.locals.fsblStage = .stage4 →
      (s.world.inst.handoffValues.map HandoffValue.cpu).Nodup →
      NoHandoffError hw s.locals.partitionNum s.world →
      RegularHandoff hw s.locals.partitionNum s.world := by
  intro h
  have hrunning : ∀ i < 2, (passes jtagHw i powerOn).running = true := by decide +kernel
  have hr : (boot jtagHw).Reachable (passes jtagHw 2 powerOn) :=
    ⟨_, init_powerOn _, run_iff_passes.2 ⟨2, rfl, fun i hi => ⟨hrunning i hi, trivial⟩⟩⟩
  have hexit : haltOf (handoff jtagHw 0 (passes jtagHw 2 powerOn).world) =
      some (.exit 0xFFFC0000 xfsblHandoffExit) := by decide +kernel
  have hn : (passes jtagHw 2 powerOn).locals.partitionNum = 0 := by decide +kernel
  obtain ⟨w', hw', -⟩ := h jtagHw _ hr (by decide +kernel) (by decide +kernel) fun code w' he => by
    rw [hn] at he
    rw [haltOf_error he] at hexit
    cases hexit
  rw [hn] at hw'
  rw [haltOf_error hw'] at hexit
  revert hexit
  decide +kernel

end Handoff

end MeasuredBoot
