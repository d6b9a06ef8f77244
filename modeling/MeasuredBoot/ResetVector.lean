import MeasuredBoot.HandoffRuns
import MeasuredBoot.RegularHandoff

/-!
# The exception vectors of the released CPUs (`XFsbl_UpdateResetVector`)

Each core that runs 32-bit code has a VINITHI bit: low or high vectors. The handoff writes the attribute
of the partition loaded last, whichever partition's entry it releases, and its branch for
lockstep writes the bit of one core. `ownVector_iff` says for which CPUs of a run the cores get the
vectors of their own partition.
-/

namespace MeasuredBoot

open Prog TransSys Firsts

/-! ## The registers -/

/-- A core whose reset release may start it. -/
inductive Core where
  | r5_0
  | r5_1
  | a53_0
  | a53_1
  | a53_2
  | a53_3
  deriving DecidableEq

/-- `RPU_RPU_0_CFG`, `RPU_RPU_1_CFG` and `APU_CONFIG_0`. -/
structure VectorRegs where
  rpu0Cfg : UInt32
  rpu1Cfg : UInt32
  apuConfig0 : UInt32

/-- `RegVal &= ~mask; RegVal |= (vector << shift)`. -/
def writeVinithi (regVal mask vector shift : UInt32) : UInt32 :=
  regVal &&& ~~~mask ||| vector <<< shift

def rpuRpuCfgVinithiMask : UInt32 := 0x4
def apuConfig0VinithiMaskCpu0 : UInt32 := 0x100
def apuConfig0VinithiMaskCpu1 : UInt32 := 0x200
def apuConfig0VinithiMaskCpu2 : UInt32 := 0x400
def apuConfig0VinithiMaskCpu3 : UInt32 := 0x800

/-- The VINITHI bit of a core: high vectors. -/
def VectorRegs.vinithi (r : VectorRegs) : Core → Bool
  | .r5_0 => r.rpu0Cfg &&& rpuRpuCfgVinithiMask ≠ 0
  | .r5_1 => r.rpu1Cfg &&& rpuRpuCfgVinithiMask ≠ 0
  | .a53_0 => r.apuConfig0 &&& apuConfig0VinithiMaskCpu0 ≠ 0
  | .a53_1 => r.apuConfig0 &&& apuConfig0VinithiMaskCpu1 ≠ 0
  | .a53_2 => r.apuConfig0 &&& apuConfig0VinithiMaskCpu2 ≠ 0
  | .a53_3 => r.apuConfig0 &&& apuConfig0VinithiMaskCpu3 ≠ 0

def is32BitCpu (cpuSettings : UInt32) : Bool :=
  let cpuId := cpuSettings &&& xihPhAttrbDestCpuMask
  let execState := cpuSettings &&& xihPhAttrbA53ExecStMask
  cpuId = xihPhAttrbDestCpuR5_0 ∨ cpuId = xihPhAttrbDestCpuR5_1 ∨ cpuId = xihPhAttrbDestCpuR5L ∨
    execState = xihPhAttrbA53ExecStAa32

/-- The first part of `XFsbl_UpdateResetVector`. -/
def updateVinithi (r : VectorRegs) (cpuSettings vector : UInt32) : VectorRegs :=
  let cpuId := cpuSettings &&& xihPhAttrbDestCpuMask
  let execState := cpuSettings &&& xihPhAttrbA53ExecStMask
  if cpuId = xihPhAttrbDestCpuR5_0 ∨ cpuId = xihPhAttrbDestCpuR5L then
    { r with rpu0Cfg := writeVinithi r.rpu0Cfg rpuRpuCfgVinithiMask vector 2 }
  -- lockstep never gets here
  else if cpuId = xihPhAttrbDestCpuR5_1 ∨ cpuId = xihPhAttrbDestCpuR5L then
    { r with rpu1Cfg := writeVinithi r.rpu1Cfg rpuRpuCfgVinithiMask vector 2 }
  else if cpuId = xihPhAttrbDestCpuA53_0 ∧ execState = xihPhAttrbA53ExecStAa32 then
    { r with apuConfig0 := writeVinithi r.apuConfig0 apuConfig0VinithiMaskCpu0 vector 8 }
  else if cpuId = xihPhAttrbDestCpuA53_1 ∧ execState = xihPhAttrbA53ExecStAa32 then
    { r with apuConfig0 := writeVinithi r.apuConfig0 apuConfig0VinithiMaskCpu1 vector 9 }
  else if cpuId = xihPhAttrbDestCpuA53_2 ∧ execState = xihPhAttrbA53ExecStAa32 then
    { r with apuConfig0 := writeVinithi r.apuConfig0 apuConfig0VinithiMaskCpu2 vector 10 }
  else if cpuId = xihPhAttrbDestCpuA53_3 ∧ execState = xihPhAttrbA53ExecStAa32 then
    { r with apuConfig0 := writeVinithi r.apuConfig0 apuConfig0VinithiMaskCpu3 vector 11 }
  else r

/-- The cores a release starts, as the reset bits of `XFsbl_SetCpuPwrSettings` have them. -/
def releasedCores (cpuId : UInt32) : List Core :=
  if cpuId = xihPhAttrbDestCpuA53_0 then [.a53_0]
  else if cpuId = xihPhAttrbDestCpuA53_1 then [.a53_1]
  else if cpuId = xihPhAttrbDestCpuA53_2 then [.a53_2]
  else if cpuId = xihPhAttrbDestCpuA53_3 then [.a53_3]
  else if cpuId = xihPhAttrbDestCpuR5_0 then [.r5_0]
  else if cpuId = xihPhAttrbDestCpuR5_1 then [.r5_1]
  else if cpuId = xihPhAttrbDestCpuR5L then [.r5_0, .r5_1]
  else []

/-- The cores a release starts in 32 bits, which have a vector location. -/
def vectorCores (cpuSettings : UInt32) : List Core :=
  if is32BitCpu cpuSettings then releasedCores (cpuSettings &&& xihPhAttrbDestCpuMask) else []

/-- The header asks for high vectors. -/
def PartitionHeader.highVectors (h : PartitionHeader) : Bool := h.getVectorLocation ≠ 0

/-! ## One write -/

section Registers

theorem writeVinithi_and (regVal mask vector shift : UInt32) :
    writeVinithi regVal mask vector shift &&& mask = vector <<< shift &&& mask := by
  have hd : writeVinithi regVal mask vector shift &&& mask =
      (regVal &&& ~~~mask) &&& mask ||| vector <<< shift &&& mask :=
    UInt32.toBitVec_inj.1 BitVec.and_or_distrib_right
  have hz : ~~~mask &&& mask = 0 := by
    rw [UInt32.and_comm]
    exact UInt32.toBitVec_inj.1 (BitVec.and_not_self _)
  rw [hd, UInt32.and_assoc, hz, UInt32.and_zero, UInt32.zero_or]

theorem getVectorLocation_cases (h : PartitionHeader) :
    h.getVectorLocation = 0 ∨ h.getVectorLocation = xihPhAttrbVecLocationMask := by
  have hand : h.getVectorLocation.toBitVec = h.partitionAttributes.toBitVec &&& BitVec.twoPow 32 23 := rfl
  rw [BitVec.and_twoPow] at hand
  split at hand
  · exact .inr (UInt32.toBitVec_inj.1 hand)
  · exact .inl (UInt32.toBitVec_inj.1 hand)

/-- A write of a header's location, read back. -/
theorem writeVinithi_location (h : PartitionHeader) (regVal : UInt32) {mask shift : UInt32}
    (h0 : (0 : UInt32) <<< shift &&& mask = 0) (h1 : (1 : UInt32) <<< shift &&& mask ≠ 0) :
    decide (writeVinithi regVal mask (h.getVectorLocation >>> xihAttrbVectorLocationShift) shift &&&
      mask ≠ 0) = h.highVectors := by
  rw [writeVinithi_and, PartitionHeader.highVectors]
  rcases getVectorLocation_cases h with hv | hv
  · rw [hv]
    have hz : (0 : UInt32) >>> xihAttrbVectorLocationShift = 0 := by decide
    rw [hz, h0]
  · rw [hv]
    have hone : xihPhAttrbVecLocationMask >>> xihAttrbVectorLocationShift = 1 := by decide
    have hne : xihPhAttrbVecLocationMask ≠ 0 := by decide
    rw [hone, decide_eq_true h1, decide_eq_true hne]

/-- A CPU other than the lockstep pair that runs in 32 bits: its one core gets what is written. -/
theorem updateVinithi_single (h : PartitionHeader) {cpuSettings : UInt32}
    (hcpu : cpuSettings &&& xihPhAttrbDestCpuMask ∈ handoffCpus)
    (hl : cpuSettings &&& xihPhAttrbDestCpuMask ≠ xihPhAttrbDestCpuR5L)
    (h32 : is32BitCpu cpuSettings = true) :
    ∃ core, vectorCores cpuSettings = [core] ∧ ∀ r : VectorRegs,
      (updateVinithi r cpuSettings (h.getVectorLocation >>> xihAttrbVectorLocationShift)).vinithi
        core = h.highVectors := by
  unfold is32BitCpu at h32
  unfold vectorCores
  unfold is32BitCpu updateVinithi
  generalize cpuSettings &&& xihPhAttrbDestCpuMask = cpu at *
  generalize cpuSettings &&& xihPhAttrbA53ExecStMask = st at *
  simp only [handoffCpus, List.mem_cons, List.not_mem_nil, or_false] at hcpu
  rcases hcpu with rfl | rfl | rfl | rfl | rfl | rfl | rfl
  case inl | inr.inl | inr.inr.inl | inr.inr.inr.inl =>
    have hst : st = xihPhAttrbA53ExecStAa32 := by
      have hor := of_decide_eq_true h32
      exact ((hor.resolve_left (by decide)).resolve_left (by decide)).resolve_left (by decide)
    subst hst
    exact ⟨_, rfl, fun r => writeVinithi_location h _ (by decide) (by decide)⟩
  case inr.inr.inr.inr.inl | inr.inr.inr.inr.inr.inl =>
    exact ⟨_, rfl, fun r => writeVinithi_location h _ (by decide) (by decide)⟩
  case inr.inr.inr.inr.inr.inr => exact absurd rfl hl

/-- In lockstep the second core keeps its bit. -/
theorem updateVinithi_lockstep (r : VectorRegs) {cpuSettings : UInt32} (vector : UInt32)
    (hl : cpuSettings &&& xihPhAttrbDestCpuMask = xihPhAttrbDestCpuR5L) :
    .r5_1 ∈ vectorCores cpuSettings ∧
      (updateVinithi r cpuSettings vector).vinithi .r5_1 = r.vinithi .r5_1 := by
  unfold vectorCores is32BitCpu updateVinithi
  rw [hl]
  exact ⟨by simp [releasedCores]; decide, rfl⟩

/-- **Which releases set the cores' vectors as a header has them**, when they write those of another. -/
theorem updateVinithi_iff (g h : PartitionHeader) {cpuSettings : UInt32}
    (hcpu : cpuSettings &&& xihPhAttrbDestCpuMask ∈ handoffCpus) :
    (∀ r : VectorRegs, ∀ core ∈ vectorCores cpuSettings,
      (updateVinithi r cpuSettings (g.getVectorLocation >>> xihAttrbVectorLocationShift)).vinithi
        core = h.highVectors) ↔
      cpuSettings &&& xihPhAttrbDestCpuMask ≠ xihPhAttrbDestCpuR5L ∧
        (is32BitCpu cpuSettings = true → g.highVectors = h.highVectors) := by
  constructor
  · intro hall
    have hl : cpuSettings &&& xihPhAttrbDestCpuMask ≠ xihPhAttrbDestCpuR5L := by
      intro hl
      -- whatever the bit was, it stays
      have stays (r : VectorRegs) : r.vinithi .r5_1 = h.highVectors := by
        obtain ⟨hmem, hkept⟩ := updateVinithi_lockstep r
          (g.getVectorLocation >>> xihAttrbVectorLocationShift) hl
        rw [← hkept]
        exact hall r _ hmem
      have hlow := stays ⟨0, 0, 0⟩
      have hhigh := stays ⟨0, rpuRpuCfgVinithiMask, 0⟩
      rw [← hlow] at hhigh
      revert hhigh
      decide
    refine ⟨hl, fun h32 => ?_⟩
    obtain ⟨core, hcores, hset⟩ := updateVinithi_single g hcpu hl h32
    rw [← hset ⟨0, 0, 0⟩]
    exact hall _ core (hcores ▸ List.mem_cons_self)
  · rintro ⟨hl, heq⟩ r core hcore
    have h32 : is32BitCpu cpuSettings = true := by
      by_contra h32
      rw [vectorCores, if_neg h32] at hcore
      exact absurd hcore List.not_mem_nil
    obtain ⟨core', hcores, hset⟩ := updateVinithi_single g hcpu hl h32
    rw [hcores, List.mem_singleton] at hcore
    rw [hcore, hset r, heq h32]

end Registers

/-! ## The acts of a handoff -/

/-- What acts release: entries of the table, with one vector, each CPU behind its write. -/
structure ReleasesOf (vs : List HandoffValue) (vector : UInt32) (as : List Act) : Prop where
  written : ∀ address cpuSettings v, .resetVector address cpuSettings v ∈ as →
    ⟨cpuSettings, address⟩ ∈ vs ∧ v = vector
  released : ∀ cpuSettings, .released cpuSettings ∈ as →
    cpuSettings &&& xihPhAttrbDestCpuMask ∈ handoffCpus ∧
      ∃ address v, .resetVector address cpuSettings v ∈ as

/-- Acts that write and release nothing. -/
def Act.isRelease : Act → Bool
  | .resetVector .. => true
  | .released _ => true
  | _ => false

section Releases

variable {hw : Hw} {vs us : List HandoffValue} {vector : UInt32} {as bs : List Act} {w w' : World}
  {h : PartitionHeader} {inst : XFsblPs} {v : HandoffValue}

theorem releasesOf_none (h : ∀ a ∈ as, a.isRelease = false) : ReleasesOf vs vector as where
  written _ _ _ ha := absurd (h _ ha) nofun
  released _ ha := absurd (h _ ha) nofun

theorem ReleasesOf.append (ha : ReleasesOf vs vector as) (hb : ReleasesOf vs vector bs) :
    ReleasesOf vs vector (as ++ bs) where
  written address cpuSettings v hv :=
    (List.mem_append.1 hv).elim (ha.written _ _ _) (hb.written _ _ _)
  released cpuSettings hr := by
    rcases List.mem_append.1 hr with hr | hr
    · obtain ⟨hcpu, address, v, hv⟩ := ha.released _ hr
      exact ⟨hcpu, address, v, List.mem_append_left _ hv⟩
    · obtain ⟨hcpu, address, v, hv⟩ := hb.released _ hr
      exact ⟨hcpu, address, v, List.mem_append_right _ hv⟩

/-- A part of a handoff. -/
def Releasing (vs : List HandoffValue) (vector : UInt32) (w w' : World) : Prop :=
  ∃ as, ReleasesOf vs vector as ∧ Moves as w w'

instance : IsPreorder World (Releasing vs vector) where
  refl w := ⟨[], releasesOf_none fun _ h => absurd h List.not_mem_nil, .refl w⟩
  trans := by
    rintro w w' w'' ⟨as, ha, hm⟩ ⟨bs, hb, hm'⟩
    exact ⟨as ++ bs, ha.append hb, hm.trans hm'⟩

instance : Silent (Releasing vs vector) where
  tick _ := ⟨[], releasesOf_none fun _ h => absurd h List.not_mem_nil, ⟨(List.append_nil _).symm, rfl⟩, rfl⟩

theorem handoffCpus_of_power {cpuId code : UInt32} (hp : powerUpCpuError cpuId = some code) :
    cpuId ∈ handoffCpus := by
  unfold powerUpCpuError at hp
  repeat' split at hp
  all_goals first
    | (cases hp; done)
    | (rename_i hc; subst hc; decide)

/-- A release does nothing, or powers the CPU up and lets it go. -/
theorem frame_release (hw : Hw) (cpuSettings flags : UInt32) :
    Frame (Loads fun a => a = .poweredUp cpuSettings ∨
      a = .released cpuSettings ∧ cpuSettings &&& xihPhAttrbDestCpuMask ∈ handoffCpus)
      (setCpuPwrSettings hw cpuSettings flags) := by
  refine frame_ite (fun _ => ?_) fun _ => frame_pure _
  split
  · rename_i code hp
    refine frame_bind (frame_checkedAs hw _ _) fun _ => ?_
    exact frame_bind (frame_act fun _ => loads_act (.inl rfl)) fun _ =>
      frame_act fun _ => loads_act (.inr ⟨rfl, handoffCpus_of_power hp⟩)
  · exact frame_throw _

theorem frame_handoffOtherCpu (hv : v ∈ vs) :
    Frame (Releasing vs (h.getVectorLocation >>> xihAttrbVectorLocationShift))
      (handoffOtherCpu hw h v) := by
  refine frame_bind (frame_checkedAs hw _ _) fun _ => ?_
  have hpower : Frame (Releasing vs (h.getVectorLocation >>> xihAttrbVectorLocationShift))
      (setCpuPwrSettings hw v.cpuSettings xfsblCpuPowerUp) := frame_pure ()
  refine frame_bind (frame_statusOf hpower) fun _ => frame_bind (frame_ensure _ _) fun _ w => ?_
  -- the write, and behind it the release
  obtain ⟨as, ha, hm⟩ := frame_release hw v.cpuSettings xfsblCpuSwrst
    (w.apply (.resetVector v.handoffAddress v.cpuSettings
      (h.getVectorLocation >>> xihAttrbVectorLocationShift)))
  refine ⟨_, ⟨fun address cpuSettings vec hr => ?_, fun cpuSettings hr => ?_⟩, (Moves.act w _).trans hm⟩
  · rcases List.mem_cons.1 hr with hr | hr
    · obtain ⟨rfl, rfl, rfl⟩ := Act.resetVector.inj hr
      exact ⟨hv, rfl⟩
    · rcases ha _ hr with hr | ⟨hr, -⟩ <;> cases hr
  · rcases List.mem_cons.1 hr with hr | hr
    · cases hr
    · rcases ha _ hr with hr | ⟨hr, hcpu⟩
      · cases hr
      · obtain rfl := Act.released.inj hr
        exact ⟨hcpu, _, _, List.mem_cons_self⟩

theorem frame_entries (hvs : ∀ v ∈ us, v ∈ vs) (running : Option (UInt64 × UInt32)) :
    Frame (Releasing vs (h.getVectorLocation >>> xihAttrbVectorLocationShift))
      (handoffEntries hw h inst us running) := by
  induction us generalizing running with
  | nil => exact frame_pure _
  | cons v us ih =>
    rw [List.forall_mem_cons] at hvs
    refine frame_ite (fun _ => ?_) fun _ => ?_
    · exact frame_bind (frame_handoffOtherCpu hvs.1) fun _ => ih hvs.2 _
    · exact frame_bind (frame_ensure _ _) fun _ => ih hvs.2 _

/-- A part that releases nothing. -/
theorem Loads.releasing {A : Act → Prop} (hA : ∀ a, A a → a.isRelease = false)
    (hl : Loads A w w') : Releasing vs vector w w' := by
  obtain ⟨as, ha, hm⟩ := hl
  exact ⟨as, releasesOf_none fun a h => hA a (ha a h), hm⟩

theorem frame_jtagExit : Frame (Releasing vs vector) (jtagExit hw) := by
  refine frame_bind (frame_readReg hw _) fun _ => frame_ite (fun _ => ?_) fun _ => frame_throw _
  refine frame_bind (frame_act fun w => ?_) fun _ => frame_throw _
  exact (loads_act (A := fun a => a.isRelease = false) rfl).releasing fun _ h => h

/-- **What a handoff releases**, whether it fails or not. -/
theorem handoff_releases (hw : Hw) {n : Nat} (hn : n < 32) (w : World) :
    Releasing w.inst.handoffValues
      ((w.inst.imageHeader.header n).getVectorLocation >>> xihAttrbVectorLocationShift)
      w (final (handoff hw n w)) := by
  have hcalled : Releasing w.inst.handoffValues
      ((w.inst.imageHeader.header n).getVectorLocation >>> xihAttrbVectorLocationShift)
      w (w.apply .handoffCalled) :=
    (loads_act (A := fun a => a.isRelease = false) rfl).releasing fun _ h => h
  have hbehind : Frame (Releasing w.inst.handoffValues
      ((w.inst.imageHeader.header n).getVectorLocation >>> xihAttrbVectorLocationShift))
      (handoffBehind hw (w.inst.imageHeader.header n) w.inst) := by
    refine frame_bind (frame_when fun _ => ?_) fun _ => frame_bind (frame_when fun _ => frame_jtagExit)
      fun _ => ?_
    · refine frame_bind (frame_checkedAs hw _ _) fun _ => ?_
      exact frame_bind (frame_checkedAs hw _ _) fun _ => frame_checkedAs hw _ _
    refine frame_bind (frame_checkedAs hw _ _) fun _ => ?_
    exact frame_bind (frame_entries (fun _ hv => hv) _) fun _ => frame_throw _
  rw [handoff_start hn]
  exact trans_of _ hcalled (hbehind _)

end Releases

/-! ## Runs -/

/-- The entry a partition supplied. -/
def Act.entry? : Act → Option HandoffValue
  | .handoffEntry _ v => some v
  | _ => none

/-- The header of the partition loaded last. -/
def XFsblPs.lastHeader (inst : XFsblPs) : PartitionHeader :=
  inst.imageHeader.header (inst.imageHeader.imageHeaderTable.noOfPartitions - 1).toNat

/-- What a run keeps about the releases. -/
structure Vectored (s : MainState) : Prop where
  entries : s.world.inst.handoffValues = s.world.trace.filterMap Act.entry?
  last : s.locals.fsblStage = .stage4 → s.world.inst.handoffValues = [] ∨
    s.locals.partitionNum = (s.world.inst.imageHeader.imageHeaderTable.noOfPartitions - 1).toNat
  fresh : ¬ s.Over → ∀ a ∈ s.world.trace, a.isRelease = false
  releases : ReleasesOf s.world.inst.handoffValues
    (s.world.inst.lastHeader.getVectorLocation >>> xihAttrbVectorLocationShift) s.world.trace

section Runs

variable {hw : Hw} {n : Nat} {as : List Act} {w w' : World} {s : MainState}

theorem replay_entries (w : World) (as : List Act) :
    (w.replay as).inst.handoffValues = w.inst.handoffValues ++ as.filterMap Act.entry? := by
  induction as generalizing w with
  | nil => rw [World.replay_nil, List.filterMap_nil, List.append_nil]
  | cons a as ih =>
    rw [World.replay_cons, ih]
    cases a with
    | handoffEntry m v => exact List.append_assoc _ [v] _
    | _ => rfl

theorem Does.entries (h : Does as w w')
    (he : w.inst.handoffValues = w.trace.filterMap Act.entry?) :
    w'.inst.handoffValues = w'.trace.filterMap Act.entry? := by
  rw [h.handoffValues, replay_entries, h.trace, List.filterMap_append, he]

theorem passAct_no_release {l : Locals} (hl : l.fsblStage ≠ .stage4) (a : Act)
    (h : PassAct hw l a) : a.isRelease = false := by
  obtain ⟨stage, n, status⟩ := l
  cases stage with
  | stage4 => exact absurd rfl hl
  | stage1 => cases a <;> first | rfl | exact h.elim
  | stage2 =>
    rcases h with h | ⟨mask, rfl⟩ | rfl
    · cases a <;> first | rfl | exact h.elim
    · rfl
    · rfl
  | stage3 =>
    rcases h with h | rfl | ⟨status, rfl⟩ | ⟨mask, rfl⟩
    · cases a <;> first | rfl | exact h.elim
    · rfl
    · rfl
    · rfl
  | _ => exact h.elim

theorem lastHeader_eq {i j : XFsblPs} (h : i.imageHeader = j.imageHeader) :
    i.lastHeader = j.lastHeader := by
  rw [XFsblPs.lastHeader, h, ← XFsblPs.lastHeader]

/-- Stage 4 comes behind the last partition, or without any. -/
theorem Vectored.last_step (ht : Tabled s n) (hok : PassOk s)
    (h4 : (mainStep hw s).locals.fsblStage = .stage4) :
    (mainStep hw s).world.inst.handoffValues = [] ∨ (mainStep hw s).locals.partitionNum =
      ((mainStep hw s).world.inst.imageHeader.imageHeaderTable.noOfPartitions - 1).toNat := by
  have hpass : Pass hw s (mainStep hw s) := mainStep_cases hok
  cases hpass with
  | initialized _ _ hl => simp [hl] at h4
  | booted _ _ _ hl => simp [hl] at h4
  | jtag hs =>
    obtain rfl : n = 0 := ht.early (.inr hs)
    exact .inl (ht.early_step hok (.inr hs)).table.nil
  | @loaded v mask hs hload hw' hl =>
    right
    have hcount := HeadersOk.counted (w := s.world.apply (.loadCalled s.locals.partitionNum))
      (hok.1 hs) hload
    have hfix : v.inst.imageHeader = s.world.inst.imageHeader :=
      imageHeader_of_fixed ((partitionLoad_fixed hload).trans (World.fixed_apply _ _))
    have hcount' : 2 ≤ v.inst.imageHeader.imageHeaderTable.noOfPartitions.toNat ∧
        v.inst.imageHeader.imageHeaderTable.noOfPartitions.toNat ≤ 32 ∧
        1 ≤ s.locals.partitionNum ∧
        s.locals.partitionNum < v.inst.imageHeader.imageHeaderTable.noOfPartitions.toNat := by
      rw [hfix]
      exact hcount
    have hn := toNat_sub_one (N := v.inst.imageHeader.imageHeaderTable.noOfPartitions) (by omega)
    rw [hw']
    show (mainStep hw s).locals.partitionNum =
      (v.inst.imageHeader.imageHeaderTable.noOfPartitions - 1).toNat
    rw [hl] at h4 ⊢
    split at h4
    · cases h4
    · rename_i hlt
      rw [if_neg hlt]
      show s.locals.partitionNum = _
      omega
  | failed hl => simp [hl] at h4
  | ended _ hl => simp [hl] at h4

/-- The handoff of a run releases entries with the last header's vector. -/
theorem Vectored.handoff (h : Vectored s) (hok : PassOk s) (h4 : s.locals.fsblStage = .stage4) :
    ReleasesOf (mainStep hw s).world.inst.handoffValues
      ((mainStep hw s).world.inst.lastHeader.getVectorLocation >>> xihAttrbVectorLocationShift)
      (mainStep hw s).world.trace := by
  have hsame : SameTable s.world (mainStep hw s).world := by
    obtain ⟨as, ha, hm⟩ := handoff_pass hw h4
    refine hm.toDoes.sameTable ?_
    rintro a hmem m v rfl
    exact ha _ hmem
  have hnot : ¬ s.Over := by
    simp [MainState.Over, h4]
  obtain ⟨as, hr, hm⟩ := handoff_releases hw (hok.2 h4) s.world
  rw [← handoff_world hw h4] at hm
  rw [hsame, lastHeader_eq hm.imageHeader, hm.trace]
  refine (releasesOf_none (h.fresh hnot)).append ?_
  rcases h.last h4 with hnil | hlast
  · rw [hnil] at hr ⊢
    exact ⟨fun a st v hv => absurd (hr.written a st v hv).1 List.not_mem_nil, hr.released⟩
  · rw [hlast] at hr
    exact hr

theorem Vectored.step (h : Vectored s) (ht : Tabled s n) (hok : PassOk s) :
    Vectored (mainStep hw s) := by
  obtain ⟨as, ha, hd⟩ := pass_emits hw s
  have hentries := hd.entries h.entries
  by_cases h4 : s.locals.fsblStage = .stage4
  · have hover : (mainStep hw s).Over := mainStep_over hok (.inr h4)
    refine ⟨hentries, fun hs => ?_, fun hn => absurd hover hn, h.handoff hok h4⟩
    simp [MainState.Over, hs] at hover
  have hnone : ∀ a ∈ as, a.isRelease = false := fun a hm => passAct_no_release h4 a (ha a hm)
  refine ⟨hentries, Vectored.last_step ht hok, fun hn a hm => ?_, ?_⟩
  · rw [hd.trace] at hm
    have hnot : ¬ s.Over := fun hs => hn (mainStep_over hok (.inl hs))
    exact (List.mem_append.1 hm).elim (h.fresh hnot a) (hnone a)
  · by_cases hs : s.Over
    · obtain ⟨hk, himg⟩ := over_pass (f := XFsblPs.imageHeader) hw (fun _ _ => rfl) hs
      obtain ⟨bs, hb, hdb⟩ := hk
      have hnil : bs = [] := List.eq_nil_iff_forall_not_mem.2 fun a hm => hb a hm
      subst hnil
      rw [lastHeader_eq himg, hdb.handoffValues, hdb.trace, List.append_nil, World.replay_nil]
      exact h.releases
    · refine releasesOf_none fun a hm => ?_
      rw [hd.trace] at hm
      exact (List.mem_append.1 hm).elim (h.fresh hs a) (hnone a)

theorem vectored_initial {s₀ : MainState} (h₀ : (boot hw).init s₀) : Vectored s₀ := by
  refine ⟨by rw [h₀.2.inst, h₀.2.trace]; rfl, fun hs => ?_, fun _ a hm => ?_, releasesOf_none ?_⟩
  · rw [h₀.1] at hs
    cases hs
  · rw [h₀.2.trace] at hm
    exact absurd hm List.not_mem_nil
  · rw [h₀.2.trace]
    exact fun a hm => absurd hm List.not_mem_nil

theorem run_vectored {G : MainState → Prop} {s₀ : MainState} (h₀ : (boot hw).init s₀)
    (h : (boot hw).Run G s₀ s) : Vectored s := by
  induction h with
  | refl => exact vectored_initial h₀
  | snoc hr _ hn ih =>
    obtain ⟨-, rfl⟩ := hn
    obtain ⟨⟨n, ht⟩, -⟩ := run_tabled h₀ hr
    exact ih.step ht (run_history h₀ hr).passOk

/-! ## Whose vectors the cores get -/

/-- Partition `k` supplied the entry `v`. -/
def Supplied (s : MainState) (k : Nat) (v : HandoffValue) : Prop :=
  .handoffEntry k v ∈ s.world.trace

/-- The reset vector write for `v` gives each core that starts the vectors of partition `k`,
whatever the registers held. -/
def OwnVector (s : MainState) (k : Nat) (v : HandoffValue) : Prop :=
  ∃ vector, .resetVector v.handoffAddress v.cpuSettings vector ∈ s.world.trace ∧
    ∀ r : VectorRegs, ∀ core ∈ vectorCores v.cpuSettings,
      (updateVinithi r v.cpuSettings vector).vinithi core =
        (s.world.inst.imageHeader.header k).highVectors

theorem mem_entries {v : HandoffValue} :
    v ∈ s.world.trace.filterMap Act.entry? ↔ ∃ k, Supplied s k v := by
  rw [List.mem_filterMap]
  constructor
  · rintro ⟨a, ha, he⟩
    cases a with
    | handoffEntry k u =>
      obtain rfl := Option.some.inj he
      exact ⟨k, ha⟩
    | _ => cases he
  · rintro ⟨k, hk⟩
    exact ⟨_, hk, rfl⟩

/-- A released CPU has been written the vector of the last header. -/
theorem released_written (h : (boot hw).Reachable s) {cpuSettings : UInt32}
    (hr : .released cpuSettings ∈ s.world.trace) :
    cpuSettings &&& xihPhAttrbDestCpuMask ∈ handoffCpus ∧
      ∃ address, (⟨cpuSettings, address⟩ : HandoffValue) ∈ s.world.inst.handoffValues ∧
        .resetVector address cpuSettings (s.world.inst.lastHeader.getVectorLocation >>>
          xihAttrbVectorLocationShift) ∈ s.world.trace := by
  obtain ⟨s₀, h₀, hrun⟩ := h
  have hv := run_vectored h₀ hrun
  obtain ⟨hcpu, address, vector, hw⟩ := hv.releases.released _ hr
  obtain ⟨hmem, rfl⟩ := hv.releases.written _ _ _ hw
  exact ⟨hcpu, address, hmem, hw⟩

/-- Of an entry the CPU names the address. -/
theorem entry_of_cpu (h : (boot hw).Reachable s) {u v : HandoffValue}
    (hu : u ∈ s.world.inst.handoffValues) (hv : v ∈ s.world.inst.handoffValues)
    (hc : u.cpuSettings = v.cpuSettings) : u = v := by
  obtain ⟨⟨n, -, ht⟩, -⟩ := handoff_table h
  refine List.inj_on_of_nodup_map ht.distinct hu hv ?_
  rw [HandoffValue.cpu, hc, ← HandoffValue.cpu]

theorem ownVector_supplied (h : (boot hw).Reachable s) {cpuSettings : UInt32}
    (hr : .released cpuSettings ∈ s.world.trace) {k : Nat} {v : HandoffValue}
    (hst : v.cpuSettings = cpuSettings) (hk : Supplied s k v) :
    OwnVector s k v ↔ cpuSettings &&& xihPhAttrbDestCpuMask ≠ xihPhAttrbDestCpuR5L ∧
      (is32BitCpu cpuSettings = true → s.world.inst.lastHeader.highVectors =
        (s.world.inst.imageHeader.header k).highVectors) := by
  obtain ⟨hcpu, address, hmem, hwrite⟩ := released_written h hr
  obtain ⟨s₀, h₀, hrun⟩ := h
  have hv := run_vectored h₀ hrun
  have hvmem : v ∈ s.world.inst.handoffValues := by
    rw [hv.entries]
    exact mem_entries.2 ⟨k, hk⟩
  obtain rfl : v = ⟨cpuSettings, address⟩ := entry_of_cpu ⟨s₀, h₀, hrun⟩ hvmem hmem hst
  rw [← updateVinithi_iff _ _ hcpu]
  constructor
  · rintro ⟨vector, hvec, hall⟩
    obtain ⟨-, rfl⟩ := hv.releases.written _ _ _ hvec
    exact hall
  · exact fun hall => ⟨_, hwrite, hall⟩

/-- **Whose vectors a released CPU starts with**: of the partition that supplied its entry where it
is not the lockstep pair and the last header has the same attribute, if it runs in 32 bits. -/
theorem ownVector_iff (h : (boot hw).Reachable s) {cpuSettings : UInt32}
    (hr : .released cpuSettings ∈ s.world.trace) :
    (∃ k v, v.cpuSettings = cpuSettings ∧ Supplied s k v) ∧
      ∀ k v, v.cpuSettings = cpuSettings → Supplied s k v →
        (OwnVector s k v ↔ cpuSettings &&& xihPhAttrbDestCpuMask ≠ xihPhAttrbDestCpuR5L ∧
          (is32BitCpu cpuSettings = true → s.world.inst.lastHeader.highVectors =
            (s.world.inst.imageHeader.header k).highVectors)) := by
  refine ⟨?_, fun k v hst hk => ownVector_supplied h hr hst hk⟩
  obtain ⟨-, address, hmem, -⟩ := released_written h hr
  obtain ⟨s₀, h₀, hrun⟩ := h
  rw [(run_vectored h₀ hrun).entries, mem_entries] at hmem
  obtain ⟨k, hk⟩ := hmem
  exact ⟨k, _, rfl, hk⟩

/-- R5-0 with high vectors, and behind it a partition for the running A53. -/
def highVectorBoard : Board := qspiBoard [{ attributes := 0x800500 }, {}]

theorem highVectorBoard_reachable : (boot highVectorBoard.hw).Reachable (highVectorBoard.after 5) :=
  ⟨_, init_powerOn _, highVectorBoard.run 0 5 (by decide +kernel)⟩

def Act.isReleased (cpuSettings : UInt32) : Act → Bool
  | .released st => st == cpuSettings
  | _ => false

theorem mem_released {cpuSettings : UInt32} {as : List Act}
    (h : as.any (Act.isReleased cpuSettings) = true) : .released cpuSettings ∈ as := by
  obtain ⟨a, ha, hst⟩ := List.any_eq_true.1 h
  cases a with
  | released st =>
    rw [Act.isReleased, beq_iff_eq] at hst
    exact hst ▸ ha
  | _ => cases hst

theorem highVectorBoard_released : .released 0x500 ∈ (highVectorBoard.after 5).world.trace :=
  mem_released (by decide +kernel)

theorem ownVector_iff_highVectorBoard :
    (∃ k v, v.cpuSettings = 0x500 ∧ Supplied (highVectorBoard.after 5) k v) ∧
      ∀ k v, v.cpuSettings = 0x500 → Supplied (highVectorBoard.after 5) k v →
        (OwnVector (highVectorBoard.after 5) k v ↔
          (0x500 : UInt32) &&& xihPhAttrbDestCpuMask ≠ xihPhAttrbDestCpuR5L ∧
          (is32BitCpu 0x500 = true → (highVectorBoard.after 5).world.inst.lastHeader.highVectors =
            ((highVectorBoard.after 5).world.inst.imageHeader.header k).highVectors)) :=
  ownVector_iff highVectorBoard_reachable highVectorBoard_released

/-- A CPU may start with the vectors of another partition. -/
theorem not_ownVector :
    ¬ ∀ (hw : Hw) (s : MainState) (cpuSettings : UInt32), (boot hw).Reachable s →
      .released cpuSettings ∈ s.world.trace →
      ∃ k v, v.cpuSettings = cpuSettings ∧ Supplied s k v ∧ OwnVector s k v := by
  intro h
  obtain ⟨k, v, hst, hk, how⟩ := h highVectorBoard.hw (highVectorBoard.after 5) 0x500
    highVectorBoard_reachable highVectorBoard_released
  have hown := ((ownVector_supplied highVectorBoard_reachable highVectorBoard_released hst hk).1 how).2
    (by decide)
  -- the entry is of partition 1
  have hsupplier : ((highVectorBoard.after 5).world.trace.all fun a =>
      match a with
      | .handoffEntry k v => v.cpuSettings != 0x500 || k == 1
      | _ => true) = true := by decide +kernel
  have hk1 : (v.cpuSettings != 0x500 || k == 1) = true := List.all_eq_true.1 hsupplier _ hk
  rw [hst] at hk1
  obtain rfl : k = 1 := by simpa using hk1
  revert hown
  decide +kernel

end Runs

end MeasuredBoot
