import MeasuredBoot.Boards
import MeasuredBoot.Lib.Firsts
import MeasuredBoot.LogBuffer

/-!
# The handoff table

What the FSBL is to do with the handoff table is an abstract function of the headers: of the
partitions that supply an entry, the first one of each CPU has it (`supplied`, `firsts`). A load
refines it by one `insertFirst` (`load_table`); a load that fails makes no other entry
(`table_partitionLoad`). The copy of a partition that executes in place supplies an
entry whatever its device and CPU are; the validation keeps the PL and the PMU out.
-/

namespace MeasuredBoot

open Prog TransSys Firsts

/-! ## The table as it is meant -/

/-- The CPU of an entry. -/
def HandoffValue.cpu (v : HandoffValue) : UInt32 := v.cpuSettings &&& xihPhAttrbDestCpuMask

/-- The CPUs a handoff can release. -/
def handoffCpus : List UInt32 :=
  [xihPhAttrbDestCpuA53_0, xihPhAttrbDestCpuA53_1, xihPhAttrbDestCpuA53_2, xihPhAttrbDestCpuA53_3,
    xihPhAttrbDestCpuR5_0, xihPhAttrbDestCpuR5_1, xihPhAttrbDestCpuR5L]

/-- The processors the FSBL runs on. -/
def fsblCpus : List UInt32 := [xihPhAttrbDestCpuA53_0, xihPhAttrbDestCpuR5_0, xihPhAttrbDestCpuR5L]

/-- The entry of a partition. -/
def PartitionHeader.entry (h : PartitionHeader) (runningCpu : UInt32) : HandoffValue :=
  ⟨h.effectiveCpu runningCpu ||| h.getA53ExecState, h.destinationExecutionAddress⟩

/-- A load of the partition makes an entry for its CPU: it executes in place, or it is neither for
the PL nor for the PMU. -/
def PartitionHeader.Enters (h : PartitionHeader) (runningCpu : UInt32) : Prop :=
  h.unEncryptedDataWordLength = 0 ∨
    h.toPl = false ∧ h.effectiveCpu runningCpu ≠ xihPhAttrbDestCpuPmu

instance (h : PartitionHeader) (runningCpu : UInt32) : Decidable (h.Enters runningCpu) :=
  inferInstanceAs (Decidable (_ ∨ _))

/-- Partition `n` supplies an entry. -/
def Supplies (inst : XFsblPs) (n : Nat) : Prop :=
  ¬ NotOwned (inst.imageHeader.header n) inst.processorID inst.resetReason ∧
    (inst.imageHeader.header n).Enters inst.processorID

instance (inst : XFsblPs) (n : Nat) : Decidable (Supplies inst n) :=
  inferInstanceAs (Decidable (_ ∧ _))

/-- The entries of the partitions 1 to `n`, in load order. -/
def supplied (inst : XFsblPs) (n : Nat) : List HandoffValue :=
  ((List.range' 1 n).filter fun k => Supplies inst k).map fun k =>
    (inst.imageHeader.header k).entry inst.processorID

theorem supplied_succ (inst : XFsblPs) (n : Nat) :
    supplied inst (n + 1) = supplied inst n ++
      if Supplies inst (n + 1) then [(inst.imageHeader.header (n + 1)).entry inst.processorID]
      else [] := by
  have hr : List.range' 1 (n + 1) = List.range' 1 n ++ [n + 1] := by
    rw [List.range'_concat, Nat.one_mul, Nat.add_comm 1 n]
  rw [supplied, hr, List.filter_append, List.map_append, ← supplied]
  by_cases h : Supplies inst (n + 1)
  · simp [h]
  · simp [h]

theorem mem_supplied {inst : XFsblPs} {n : Nat} {v : HandoffValue} :
    v ∈ supplied inst n ↔ ∃ k, 1 ≤ k ∧ k ≤ n ∧ Supplies inst k ∧
      v = (inst.imageHeader.header k).entry inst.processorID := by
  simp only [supplied, List.mem_map, List.mem_filter, List.mem_range'_1, decide_eq_true_eq]
  constructor
  · rintro ⟨k, ⟨⟨h1, hk⟩, hs⟩, rfl⟩
    exact ⟨k, h1, by omega, hs, rfl⟩
  · rintro ⟨k, h1, hk, hs, rfl⟩
    exact ⟨k, ⟨⟨h1, by omega⟩, hs⟩, rfl⟩

/-- What the table is computed from. -/
def XFsblPs.sources (i : XFsblPs) : ImageHeader × UInt32 × UInt32 :=
  (i.imageHeader, i.processorID, i.resetReason)

theorem sources_eq {i j : XFsblPs} (h : i.sources = j.sources) :
    i.imageHeader = j.imageHeader ∧ i.processorID = j.processorID ∧ i.resetReason = j.resetReason := by
  unfold XFsblPs.sources at h
  simpa only [Prod.mk.injEq] using h

theorem sources_of_fixed {i j : XFsblPs} (h : i.fixed = j.fixed) : i.sources = j.sources := by
  unfold XFsblPs.sources
  rw [imageHeader_of_fixed h, processorID_of_fixed h, resetReason_of_fixed h]

theorem supplies_of_sources {i j : XFsblPs} (h : i.sources = j.sources) (n : Nat) :
    Supplies i n ↔ Supplies j n := by
  obtain ⟨h1, h2, h3⟩ := sources_eq h
  unfold Supplies
  rw [h1, h2, h3]

theorem supplied_of_sources {i j : XFsblPs} (h : i.sources = j.sources) (n : Nat) :
    supplied i n = supplied j n := by
  obtain ⟨h1, h2, -⟩ := sources_eq h
  simp only [supplied, supplies_of_sources h, h1, h2]

/-! ## CPUs -/

theorem and_mask_entry {c x : UInt32} (h : c &&& xihPhAttrbDestCpuMask = c) :
    (c ||| x &&& xihPhAttrbA53ExecStMask) &&& xihPhAttrbDestCpuMask = c := by
  have hx : xihPhAttrbA53ExecStMask &&& xihPhAttrbDestCpuMask = 0 := by decide
  have hd : (c ||| x &&& xihPhAttrbA53ExecStMask) &&& xihPhAttrbDestCpuMask =
      c &&& xihPhAttrbDestCpuMask ||| x &&& xihPhAttrbA53ExecStMask &&& xihPhAttrbDestCpuMask :=
    UInt32.toBitVec_inj.1 BitVec.and_or_distrib_right
  rw [hd, h, UInt32.and_assoc, hx, UInt32.and_zero, UInt32.or_zero]

theorem effectiveCpu_mask (h : PartitionHeader) {runningCpu : UInt32} (hr : runningCpu ∈ fsblCpus) :
    h.effectiveCpu runningCpu &&& xihPhAttrbDestCpuMask = h.effectiveCpu runningCpu ∧
      h.effectiveCpu runningCpu ≠ xihPhAttrbDestCpuNone := by
  have hf : ∀ c ∈ fsblCpus, c &&& xihPhAttrbDestCpuMask = c ∧ c ≠ xihPhAttrbDestCpuNone := by
    intro c hc
    simp only [fsblCpus, List.mem_cons, List.not_mem_nil, or_false] at hc
    rcases hc with rfl | rfl | rfl
    all_goals exact ⟨rfl, by decide⟩
  unfold PartitionHeader.effectiveCpu
  by_cases hn : h.getDestinationCpu = xihPhAttrbDestCpuNone
  · rw [if_pos hn]
    exact hf _ hr
  · rw [if_neg hn]
    refine ⟨?_, hn⟩
    rw [PartitionHeader.getDestinationCpu, UInt32.and_assoc, UInt32.and_self]

theorem cpu_entry (h : PartitionHeader) {runningCpu : UInt32} (hr : runningCpu ∈ fsblCpus) :
    (h.entry runningCpu).cpu = h.effectiveCpu runningCpu :=
  and_mask_entry (effectiveCpu_mask h hr).1

/-- A CPU the validator takes is one of a handoff, or the PMU. -/
theorem effectiveCpu_cases {h : PartitionHeader} {runningCpu : UInt32} (hr : runningCpu ∈ fsblCpus)
    (hle : ¬ h.effectiveCpu runningCpu > xihPhAttrbDestCpuPmu) :
    h.effectiveCpu runningCpu ∈ handoffCpus ∨ h.effectiveCpu runningCpu = xihPhAttrbDestCpuPmu := by
  obtain ⟨hmask, hnone⟩ := effectiveCpu_mask h hr
  generalize h.effectiveCpu runningCpu = c at hmask hnone hle ⊢
  have hlt : c.toNat < 2049 := by
    have := UInt32.not_lt.1 hle
    have := UInt32.le_iff_toNat_le.1 this
    exact Nat.lt_succ_of_le this
  have hand : c.toNat &&& 0xF00 = c.toNat := by
    have := congrArg UInt32.toNat hmask
    rwa [UInt32.toNat_and] at this
  have hc := cpu_values _ hlt hand
  rw [← UInt32.ofNat_toNat (x := c)] at hnone ⊢
  generalize c.toNat = k at hc hnone ⊢
  simp only [List.mem_cons, List.not_mem_nil, or_false] at hc
  rcases hc with rfl | rfl | rfl | rfl | rfl | rfl | rfl | rfl | rfl
  · exact absurd rfl hnone
  all_goals decide

/-! ## One load -/

/-- The table of a load: from a state with header `h` it stays, or gets the entry `v` where
`allowed`. -/
def TableStep (n : Nat) (h : PartitionHeader) (runningCpu resetReason : UInt32) (allowed : Prop)
    (w w' : World) : Prop :=
  w.inst.imageHeader.header n = h ∧ w.inst.processorID = runningCpu ∧
      w.inst.resetReason = resetReason →
    (w'.inst.imageHeader.header n = h ∧ w'.inst.processorID = runningCpu ∧
        w'.inst.resetReason = resetReason) ∧
      (w'.inst.handoffValues = w.inst.handoffValues ∨
        allowed ∧ w'.inst.handoffValues =
          insertFirst HandoffValue.cpu w.inst.handoffValues (h.entry runningCpu))

section TableStep

variable {n : Nat} {h : PartitionHeader} {cpu reset : UInt32} {allowed : Prop} {w w' : World}

instance : IsPreorder World (TableStep n h cpu reset allowed) where
  refl w hp := ⟨hp, .inl rfl⟩
  trans := by
    intro w w' w'' hs hs' hp
    obtain ⟨hp', hs⟩ := hs hp
    obtain ⟨hp'', hs'⟩ := hs' hp'
    refine ⟨hp'', ?_⟩
    rcases hs with hs | ⟨ha, hs⟩ <;> rcases hs' with hs' | ⟨ha', hs'⟩
    · exact .inl (hs'.trans hs)
    · exact .inr ⟨ha', by rw [hs', hs]⟩
    · exact .inr ⟨ha, by rw [hs', hs]⟩
    · exact .inr ⟨ha, by rw [hs', hs, insertFirst_insertFirst]⟩

instance : Silent (TableStep n h cpu reset allowed) where
  tick _ hp := ⟨hp, .inl rfl⟩

/-- Loads that make no entry. -/
theorem Loads.tableStep {A : Act → Prop} (hA : ∀ a, A a → a.NoEntry)
    (hl : Loads A w w') : TableStep n h cpu reset allowed w w' := by
  obtain ⟨as, ha, hm⟩ := hl
  rintro ⟨h1, h2, h3⟩
  refine ⟨⟨by rw [hm.imageHeader, h1], by rw [hm.processorID, h2], by rw [hm.resetReason, h3]⟩, ?_⟩
  left
  exact hm.toDoes.sameTable fun a h => hA a (ha a h)

theorem measureAct_no_entry (a : Act) (ha : MeasureAct n a) : a.NoEntry := by
  rintro m v rfl
  exact ha

theorem tcmInit_no_entry (a : Act) (ha : TcmInit a) : a.NoEntry := by
  rintro m v rfl
  exact ha

/-- A part that reads header `n`. -/
theorem frame_readHeader {α : Type} {f : PartitionHeader → Fsbl α} (hn : n < 32)
    (hf : Frame (TableStep n h cpu reset allowed) (f h)) :
    Frame (TableStep n h cpu reset allowed) (header n >>= f) := by
  intro w hp
  have hh : header n w = .ok h w := header_ok.2 ⟨⟨hn, by rw [← header_eq hn, hp.1]⟩, rfl⟩
  exact final_bind hh hf hp

/-- A part that reads the instance. -/
theorem frame_readInst {α : Type} {f : World → Fsbl α}
    (hf : ∀ v : World, v.inst.processorID = cpu → v.inst.resetReason = reset →
      Frame (TableStep n h cpu reset allowed) (f v)) :
    Frame (TableStep n h cpu reset allowed) (get >>= f) := fun w hp => hf w hp.2.1 hp.2.2 w hp

theorem checkHandoffCpu_iff {vs : List HandoffValue} {c : UInt32} :
    checkHandoffCpu vs c = true ↔ ∀ v ∈ vs, v.cpu ≠ c := by
  simp [checkHandoffCpu, HandoffValue.cpu]

theorem table_updateHandoff (hr : cpu ∈ fsblCpus) (ha : allowed) :
    Frame (TableStep n h cpu reset allowed) (updateHandoff n h (h.effectiveCpu cpu)) := by
  intro w hp
  refine ⟨?_, ?_⟩
  · have hl := frame_updateHandoff (R := Loads (PlaceAct n)) n h (h.effectiveCpu cpu) w
    obtain ⟨as, -, hm⟩ := hl
    exact ⟨by rw [hm.imageHeader, hp.1], by rw [hm.processorID, hp.2.1], by rw [hm.resetReason, hp.2.2]⟩
  · have hu : updateHandoff n h (h.effectiveCpu cpu) w =
        (if checkHandoffCpu w.inst.handoffValues (h.effectiveCpu cpu) then
          if w.inst.handoffValues.length < maxHandoffValues then
            act (.handoffEntry n (h.entry cpu))
          else throw .handoffOutOfBounds
        else pure () : Fsbl Unit) w := rfl
    rw [hu]
    split
    · rename_i hc
      split
      · right
        refine ⟨ha, ?_⟩
        rw [insertFirst_absent]
        · rfl
        · rw [cpu_entry h hr]
          exact checkHandoffCpu_iff.1 hc
      · exact .inl rfl
    · exact .inl rfl

theorem table_partitionCopy (hw : Hw) (hn : n < 32) (hr : cpu ∈ fsblCpus)
    (ha : h.unEncryptedDataWordLength = 0 → allowed) :
    Frame (TableStep n h cpu reset allowed) (partitionCopy hw n) := by
  refine frame_readHeader hn (frame_readInst fun v hcpu _ => ?_)
  rw [hcpu]
  refine frame_ite (fun h0 => table_updateHandoff hr (ha h0)) fun _ => ?_
  refine frame_ite (fun _ => frame_pure _) fun _ => ?_
  refine frame_bind (frame_when fun _ => ?_) fun _ => frame_bind (frame_ofExcept _) fun la => ?_
  · exact frame_bind (frame_deviceRead hw _ _) fun _ => frame_pure _
  refine frame_bind ?_ fun _ => frame_bind (frame_when fun _ => frame_wait hw _) fun _ => ?_
  · exact (frame_configureMemory hw _ _ _).mono fun _ _ => Loads.tableStep tcmInit_no_entry
  · exact frame_deviceLoad hw n _ _ _ fun w data hp => ⟨hp, .inl rfl⟩

theorem table_partitionValidation (hw : Hw) (hn : n < 32) (hr : cpu ∈ fsblCpus)
    (ha : h.toPl = false → h.effectiveCpu cpu ≠ xihPhAttrbDestCpuPmu → allowed) :
    Frame (TableStep n h cpu reset allowed) (partitionValidation hw n) := by
  have measured {α : Type} {c : Fsbl α} (hc : Frame (Loads (MeasureAct n)) c) :
      Frame (TableStep n h cpu reset allowed) c :=
    hc.mono fun _ _ => Loads.tableStep measureAct_no_entry
  refine frame_readHeader hn (frame_readInst fun v hcpu _ => ?_)
  refine frame_ite (fun _ => frame_pure _) fun _ => ?_
  dsimp only
  rw [hcpu]
  refine frame_bind (frame_ofExcept _) fun la => frame_bind (frame_checkPartition hw n h _ _) fun _ => ?_
  refine frame_bind (frame_when fun _ => ?_) fun _ => ?_
  · refine frame_bind (frame_ask _) fun r => ?_
    exact frame_bind (frame_act fun w hp => ⟨hp, .inl rfl⟩) fun _ => frame_ensure _ _
  refine frame_bind (measured (frame_downloadBitstream hw n h _)) fun _ => ?_
  refine frame_bind (frame_afterBitstream hw h) fun _ => frame_when fun hpl => ?_
  refine frame_bind (frame_when fun hpmu => table_updateHandoff hr (ha hpl hpmu)) fun _ => ?_
  exact measured (frame_tpmMeasurePartition hw n _)

theorem table_partitionHeaderValidation (hw : Hw) :
    Frame (TableStep n h cpu reset allowed) (partitionHeaderValidation hw n) := by
  refine frame_bind (frame_header n) fun ph => ?_
  refine frame_bind (frame_act fun w hp => ⟨hp, .inl rfl⟩) fun _ => frame_bind (frame_ensure _ _) fun _ => ?_
  refine frame_ite (fun _ => frame_pure _) fun _ => frame_bind frame_get fun w => ?_
  refine frame_bind (frame_readReg hw _) fun e => frame_ite (fun _ => frame_pure _) fun _ => ?_
  exact frame_bind (frame_ensure _ _) fun _ => frame_pure _

/-- An entry a load may make: of an owned partition, for a CPU the validator takes. -/
def EntryAllowed (h : PartitionHeader) (cpu reset : UInt32) : Prop :=
  ¬ NotOwned h cpu reset ∧ h.Enters cpu ∧ ¬ h.effectiveCpu cpu > xihPhAttrbDestCpuPmu

/-- **What a load does to the table**, whether it succeeds or not. -/
theorem table_partitionLoad (hw : Hw) (hn : n < 32) (hr : cpu ∈ fsblCpus) :
    Frame (TableStep n h cpu reset (EntryAllowed h cpu reset)) (partitionLoad hw n) := by
  intro w hp
  have hval : Frame (TableStep n h cpu reset (EntryAllowed h cpu reset))
      (partitionHeaderValidation hw n) := table_partitionHeaderValidation hw
  obtain ⟨hh, hcpu, hreset⟩ := hp
  cases hv : partitionHeaderValidation hw n w with
  | error e t =>
    have hf : partitionLoad hw n w = .error e t := bind_error.2 (.inl hv)
    rw [hf]
    exact hval.error hv ⟨hh, hcpu, hreset⟩
  | ok owned t =>
    obtain ⟨_, -, -, howned⟩ := partitionHeaderValidation_ok hv
    have hstep := hval.ok hv
    refine (trans_of _ hstep (final_bind hv ?_)) ⟨hh, hcpu, hreset⟩
    refine frame_when fun ho => ?_
    rw [if_pos ho] at howned
    obtain ⟨howner, hacc⟩ := howned
    rw [header_eq hn] at hh
    rw [hh, hcpu, hreset] at hacc
    rw [hh] at howner
    have hown : ¬ NotOwned h cpu reset := by
      rintro (hno | hno)
      · exact hno howner
      · exact hacc.owned hno
    refine frame_bind (table_partitionCopy hw hn hr fun h0 => ⟨hown, .inl h0, hacc.cpu⟩) fun _ => ?_
    refine frame_bind (table_partitionValidation hw hn hr fun hpl hpmu =>
      ⟨hown, .inr ⟨hpl, hpmu⟩, hacc.cpu⟩) fun _ => ?_
    refine frame_bind (frame_pmuFwLoadDone n) fun done => frame_when fun _ => ?_
    exact frame_bind (frame_act fun w hp => ⟨hp, .inl rfl⟩) fun _ => frame_wait hw _

end TableStep

/-! ## A successful load -/

section Success

variable {hw : Hw} {n : Nat} {h : PartitionHeader} {w w' v : World}

theorem replay_handoffValues_mem {u : HandoffValue} (w : World) (as : List Act)
    (hu : u ∈ w.inst.handoffValues) : u ∈ (w.replay as).inst.handoffValues := by
  induction as generalizing w with
  | nil => exact hu
  | cons a as ih =>
    refine ih _ ?_
    cases a with
    | handoffEntry m v => exact List.mem_append_left _ hu
    | _ => exact hu

/-- Behind the making of an entry its CPU is in the table. -/
theorem entryActs_present (hr : w.inst.processorID ∈ fsblCpus) (u : World)
    (hu : u.inst.handoffValues = w.inst.handoffValues) :
    ∃ v ∈ (u.replay (entryActs n h w.inst)).inst.handoffValues,
      v.cpu = h.effectiveCpu w.inst.processorID := by
  unfold entryActs
  dsimp only
  split
  · refine ⟨h.entry w.inst.processorID, ?_, cpu_entry h hr⟩
    exact List.mem_append_right _ List.mem_cons_self
  · rename_i hc
    rw [checkHandoffCpu_iff] at hc
    simp only [ne_eq, not_forall, not_not] at hc
    obtain ⟨v, hv, hk⟩ := hc
    exact ⟨v, hu ▸ hv, hk⟩

theorem partitionLoaded_present (hl : PartitionLoaded hw n h w w')
    (hr : w.inst.processorID ∈ fsblCpus)
    (ho : ¬ NotOwned h w.inst.processorID w.inst.resetReason) (he : h.Enters w.inst.processorID) :
    ∃ v ∈ w'.inst.handoffValues, v.cpu = h.effectiveCpu w.inst.processorID := by
  have kept {as bs : List Act} {u u' : World} (hm : Moves (as ++ bs) u u')
      (hp : ∃ v ∈ (u.replay as).inst.handoffValues, v.cpu = h.effectiveCpu w.inst.processorID) :
      ∃ v ∈ u'.inst.handoffValues, v.cpu = h.effectiveCpu w.inst.processorID := by
    obtain ⟨v, hv, hk⟩ := hp
    rw [hm.handoffValues, World.replay_append]
    exact ⟨v, replay_handoffValues_mem _ bs hv, hk⟩
  have inPlace {copy : List Act} (h0 : h.unEncryptedDataWordLength = 0)
      (hc : CopyActs n h w.inst copy) :
      ∃ v ∈ (w.replay (.headerChecked n true :: copy)).inst.handoffValues,
        v.cpu = h.effectiveCpu w.inst.processorID := by
    cases hc with
    | xip _ => exact entryActs_present hr _ rfl
    | plKept hne _ => exact absurd h0 hne
    | copied _ hne => exact absurd h0 hne
  cases hl with
  | skipped hno => exact absurd hno ho
  | plKept _ _ hk hcopy hi hm =>
    rcases he with h0 | ⟨hpl, -⟩
    · exact kept hm (inPlace h0 hcopy)
    · rw [hk.1] at hpl
      cases hpl
  | @loaded copy valid idle v la _ _ hk hcopy hmc hla hva hi hmv =>
    by_cases h0 : h.unEncryptedDataWordLength = 0
    · exact kept (hmc.trans hmv) (inPlace h0 hcopy)
    · obtain ⟨hpl, hpmu⟩ := he.resolve_left h0
      have hr' : v.inst.processorID ∈ fsblCpus := by rwa [hmc.processorID]
      have measured {m : Mem} {as : List Act} (hma : MeasuredActs hw n h v m la as) (u : World)
          (hu : u.inst.handoffValues = v.inst.handoffValues) :
          ∃ x ∈ (u.replay as).inst.handoffValues, x.cpu = h.effectiveCpu w.inst.processorID := by
        obtain ⟨hentry, -, -, -⟩ := hma
        rw [hmc.processorID] at hentry
        rw [if_pos hpmu] at hentry
        subst hentry
        rw [World.replay_append]
        obtain ⟨x, hx, hxk⟩ := entryActs_present (n := n) (h := h) hr' u hu
        rw [hmc.processorID] at hxk
        exact ⟨x, replay_handoffValues_mem _ _ hx, hxk⟩
      cases hva with
      | signedPl hpl' => simp [hpl] at hpl'
      | plainPl _ hpl' => simp [hpl] at hpl'
      | encryptedPl _ hpl' => simp [hpl] at hpl'
      | plain _ _ hma => exact kept hmv (measured hma v rfl)
      | decrypted data _ _ hma =>
        refine kept hmv ?_
        exact measured hma (v.effect (.placed n _ _ data)) rfl

/-- **A successful load refines one step of the table.** -/
theorem load_table (hr : w.inst.processorID ∈ fsblCpus) (hl : partitionLoad hw n w = .ok () w') :
    w'.inst.handoffValues = if Supplies w.inst n then
      insertFirst HandoffValue.cpu w.inst.handoffValues
        ((w.inst.imageHeader.header n).entry w.inst.processorID) else w.inst.handoffValues := by
  obtain ⟨hn, -, hload⟩ := partitionLoad_ok hl
  have hstep := (table_partitionLoad hw hn hr).ok hl ⟨rfl, rfl, rfl⟩
  rw [← header_eq hn] at hload
  by_cases hs : Supplies w.inst n
  · rw [if_pos hs]
    rcases hstep.2 with he | ⟨-, he⟩
    · obtain ⟨v, hv, hk⟩ := partitionLoaded_present hload hr hs.1 hs.2
      rw [he] at hv
      rw [he, insertFirst_present hv (by rw [hk, cpu_entry _ hr])]
    · exact he
  · rw [if_neg hs]
    rcases hstep.2 with he | ⟨ha, -⟩
    · exact he
    · exact absurd ⟨ha.1, ha.2.1⟩ hs

end Success

end MeasuredBoot
