import MeasuredBoot.BootStages
import MeasuredBoot.HandoffTable

/-!
# The handoff table of a run

`handoff_table`: in every state of every run the entries are those of the first partitions
loaded for their CPUs, at most eight, so the code never stores past the array. The
invariant `Tabled` says how many partitions the table is of; a pass of stage 3 adds one, also
where the load failed behind its entry.
-/

namespace MeasuredBoot

open Prog TransSys Firsts

/-! ## The table of the first partitions -/

/-- The table of the partitions 1 to `n`, all for CPUs the validator takes. -/
structure TableAt (inst : XFsblPs) (n : Nat) : Prop where
  table : inst.handoffValues = firsts HandoffValue.cpu (supplied inst n)
  cpus : ∀ k, 1 ≤ k → k ≤ n → Supplies inst k →
    ¬ (inst.imageHeader.header k).effectiveCpu inst.processorID > xihPhAttrbDestCpuPmu

section TableAt

variable {hw : Hw} {inst i j : XFsblPs} {n : Nat} {w w' : World}

theorem tableAt_zero (h : inst.handoffValues = []) : TableAt inst 0 where
  table := by
    rw [h]
    rfl
  cpus := by omega

theorem TableAt.nil (h : TableAt inst 0) : inst.handoffValues = [] := h.table

theorem TableAt.of_sources (h : TableAt i n) (hs : j.sources = i.sources)
    (ht : j.handoffValues = i.handoffValues) : TableAt j n := by
  obtain ⟨h1, h2, -⟩ := sources_eq hs
  refine ⟨by rw [ht, h.table, supplied_of_sources hs], fun k hk hkn hsup => ?_⟩
  rw [h1, h2]
  exact h.cpus k hk hkn ((supplies_of_sources hs k).1 hsup)

/-- The CPU of a supplier is one of a handoff, or the PMU. -/
theorem TableAt.cpu_mem (h : TableAt inst n) (hr : inst.processorID ∈ fsblCpus) {v : HandoffValue}
    (hv : v ∈ supplied inst n) : v.cpu ∈ xihPhAttrbDestCpuPmu :: handoffCpus := by
  obtain ⟨k, h1, hk, hs, rfl⟩ := mem_supplied.1 hv
  rw [cpu_entry _ hr, List.mem_cons]
  exact (effectiveCpu_cases hr (h.cpus k h1 hk hs)).symm

theorem TableAt.length_le (h : TableAt inst n) (hr : 0 < n → inst.processorID ∈ fsblCpus) :
    inst.handoffValues.length ≤ 8 := by
  rcases Nat.eq_zero_or_pos n with rfl | hn
  · rw [h.nil]
    exact Nat.zero_le 8
  · rw [h.table]
    exact length_firsts_le _ (xihPhAttrbDestCpuPmu :: handoffCpus) fun v hv => h.cpu_mem (hr hn) hv

/-- An entry is that of a partition that supplies one. -/
theorem TableAt.source (h : TableAt inst n) {v : HandoffValue} (hv : v ∈ inst.handoffValues) :
    ∃ k, 1 ≤ k ∧ k ≤ n ∧ Supplies inst k ∧
      v = (inst.imageHeader.header k).entry inst.processorID := by
  rw [h.table] at hv
  obtain ⟨pre, post, hs, -⟩ := (mem_firsts _ v).1 hv
  refine mem_supplied.1 ?_
  rw [hs]
  exact List.mem_append_right _ List.mem_cons_self

theorem TableAt.extend (h : TableAt w.inst n) (hs : w'.inst.sources = w.inst.sources)
    (ht : w'.inst.handoffValues = firsts HandoffValue.cpu (supplied w.inst (n + 1)))
    (hcpu : Supplies w.inst (n + 1) → ¬ (w.inst.imageHeader.header (n + 1)).effectiveCpu
      w.inst.processorID > xihPhAttrbDestCpuPmu) : TableAt w'.inst (n + 1) := by
  obtain ⟨h1, h2, -⟩ := sources_eq hs
  refine ⟨by rw [ht, supplied_of_sources hs], fun k hk hkn hsup => ?_⟩
  rw [h1, h2]
  rcases Nat.lt_or_eq_of_le hkn with hlt | rfl
  · exact h.cpus k hk (Nat.le_of_lt_succ hlt) ((supplies_of_sources hs k).1 hsup)
  · exact hcpu ((supplies_of_sources hs _).1 hsup)

theorem firsts_supplied_succ (inst : XFsblPs) (n : Nat) :
    firsts HandoffValue.cpu (supplied inst (n + 1)) = if Supplies inst (n + 1) then
      insertFirst HandoffValue.cpu (firsts HandoffValue.cpu (supplied inst n))
        ((inst.imageHeader.header (n + 1)).entry inst.processorID)
    else firsts HandoffValue.cpu (supplied inst n) := by
  rw [supplied_succ]
  by_cases hs : Supplies inst (n + 1)
  · rw [if_pos hs, if_pos hs, firsts_append_singleton]
  · rw [if_neg hs, if_neg hs, List.append_nil]

/-- A load that succeeds. -/
theorem TableAt.loaded (h : TableAt w.inst n) (hr : w.inst.processorID ∈ fsblCpus)
    (hl : partitionLoad hw (n + 1) w = .ok () w') : TableAt w'.inst (n + 1) := by
  refine h.extend (sources_of_fixed (partitionLoad_fixed hl)) ?_ fun hs => ?_
  · rw [load_table hr hl, firsts_supplied_succ, h.table]
  · obtain ⟨hn, -, hload⟩ := partitionLoad_ok hl
    rw [header_eq hn]
    unfold Supplies at hs
    rw [header_eq hn] at hs
    cases hload with
    | skipped hno => exact absurd hno hs.1
    | plKept _ ha => exact ha.cpu
    | loaded _ ha => exact ha.cpu

/-- All loads, from an empty table. -/
theorem Loaded.tableAt {P : Nat → World → Prop} (h : Loaded hw P w n w')
    (hr : w.inst.processorID ∈ fsblCpus) (h0 : w.inst.handoffValues = []) : TableAt w'.inst n := by
  induction h with
  | none => exact tableAt_zero h0
  | @next n v v' mask hld _ hl ih =>
    have hcpu : (v.apply (.loadCalled (n + 1))).inst.processorID ∈ fsblCpus := by
      show v.inst.processorID ∈ fsblCpus
      rwa [processorID_of_fixed hld.fixed]
    have htable : TableAt (v.apply (.loadCalled (n + 1))).inst n := ih
    exact (htable.loaded hcpu hl).of_sources rfl rfl

/-- A load that fails, before or behind its entry. -/
theorem TableAt.failed {e : Halt} (h : TableAt w.inst n) (hn : n + 1 < 32)
    (hr : w.inst.processorID ∈ fsblCpus) (hl : partitionLoad hw (n + 1) w = .error e w') :
    TableAt w'.inst n ∨ TableAt w'.inst (n + 1) := by
  obtain ⟨as, -, hm⟩ := (frame_partitionLoad hw (n + 1)).error hl
  have hs := sources_of_fixed hm.inst
  have hstep := (table_partitionLoad hw hn hr).error hl ⟨rfl, rfl, rfl⟩
  rcases hstep.2 with ht | ⟨ha, ht⟩
  · exact .inl (h.of_sources hs ht)
  · have hsup : Supplies w.inst (n + 1) := ⟨ha.1, ha.2.1⟩
    refine .inr (h.extend hs ?_ fun _ => ha.2.2)
    rw [ht, firsts_supplied_succ, if_pos hsup, h.table]

/-! ## No store past the array -/

theorem inside_updateHandoff (h : PartitionHeader) (destinationCpu : UInt32) :
    RaisesFrom (fun w => w.inst.handoffValues.length < maxHandoffValues) Inside
      (updateHandoff n h destinationCpu) := by
  intro w hlen e w' he
  rcases bind_error.1 he with he | ⟨v, t, hv, he⟩
  · simp at he
  obtain ⟨rfl, rfl⟩ := get_ok.1 hv
  split at he
  · exact absurd he (raises_act (E := fun _ => False) _ _ _ _)
  · simp at he

/-- **A load of a table of at most eight entries stays within the array.** -/
theorem inside_partitionLoad {e : Halt} (hr : w.inst.processorID ∈ fsblCpus)
    (hlen : w.inst.handoffValues.length ≤ 8) (hn : n < 32)
    (hN : (w.inst.imageHeader.imageHeaderTable.noOfPartitions - 1).toNat < 32)
    (h : partitionLoad hw n w = .error e w') : Inside e := by
  have hsame : ∀ v v' : World, SameTable v v' → v.inst.handoffValues.length < maxHandoffValues →
      v'.inst.handoffValues.length < maxHandoffValues := by
    intro v v' hs hv
    unfold SameTable at hs
    rwa [hs]
  rcases bind_error.1 h with h | ⟨owned, v, h1, h⟩
  · exact usual_partitionHeaderValidation hw hn _ _ _ h
  obtain ⟨as, -, m1⟩ := (frame_partitionHeaderValidation (R := Loads (PlaceAct n)) hw n).ok h1
  have hv : v.inst.handoffValues = w.inst.handoffValues := by
    have hval : Frame (TableStep n (w.inst.imageHeader.header n) w.inst.processorID
        w.inst.resetReason False) (partitionHeaderValidation hw n) :=
      table_partitionHeaderValidation hw
    rcases (hval.ok h1 ⟨rfl, rfl, rfl⟩).2 with ht | ⟨ha, -⟩
    · exact ht
    · exact ha.elim
  by_cases ho : owned = true
  · subst ho
    rcases bind_error.1 h with h | ⟨_, v₁, h2, h⟩
    · refine usual_partitionCopy hw hsame inside_updateHandoff hn v ?_ _ _ h
      show v.inst.handoffValues.length < maxHandoffValues
      rw [hv]
      exact Nat.lt_of_le_of_lt hlen (by decide)
    rcases bind_error.1 h with h | ⟨_, v₂, h3, h⟩
    · refine usual_partitionValidation hw hsame inside_updateHandoff hn v₁ ?_ _ _ h
      show v₁.inst.handoffValues.length < maxHandoffValues
      -- the copy made one entry at most
      have hr' : v.inst.processorID ∈ fsblCpus := by rwa [m1.processorID]
      have hcopy : Frame (TableStep n (v.inst.imageHeader.header n) v.inst.processorID
          v.inst.resetReason True) (partitionCopy hw n) :=
        table_partitionCopy hw hn hr' fun _ => trivial
      rcases (hcopy.ok h2 ⟨rfl, rfl, rfl⟩).2 with ht | ⟨-, ht⟩
      · rw [ht, hv]
        exact Nat.lt_of_le_of_lt hlen (by decide)
      · rw [ht, hv]
        refine Nat.lt_of_le_of_lt (length_insertFirst_le _ _) ?_
        exact Nat.lt_of_le_of_lt (Nat.succ_le_succ hlen) (by decide)
    obtain ⟨_, -, m2⟩ := (frame_partitionCopy hw n).ok h2
    obtain ⟨_, -, m3⟩ := (frame_partitionValidation hw n).ok h3
    refine usual_checkPmuFw hw hn ?_ h
    rwa [m3.imageHeader, m2.imageHeader, m1.imageHeader]
  · rw [when, if_neg ho] at h
    simp at h

theorem inside_load {e : Halt} (hr : w.inst.processorID ∈ fsblCpus)
    (hlen : w.inst.handoffValues.length ≤ 8) (hh : HeadersOk n w.inst.imageHeader)
    (h : partitionLoad hw n (w.apply (.loadCalled n)) = .error e w') : Inside e := by
  rcases hh with ⟨h2, h32, h1, hn⟩ | ⟨rfl, hz⟩
  · refine inside_partitionLoad (w := w.apply (.loadCalled n)) hr hlen (by omega) ?_ h
    show (w.inst.imageHeader.imageHeaderTable.noOfPartitions - 1).toNat < 32
    rw [toNat_sub_one (by omega)]
    omega
  · rcases bind_error.1 h with h | ⟨owned, v, hv, -⟩
    · exact usual_partitionHeaderValidation hw (by omega) _ _ _ h
    · exact absurd hv (partitionHeaderValidation_zero rfl hz)

end TableAt

/-! ## Passes -/

/-- The partitions 1 to `n` were loaded: each load that succeeded, and no load that was not
called. -/
structure LoadedTo (n : Nat) (as : List Act) : Prop where
  returned : ∀ k, .loadReturned k xfsblSuccess ∈ as → k ≤ n
  called : ∀ k, 1 ≤ k → k ≤ n → .loadCalled k ∈ as

/-- What a run keeps about the table of `n` partitions. -/
structure Tabled (s : MainState) (n : Nat) : Prop where
  loads : LoadedTo n s.world.trace
  table : TableAt s.world.inst n
  early : s.locals.fsblStage = .stage1 ∨ s.locals.fsblStage = .stage2 → n = 0
  next : s.locals.fsblStage = .stage3 → s.locals.partitionNum = n + 1
  cpu : 0 < n ∨ s.locals.fsblStage = .stage2 ∨ s.locals.fsblStage = .stage3 →
    s.world.inst.processorID ∈ fsblCpus

section Passes

variable {hw : Hw} {n : Nat} {as bs : List Act} {w w' : World} {s : MainState}

theorem LoadedTo.append (h : LoadedTo n as) (hb : ∀ k, .loadReturned k xfsblSuccess ∈ bs → k ≤ n) :
    LoadedTo n (as ++ bs) := by
  refine ⟨fun k hk => ?_, fun k h1 hk => List.mem_append_left _ (h.called k h1 hk)⟩
  rcases List.mem_append.1 hk with hk | hk
  · exact h.returned k hk
  · exact hb k hk

theorem LoadedTo.succ (h : LoadedTo n as) (hc : .loadCalled (n + 1) ∈ bs)
    (hb : ∀ k, .loadReturned k xfsblSuccess ∈ bs → k = n + 1) : LoadedTo (n + 1) (as ++ bs) := by
  refine ⟨fun k hk => ?_, fun k h1 hk => ?_⟩
  · rcases List.mem_append.1 hk with hk | hk
    · exact Nat.le_succ_of_le (h.returned k hk)
    · exact Nat.le_of_eq (hb k hk)
  · rcases Nat.lt_or_eq_of_le hk with hlt | rfl
    · exact List.mem_append_left _ (h.called k h1 (Nat.le_of_lt_succ hlt))
    · exact List.mem_append_right _ hc

theorem processorInit_cpu (h : processorInit hw w = .ok () w') :
    w'.inst.processorID ∈ fsblCpus := by
  obtain ⟨mpidr, v₁, -, h⟩ := bind_ok.1 h
  obtain ⟨platform, v₂, -, h⟩ := bind_ok.1 h
  obtain ⟨clusterId, v₃, -, h⟩ := bind_ok.1 h
  split at h
  · obtain rfl := modifyInst_ok.1 h
    exact List.mem_cons_self
  split at h
  · obtain ⟨reg, v₄, -, h⟩ := bind_ok.1 h
    obtain ⟨_, v₅, h5, h⟩ := bind_ok.1 h
    obtain rfl := modifyInst_ok.1 h5
    obtain rfl := act_ok.1 h
    show (if reg &&& rpuGlblCntlSlsplitMask = 0 then xihPhAttrbDestCpuR5L
      else xihPhAttrbDestCpuR5_0) ∈ fsblCpus
    split
    · decide
    · decide
  · simp at h

/-- Stage 1 finds one of the processors of the FSBL. -/
theorem fsblInitialize_cpu (h : fsblInitialize hw w = .ok () w') :
    w'.inst.processorID ∈ fsblCpus := by
  obtain ⟨resetReason, v₁, -, h⟩ := bind_ok.1 h
  obtain ⟨_, v₂, -, h⟩ := bind_ok.1 h
  obtain ⟨_, v₃, -, h⟩ := bind_ok.1 h
  obtain ⟨_, v₄, h4, h⟩ := bind_ok.1 h
  obtain ⟨_, v₅, h5, h⟩ := bind_ok.1 h
  obtain ⟨_, v₆, h6, h⟩ := bind_ok.1 h
  have hboard : Loads TcmInit v₄ v₅ := rel_of_ok h5 <| frame_when fun _ =>
    frame_bind (frame_bind frame_get fun _ => frame_when fun _ => frame_tcmEccInit hw _) fun _ =>
      frame_checked hw _
  obtain ⟨_, -, hm⟩ := hboard
  obtain rfl := act_ok.1 h6
  obtain rfl := act_ok.1 h
  show v₅.inst.processorID ∈ fsblCpus
  rw [hm.processorID]
  exact processorInit_cpu h4

theorem final_runStage3 (n : Nat) (w : World) :
    final (runStage3 hw n w) = final (loadAndMark hw n w) := by
  refine final_seq (fun status t => ?_) w
  split
  · rfl
  · show final ((if n < (t.inst.imageHeader.imageHeaderTable.noOfPartitions - 1).toNat then
      pure ⟨.stage3, n + 1, status⟩ else pure ⟨.stage4, n, status⟩ : Fsbl Locals) t) = t
    split <;> rfl

/-- The state behind a pass whose load succeeds. -/
theorem final_stage3_ok {v : World} (hn : n < 32)
    (hl : partitionLoad hw n (w.apply (.loadCalled n)) = .ok () v) :
    final (runStage3 hw n w) = (v.apply (.loadReturned n xfsblSuccess)).apply
      (.r5Used (usedRPUMask (v.inst.imageHeader.header n) v.inst.processorID)) := by
  have hstatus : statusOf (partitionLoad hw n) (w.apply (.loadCalled n)) = .ok xfsblSuccess v := by
    unfold statusOf
    rw [hl]
  have hheader (u : World) : header n u = .ok (u.inst.imageHeader.header n) u :=
    header_ok.2 ⟨⟨hn, (header_eq hn).symm⟩, rfl⟩
  rw [final_runStage3]
  show final (((statusOf (partitionLoad hw n)) >>= _) (w.apply (.loadCalled n))) = _
  rw [bind_apply, hstatus]
  show final ((markUsedRPUCores n >>= _) (v.apply (.loadReturned n xfsblSuccess))) = _
  rw [final_seq fun _ _ => rfl]
  show final ((header n >>= _) (v.apply (.loadReturned n xfsblSuccess))) = _
  rw [bind_apply, hheader]
  rfl

/-- The state behind a pass whose load fails. -/
theorem final_stage3_error {v : World} {e : Halt} (he : e ≠ .status xfsblSuccess)
    (hl : partitionLoad hw n (w.apply (.loadCalled n)) = .error e v) :
    final (runStage3 hw n w) = v ∨
      ∃ code, code ≠ xfsblSuccess ∧ final (runStage3 hw n w) = v.apply (.loadReturned n code) := by
  rw [final_runStage3]
  have hr : loadAndMark hw n w = (statusOf (partitionLoad hw n) >>= fun status => do
      act (.loadReturned n status)
      when (status = xfsblSuccess) (markUsedRPUCores n)
      pure status) (w.apply (.loadCalled n)) := rfl
  cases e with
  | status code =>
    have hne : code ≠ xfsblSuccess := fun hc => he (by rw [hc])
    have hstatus : statusOf (partitionLoad hw n) (w.apply (.loadCalled n)) = .ok code v := by
      unfold statusOf
      rw [hl]
    right
    refine ⟨code, hne, ?_⟩
    rw [hr, bind_apply, hstatus]
    show final ((when (code = xfsblSuccess) (markUsedRPUCores n) >>= _)
      (v.apply (.loadReturned n code))) = _
    rw [final_seq fun _ _ => rfl, when, if_neg hne]
    rfl
  | _ =>
    left
    rw [hr, bind_apply, statusOf, hl]
    rfl

theorem loadAct_not_returned {k : Nat} {status : UInt32} (a : Act) (h : LoadAct n a) :
    a ≠ .loadReturned k status := by
  rintro rfl
  exact h

theorem passAct_not_returned {k : Nat} {status : UInt32} {l : Locals} (hl : l.fsblStage ≠ .stage3)
    (a : Act) (h : PassAct hw l a) : a ≠ .loadReturned k status := by
  rintro rfl
  rcases passAct_control h rfl with ⟨hs, -⟩ | ⟨-, hs⟩
  · exact hl hs
  · cases hs

/-- A pass outside stage 3 returns from no load. -/
theorem LoadedTo.pass (h : LoadedTo n s.world.trace) (hs : s.locals.fsblStage ≠ .stage3) :
    LoadedTo n (mainStep hw s).world.trace := by
  obtain ⟨as, ha, hd⟩ := pass_emits hw s
  rw [hd.trace]
  exact h.append fun k hk => absurd rfl (passAct_not_returned hs _ (ha _ hk))

theorem Tabled.early_step (h : Tabled s n) (hok : PassOk s)
    (hs : s.locals.fsblStage = .stage1 ∨ s.locals.fsblStage = .stage2) :
    Tabled (mainStep hw s) n := by
  have hn : n = 0 := h.early hs
  subst hn
  have h3 : s.locals.fsblStage ≠ .stage3 := by
    rcases hs with hs | hs <;> rw [hs] <;> nofun
  have htable : (mainStep hw s).world.inst.handoffValues = [] := by
    have hsame : SameTable s.world (mainStep hw s).world := by
      refine (pass_emits hw s).sameTable ?_
      rintro a ha m v rfl
      unfold PassAct at ha
      rcases hs with hs | hs
      · simp only [hs] at ha
        exact ha
      · simp only [hs] at ha
        rcases ha with ha | ⟨mask, ha⟩ | ha
        · exact ha
        · cases ha
        · cases ha
    exact hsame.trans h.table.nil
  have hpass : Pass hw s (mainStep hw s) := mainStep_cases hok
  refine ⟨h.loads.pass h3, tableAt_zero htable, fun _ => rfl, fun ht => ?_, fun ht => ?_⟩
  · cases hpass with
    | initialized _ _ hl => simp [hl] at ht
    | booted _ _ _ hl => rw [hl]
    | jtag _ _ _ hl => simp [hl] at ht
    | loaded hs' => exact absurd hs' h3
    | failed hl => simp [hl] at ht
    | ended _ hl => simp [hl] at ht
  · replace ht := ht.resolve_left (Nat.lt_irrefl 0)
    cases hpass with
    | initialized _ hi _ => exact fsblInitialize_cpu hi
    | @booted v hs' hb hw' _ =>
      have hreset := ((frame_bootDeviceInitAndValidate (f := XFsblPs.reset) hw fun _ _ => rfl).ok hb).2
      have hcpu := congrArg Prod.fst hreset
      rw [hw']
      show v.inst.processorID ∈ fsblCpus
      have hv : v.inst.processorID = s.world.inst.processorID := hcpu
      rw [hv]
      exact h.cpu (.inr (.inl hs'))
    | jtag _ _ _ hl => simp [hl] at ht
    | loaded hs' => exact absurd hs' h3
    | failed hl => simp [hl] at ht
    | ended _ hl => simp [hl] at ht

theorem not_over_of_early (h : s.locals.fsblStage = .stage1 ∨ s.locals.fsblStage = .stage2) :
    ¬ s.Over := by
  rcases h with h | h <;> simp [MainState.Over, h]

theorem not_over_of_stage3 (h : s.locals.fsblStage = .stage3) : ¬ s.Over := by
  simp [MainState.Over, h]

theorem Tabled.load_step (h : Tabled s n) (hok : PassOk s) (hs : s.locals.fsblStage = .stage3) :
    ∃ m, Tabled (mainStep hw s) m := by
  obtain ⟨⟨stage, k, status⟩, w⟩ := s
  obtain rfl : stage = .stage3 := hs
  obtain rfl : k = n + 1 := h.next rfl
  have hheaders : HeadersOk (n + 1) w.inst.imageHeader := hok.1 rfl
  have hcpu : (w.apply (.loadCalled (n + 1))).inst.processorID ∈ fsblCpus := h.cpu (.inr (.inr rfl))
  have htable : TableAt (w.apply (.loadCalled (n + 1))).inst n := h.table
  have hloads : LoadedTo n w.trace := h.loads
  have hworld : (mainStep hw ⟨⟨.stage3, n + 1, status⟩, w⟩).world = final (runStage3 hw (n + 1) w) :=
    mainStep_world hw _
  have hpass : Pass hw ⟨⟨.stage3, n + 1, status⟩, w⟩ (mainStep hw ⟨⟨.stage3, n + 1, status⟩, w⟩) :=
    mainStep_cases hok
  generalize mainStep hw ⟨⟨.stage3, n + 1, status⟩, w⟩ = t at hworld hpass ⊢
  cases hl : partitionLoad hw (n + 1) (w.apply (.loadCalled (n + 1))) with
  | ok u v =>
    obtain ⟨as, ha, hm⟩ := (frame_partitionLoad hw (n + 1)).ok hl
    have hfinal := final_stage3_ok hheaders.lt hl
    rw [hfinal] at hworld
    have hcpu' : v.inst.processorID ∈ fsblCpus := by
      rw [hm.processorID]
      exact hcpu
    refine ⟨n + 1, ?_, ?_, fun hs => ?_, fun hs => ?_, fun _ => ?_⟩
    · rw [hworld, World.trace_apply, World.trace_apply, hm.trace, World.trace_apply]
      simp only [List.append_assoc]
      refine hloads.succ (List.mem_append_left _ List.mem_cons_self) fun k hk => ?_
      rcases List.mem_append.1 hk with hk | hk
      · simp at hk
      rcases List.mem_append.1 hk with hk | hk
      · exact absurd rfl (loadAct_not_returned _ (ha _ hk))
      · simpa using hk
    · rw [hworld]
      exact (htable.loaded hcpu hl).of_sources rfl rfl
    · cases hpass with
      | loaded _ _ _ ht => rw [ht] at hs; split at hs <;> simp at hs
      | failed ht => simp [ht] at hs
      | ended _ ht => simp [ht] at hs
      | _ hs' => cases hs'
    · cases hpass with
      | loaded _ _ _ ht =>
        rw [ht] at hs ⊢
        split at hs
        · rename_i hlt
          rw [if_pos hlt]
        · cases hs
      | failed ht => simp [ht] at hs
      | ended _ ht => simp [ht] at hs
      | _ hs' => cases hs'
    · rw [hworld]
      exact hcpu'
  | error e v =>
    obtain ⟨as, ha, hm⟩ := (frame_partitionLoad hw (n + 1)).error hl
    have hne : e ≠ .status xfsblSuccess :=
      (HeadersOk.proper (w := w.apply (.loadCalled (n + 1))) hheaders hl).2
    have hover : t.Over := by
      cases hpass with
      | failed ht => exact .inl ht
      | ended _ ht => exact .inr (.inr ⟨_, ht⟩)
      | loaded _ hl' => rw [hl] at hl'; cases hl'
      | _ hs' => cases hs'
    -- the pass ends with the load, or with its return
    obtain ⟨bs, hinst, htrace, hbs⟩ : ∃ bs, t.world.inst = v.inst ∧
        t.world.trace = v.trace ++ bs ∧
        ∀ k, .loadReturned k xfsblSuccess ∉ bs := by
      rw [hworld]
      rcases final_stage3_error hne hl with hf | ⟨code, hcode, hf⟩
      · exact ⟨[], by rw [hf], by rw [hf, List.append_nil], fun k => List.not_mem_nil⟩
      · refine ⟨[.loadReturned (n + 1) code], by rw [hf]; rfl, by rw [hf]; rfl, fun k hk => ?_⟩
        simp only [List.mem_singleton, Act.loadReturned.injEq] at hk
        exact hcode hk.2.symm
    have hret : ∀ k, .loadReturned k xfsblSuccess ∉ .loadCalled (n + 1) :: (as ++ bs) := by
      intro k hk
      rcases List.mem_cons.1 hk with hk | hk
      · cases hk
      rcases List.mem_append.1 hk with hk | hk
      · exact loadAct_not_returned _ (ha _ hk) rfl
      · exact hbs k hk
    have htrace' : t.world.trace =
        w.trace ++ .loadCalled (n + 1) :: (as ++ bs) := by
      rw [htrace, hm.trace, World.trace_apply]
      simp
    have hcpu' : t.world.inst.processorID ∈ fsblCpus := by
      rw [hinst, hm.processorID]
      exact hcpu
    rcases htable.failed hheaders.lt hcpu hl with ht | ht
    · refine ⟨n, ?_, ht.of_sources (by rw [hinst]) (by rw [hinst]), ?_, ?_, fun _ => hcpu'⟩
      · rw [htrace']
        exact hloads.append fun k hk => absurd hk (hret k)
      · exact fun hs => absurd hover (not_over_of_early hs)
      · exact fun hs => absurd hover (not_over_of_stage3 hs)
    · refine ⟨n + 1, ?_, ht.of_sources (by rw [hinst]) (by rw [hinst]), ?_, ?_, fun _ => hcpu'⟩
      · rw [htrace']
        exact hloads.succ List.mem_cons_self fun k hk => absurd hk (hret k)
      · exact fun hs => absurd hover (not_over_of_early hs)
      · exact fun hs => absurd hover (not_over_of_stage3 hs)

/-- Behind the loads the table stays. -/
theorem Tabled.late_step (h : Tabled s n) (hok : PassOk s)
    (hs : s.locals.fsblStage = .stage4 ∨ s.Over) : Tabled (mainStep hw s) n := by
  have h3 : s.locals.fsblStage ≠ .stage3 := by
    rintro h3
    rcases hs with hs | hs
    · rw [h3] at hs
      cases hs
    · exact not_over_of_stage3 h3 hs
  have hover : (mainStep hw s).Over := mainStep_over hok (hs.symm)
  have hkept : (mainStep hw s).world.inst.sources = s.world.inst.sources ∧
      SameTable s.world (mainStep hw s).world := by
    rcases hs with hs | hs
    · obtain ⟨as, ha, hm⟩ := handoff_pass hw hs
      refine ⟨sources_of_fixed hm.inst, hm.toDoes.sameTable ?_⟩
      rintro a hmem m v rfl
      exact ha _ hmem
    · have hk : Keeps XFsblPs.sources (fun _ => False) s.world (mainStep hw s).world :=
        over_pass hw (fun _ _ => rfl) hs
      exact ⟨hk.2, hk.1.sameTable fun _ hf => hf.elim⟩
  refine ⟨h.loads.pass h3, h.table.of_sources hkept.1 hkept.2, ?_, ?_, fun hc => ?_⟩
  · exact fun hs' => absurd hover (not_over_of_early hs')
  · exact fun hs' => absurd hover (not_over_of_stage3 hs')
  · rcases hc with hc | hc | hc
    · rw [(sources_eq hkept.1).2.1]
      exact h.cpu (.inl hc)
    · exact absurd hover (not_over_of_early (.inr hc))
    · exact absurd hover (not_over_of_stage3 hc)

theorem Tabled.step (h : Tabled s n) (hok : PassOk s) : ∃ m, Tabled (mainStep hw s) m := by
  cases hs : s.locals.fsblStage with
  | stage1 => exact ⟨n, h.early_step hok (.inl hs)⟩
  | stage2 => exact ⟨n, h.early_step hok (.inr hs)⟩
  | stage3 => exact h.load_step hok hs
  | stage4 => exact ⟨n, h.late_step hok (.inl hs)⟩
  | stageErr => exact ⟨n, h.late_step hok (.inr (.inl hs))⟩
  | stageDefault => exact ⟨n, h.late_step hok (.inr (.inr (.inl hs)))⟩
  | ended e => exact ⟨n, h.late_step hok (.inr (.inr (.inr ⟨e, hs⟩)))⟩

/-- **No pass stores past the handoff table.** -/
theorem Tabled.inside (h : Tabled s n) (hok : PassOk s) (hrun : s.Running) {e : Halt} {w : World}
    (he : runStage hw s.locals s.world = .error e w) : e ≠ .handoffOutOfBounds := by
  have inside {α : Type} {c : Fsbl α} (hc : Raises (· ≠ .handoffOutOfBounds) c) {v v' : World}
      (h : c v = .error e v') : e ≠ .handoffOutOfBounds := hc _ _ _ h
  have choice {p : Prop} [Decidable p] {l l' : Locals} :
      Raises (· ≠ Halt.handoffOutOfBounds) (if p then pure l else pure l' : Fsbl Locals) :=
    raises_ite (fun _ => raises_pure _) fun _ => raises_pure _
  obtain ⟨⟨stage, k, status⟩, w₀⟩ := s
  cases stage with
  | stage1 =>
    refine inside (raises_bind (raises_statusOf ?_) fun _ => choice) he
    exact (usual_fsblInitialize (E := Inside) hw).mono fun _ he => he.2
  | stage2 =>
    refine inside (raises_bind (raises_statusOf ?_) fun _ => ?_) he
    · exact fun _ _ _ h => (raises_bootDeviceInitAndValidate hw h).1.2
    refine raises_ite (fun _ => raises_pure _) fun _ => raises_ite (fun _ => ?_) fun _ => ?_
    · exact raises_bind (raises_act _) fun _ => raises_pure _
    · exact raises_bind (raises_act _) fun _ => raises_pure _
  | stage3 =>
    obtain rfl : k = n + 1 := h.next rfl
    have hheaders : HeadersOk (n + 1) w₀.inst.imageHeader := hok.1 rfl
    rcases bind_error.1 he with he | ⟨status, v, -, he⟩
    · rcases bind_error.1 he with he | ⟨_, v, h1, he⟩
      · exact inside (raises_act _) he
      obtain rfl := act_ok.1 h1
      rcases bind_error.1 he with he | ⟨status, v, -, he⟩
      · exact (inside_load (h.cpu (.inr (.inr rfl))) (h.table.length_le fun hn => h.cpu (.inl hn))
          hheaders (statusOf_error he)).2
      · refine inside (raises_bind (raises_act _) fun _ => ?_) he
        refine raises_bind (raises_when fun _ => ?_) fun _ => raises_pure _
        refine raises_bind (raises_header hheaders.lt) fun _ => ?_
        exact raises_bind raises_get fun _ => raises_act _
    · exact inside (raises_ite (fun _ => raises_pure _) fun _ => raises_bind raises_get fun _ => choice)
        he
  | stage4 =>
    refine inside (raises_bind (raises_statusOf ?_) fun _ => ?_) he
    · exact (raises_handoff hw (hok.2 rfl)).mono fun _ he => he.1.2
    · exact raises_ite (fun _ => raises_pure _) fun _ => raises_ite (fun _ => raises_pure _) fun _ => choice
  | stageErr =>
    refine inside (raises_bind (raises_bind (raises_modifyInst _) fun _ => ?_) fun _ => raises_pure _)
      he
    refine raises_bind (raises_readReg hw _) fun _ => raises_ite (fun _ => ?_) fun _ => ?_
    · refine raises_bind raises_get fun _ => raises_ite (fun _ => ?_) fun _ => ?_
      · exact raises_throw (by simp)
      · exact raises_throw (by simp)
    · exact raises_throw (by simp)
  | stageDefault =>
    obtain ⟨rfl, -⟩ := throw_error.1 he
    simp
  | ended e' => exact absurd rfl (hrun e')

end Passes

/-! ## Runs -/

/-- A partition whose entry its first load makes: the FSBL owns it, and it is neither for the PL
nor for the PMU. -/
def HandsOff (inst : XFsblPs) (n : Nat) : Prop :=
  ¬ NotOwned (inst.imageHeader.header n) inst.processorID inst.resetReason ∧
    (inst.imageHeader.header n).toPl = false ∧
    (inst.imageHeader.header n).effectiveCpu inst.processorID ≠ xihPhAttrbDestCpuPmu

/-- The handoff table of the partitions 1 to `n`. -/
structure HandoffTable (inst : XFsblPs) (n : Nat) : Prop where
  distinct : (inst.handoffValues.map HandoffValue.cpu).Nodup
  fits : inst.handoffValues.length ≤ maxHandoffValues
  /-- An entry is of the first partition for its CPU. -/
  first : ∀ v ∈ inst.handoffValues, ∃ k, 1 ≤ k ∧ k ≤ n ∧
    ¬ NotOwned (inst.imageHeader.header k) inst.processorID inst.resetReason ∧
    v = (inst.imageHeader.header k).entry inst.processorID ∧
    (∀ j, 1 ≤ j → j < k → HandsOff inst j →
      (inst.imageHeader.header j).effectiveCpu inst.processorID ≠ v.cpu) ∧
    ((inst.imageHeader.header k).unEncryptedDataWordLength ≠ 0 →
      HandsOff inst k ∧ v.cpu ∈ handoffCpus)
  /-- The CPU of a loaded partition has an entry. -/
  present : ∀ k, 1 ≤ k → k ≤ n → HandsOff inst k → ∃ v ∈ inst.handoffValues,
    v.cpu = (inst.imageHeader.header k).effectiveCpu inst.processorID ∧ v.cpu ∈ handoffCpus

section Run

variable {hw : Hw} {n : Nat} {s₀ s : MainState} {G : MainState → Prop} {inst : XFsblPs}

theorem HandsOff.supplies (h : HandsOff inst n) : Supplies inst n := ⟨h.1, .inr h.2⟩

/-- An entry of the list is of a partition, and those before it are of the partitions before. -/
theorem supplied_split {pre post : List HandoffValue} {v : HandoffValue}
    (h : supplied inst n = pre ++ v :: post) :
    ∃ k, 1 ≤ k ∧ k ≤ n ∧ Supplies inst k ∧ v = (inst.imageHeader.header k).entry inst.processorID ∧
      pre = supplied inst (k - 1) := by
  induction n generalizing post with
  | zero => simp [supplied] at h
  | succ n ih =>
    have earlier {post : List HandoffValue} (h : supplied inst n = pre ++ v :: post) :
        ∃ k, 1 ≤ k ∧ k ≤ n + 1 ∧ Supplies inst k ∧
          v = (inst.imageHeader.header k).entry inst.processorID ∧ pre = supplied inst (k - 1) := by
      obtain ⟨k, h1, hk, hrest⟩ := ih h
      exact ⟨k, h1, Nat.le_succ_of_le hk, hrest⟩
    rw [supplied_succ] at h
    by_cases hs : Supplies inst (n + 1)
    · rw [if_pos hs] at h
      rcases List.eq_nil_or_concat post with rfl | ⟨post, d, rfl⟩
      · obtain ⟨hpre, hv⟩ := List.append_inj' h rfl
        refine ⟨n + 1, Nat.succ_pos n, Nat.le_refl _, hs, ?_, hpre.symm⟩
        exact (List.singleton_inj.1 hv).symm
      · rw [List.concat_eq_append, ← List.cons_append, ← List.append_assoc] at h
        exact earlier (List.append_inj' h rfl).1
    · rw [if_neg hs, List.append_nil] at h
      exact earlier h

/-- What a table of first entries is. -/
theorem TableAt.handoffTable (h : TableAt inst n) (hr : 0 < n → inst.processorID ∈ fsblCpus) :
    HandoffTable inst n := by
  have released {k : Nat} (h1 : 1 ≤ k) (hk : k ≤ n) (hs : HandsOff inst k) :
      (inst.imageHeader.header k).effectiveCpu inst.processorID ∈ handoffCpus := by
    have hcpu := hr (by omega)
    exact (effectiveCpu_cases hcpu (h.cpus k h1 hk hs.supplies)).resolve_right hs.2.2
  constructor
  · rw [h.table]
    exact nodup_firsts _
  · exact Nat.le_trans (h.length_le hr) (by decide)
  · intro v hv
    rw [h.table, mem_firsts] at hv
    obtain ⟨pre, post, hl, hpre⟩ := hv
    obtain ⟨k, h1, hk, hs, rfl, rfl⟩ := supplied_split hl
    have hcpu := hr (by omega)
    refine ⟨k, h1, hk, hs.1, rfl, fun j hj hjk hhands => ?_, fun hne => ?_⟩
    · rw [← cpu_entry _ hcpu]
      exact hpre _ (mem_supplied.2 ⟨j, hj, by omega, hhands.supplies, rfl⟩)
    · have hhands : HandsOff inst k := ⟨hs.1, hs.2.resolve_left hne⟩
      rw [cpu_entry _ hcpu]
      exact ⟨hhands, released h1 hk hhands⟩
  · intro k h1 hk hs
    have hcpu := hr (by omega)
    have hmem : (inst.imageHeader.header k).entry inst.processorID ∈ supplied inst n :=
      mem_supplied.2 ⟨k, h1, hk, hs.supplies, rfl⟩
    obtain ⟨v, hv, hkey⟩ := (@mem_keys_firsts _ _ _ HandoffValue.cpu _ _).2 ⟨_, hmem, rfl⟩
    rw [cpu_entry _ hcpu] at hkey
    rw [h.table]
    exact ⟨v, hv, hkey, hkey ▸ released h1 hk hs⟩

/-- Every state of a run has the table of the partitions loaded. -/
theorem run_tabled (h₀ : (boot hw).init s₀) (h : (boot hw).Run G s₀ s) :
    (∃ n, Tabled s n) ∧ s.locals.fsblStage ≠ .ended .handoffOutOfBounds := by
  induction h with
  | refl =>
    have hstage : s₀.locals.fsblStage = .stage1 := by rw [h₀.1]
    refine ⟨⟨0, ?_, tableAt_zero (by rw [h₀.2.inst]; rfl), fun _ => rfl, ?_, ?_⟩, ?_⟩
    · rw [h₀.2.trace]
      exact ⟨fun k hk => absurd hk List.not_mem_nil, by omega⟩
    · rw [hstage]
      nofun
    · rw [hstage]
      rintro (hc | hc | hc)
      · exact absurd hc (Nat.lt_irrefl 0)
      · cases hc
      · cases hc
    · rw [hstage]
      nofun
  | @snoc s t hr _ hn ih =>
    obtain ⟨hrun, rfl⟩ := hn
    obtain ⟨⟨n, ih⟩, -⟩ := ih
    have hok := (run_history h₀ hr).passOk
    refine ⟨ih.step hok, fun he => ?_⟩
    unfold mainStep at he
    cases hstage : runStage hw s.locals s.world with
    | error e w =>
      rw [hstage] at he
      obtain rfl := Stage.ended.inj he
      exact ih.inside hok hrun hstage rfl
    | ok l w =>
      have hpass : Pass hw s (mainStep hw s) := mainStep_cases hok
      have hl : (mainStep hw s).locals = l := by
        unfold mainStep
        rw [hstage]
      rw [hstage] at he
      cases hpass with
      | ended hr => rw [hstage] at hr; cases hr
      | failed ht => rw [hl, he] at ht; cases ht
      | initialized _ _ ht => rw [← hl, ht] at he; cases he
      | booted _ _ _ ht => rw [← hl, ht] at he; cases he
      | jtag _ _ _ ht => rw [← hl, ht] at he; cases he
      | loaded _ _ _ ht => rw [← hl, ht] at he; split at he <;> cases he

/-- **The handoff table of every state of every run.** -/
theorem handoff_table (h : (boot hw).Reachable s) :
    (∃ n, LoadedTo n s.world.trace ∧ HandoffTable s.world.inst n) ∧
      s.locals.fsblStage ≠ .ended .handoffOutOfBounds := by
  obtain ⟨s₀, h₀, hr⟩ := h
  obtain ⟨⟨n, ht⟩, hs⟩ := run_tabled h₀ hr
  exact ⟨⟨n, ht.loads, ht.table.handoffTable fun hn => ht.cpu (.inl hn)⟩, hs⟩

/-- The table behind the load of one partition. -/
theorem handoff_table_plainBoard :
    (∃ n, LoadedTo n (plainBoard.after 3).world.trace ∧
        HandoffTable (plainBoard.after 3).world.inst n) ∧
      (plainBoard.after 3).locals.fsblStage ≠ .ended .handoffOutOfBounds := by
  have hr : (boot plainBoard.hw).Reachable (plainBoard.after 3) :=
    ⟨_, init_powerOn _, plainBoard.run 0 3 (by decide +kernel)⟩
  exact handoff_table hr

/-- A bitstream that names the A53 stands before the first partition for it. -/
def bitstreamBoard : Board := qspiBoard [{ exec := 0, attributes := 0x120 }, {}]

/-- The first partition loaded for a CPU may have no entry. -/
theorem not_handoff_first :
    ¬ ∀ (hw : Hw) (s : MainState) (n k : Nat), (boot hw).Reachable s → LoadedTo n s.world.trace →
      1 ≤ k → k ≤ n →
      ¬ NotOwned (s.world.inst.imageHeader.header k) s.world.inst.processorID
        s.world.inst.resetReason →
      (∀ j, 1 ≤ j → j < k →
        (s.world.inst.imageHeader.header j).effectiveCpu s.world.inst.processorID ≠
          (s.world.inst.imageHeader.header k).effectiveCpu s.world.inst.processorID) →
      (s.world.inst.imageHeader.header k).entry s.world.inst.processorID ∈
        s.world.inst.handoffValues := by
  intro h
  have hr : (boot bitstreamBoard.hw).Run (fun _ => True) powerOn (bitstreamBoard.after 4) :=
    bitstreamBoard.run 0 4 (by decide +kernel)
  obtain ⟨⟨n, ht⟩, -⟩ := run_tabled (init_powerOn _) hr
  have hret : ((bitstreamBoard.after 4).world.trace.any fun a =>
      match a with
      | .loadReturned 1 status => status == xfsblSuccess
      | _ => false) = true := by decide +kernel
  obtain ⟨a, ha, hret⟩ := List.any_eq_true.1 hret
  have hn : 1 ≤ n := by
    split at hret
    · rw [beq_iff_eq.1 hret] at ha
      exact ht.loads.returned 1 ha
    · cases hret
  have hmem := h bitstreamBoard.hw (bitstreamBoard.after 4) n 1 ⟨_, init_powerOn _, hr⟩ ht.loads
    (Nat.le_refl 1) hn (by decide +kernel) (fun j h1 hj => by omega)
  revert hmem
  decide +kernel

end Run

end MeasuredBoot
