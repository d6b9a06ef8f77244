import MeasuredBoot.Errors
import MeasuredBoot.Main
import MeasuredBoot.PartitionLoaded

/-!
# Passes of the stage machine

`pass_emits`: the kinds of acts of one pass of the loop in `main`, by stage (`PassAct`).
`mainStep_cases`: what one pass does (`Pass`): a stage succeeds, or the next stage
is the error stage, or the run ends. The invariants of runs follow from these two.
-/

namespace MeasuredBoot

open Prog

/-! ## Handoff -/

/-- The acts of a handoff behind its call. -/
def HandoffAct : Act → Prop
  | .stored start bytes => start = 0xFFFC0000 ∧ bytes.length = 4
  | .resetVector .. => True
  | .poweredUp _ => True
  | .released _ => True
  | _ => False

section Frames

variable (hw : Hw)

theorem frame_setCpuPwrSettings (cpuSettings flags : UInt32) :
    Frame (Loads HandoffAct) (setCpuPwrSettings hw cpuSettings flags) := by
  refine frame_ite (fun _ => ?_) fun _ => frame_pure _
  split
  · refine frame_bind (frame_checkedAs hw _ _) fun _ => ?_
    exact frame_bind (frame_act fun _ => loads_act trivial) fun _ =>
      frame_act fun _ => loads_act trivial
  · exact frame_throw _

theorem frame_handoffEntries (h : PartitionHeader) (inst : XFsblPs) (vs : List HandoffValue)
    (running : Option (UInt64 × UInt32)) :
    Frame (Loads HandoffAct) (handoffEntries hw h inst vs running) := by
  induction vs generalizing running with
  | nil => exact frame_pure _
  | cons v vs ih =>
    refine frame_ite (fun _ => frame_bind ?_ fun _ => ih _) fun _ => ?_
    · refine frame_bind (frame_checkedAs hw _ _) fun _ => ?_
      refine frame_bind (frame_statusOf (frame_setCpuPwrSettings hw _ _)) fun _ => ?_
      refine frame_bind (frame_ensure _ _) fun _ => ?_
      exact frame_bind (frame_act fun _ => loads_act trivial) fun _ =>
        frame_setCpuPwrSettings hw _ _
    · exact frame_bind (frame_ensure _ _) fun _ => ih _

theorem handoff_loads (n : Nat) (w : World) :
    Loads HandoffAct (w.apply .handoffCalled) (final (handoff hw n w)) := by
  refine final_bind rfl (frame_bind (frame_header n) fun h => frame_bind frame_get fun w => ?_)
  refine frame_bind (frame_when fun _ => ?_) fun _ => frame_bind (frame_when fun _ => ?_) fun _ => ?_
  · refine frame_bind (frame_checkedAs hw _ _) fun _ => ?_
    exact frame_bind (frame_checkedAs hw _ _) fun _ => frame_checkedAs hw _ _
  · refine frame_bind (frame_readReg hw _) fun platform => ?_
    refine frame_ite (fun _ => ?_) fun _ => frame_throw _
    exact frame_bind (frame_act fun _ => loads_act ⟨rfl, rfl⟩) fun _ => frame_throw _
  · refine frame_bind (frame_checkedAs hw _ _) fun _ => ?_
    exact frame_bind (frame_handoffEntries hw h _ _ _) fun _ => frame_throw _

/-- A handoff never returns success. -/
theorem handoff_not_ok {n : Nat} {w w' : World} {u : Unit} : handoff hw n w ≠ .ok u w' := by
  intro h
  obtain ⟨_, _, _, h⟩ := bind_ok.1 h
  obtain ⟨_, _, _, h⟩ := bind_ok.1 h
  obtain ⟨_, _, _, h⟩ := bind_ok.1 h
  obtain ⟨_, _, _, h⟩ := bind_ok.1 h
  obtain ⟨_, _, _, h⟩ := bind_ok.1 h
  obtain ⟨_, _, _, h⟩ := bind_ok.1 h
  obtain ⟨_, _, _, h⟩ := bind_ok.1 h
  simp at h

/-! ## The acts of a pass -/

/-- The acts of a pass, by its stage. -/
def PassAct (l : Locals) (a : Act) : Prop :=
  match l.fsblStage with
  | .stage1 => InitAct hw a
  | .stage2 => BootAct a ∨ (∃ mask, a = .r5Used mask) ∨ a = .r5UsageCleared
  | .stage3 => LoadAct l.partitionNum a ∨ a = .loadCalled l.partitionNum ∨
      (∃ status, a = .loadReturned l.partitionNum status) ∨ ∃ mask, a = .r5Used mask
  | .stage4 => HandoffAct a ∨ a = .handoffCalled
  | _ => False

theorem frame_runStageErr {β : Type} {f : XFsblPs → β}
    (hf : ∀ i code, f { i with errorCode := code } = f i) (l : Locals) :
    Frame (Keeps f fun _ => False) (runStageErr hw l) := by
  refine frame_bind ?_ fun _ => frame_pure _
  refine frame_bind (frame_modifyInst_keeps (fun _ => hf _ _) fun _ => rfl) fun _ => ?_
  refine frame_bind (frame_readReg hw _) fun reg => frame_ite (fun _ => ?_) fun _ => frame_throw _
  exact frame_bind frame_get fun w => frame_ite (fun _ => frame_throw _) fun _ => frame_throw _

theorem frame_runStage (l : Locals) : Frame (Emits (PassAct hw l)) (runStage hw l) := by
  obtain ⟨stage, n, status⟩ := l
  cases stage with
  | stage1 =>
    refine frame_bind (frame_statusOf ((frame_fsblInitialize hw).mono fun _ _ h => h.1))
      fun status => ?_
    exact frame_ite (fun _ => frame_pure _) fun _ => frame_pure _
  | stage2 =>
    refine frame_bind (frame_statusOf ((frame_bootDeviceInitAndValidate (f := XFsblPs.reset) hw fun _ _ => rfl).mono fun _ _ h => ?_))
      fun status => ?_
    · exact h.1.mono fun _ => .inl
    refine frame_ite (fun _ => frame_pure _) fun _ => frame_ite (fun _ => ?_) fun _ => ?_
    · exact frame_bind (frame_act fun _ => emits_act (.inr (.inl ⟨_, rfl⟩))) fun _ => frame_pure _
    · exact frame_bind (frame_act fun _ => emits_act (.inr (.inr rfl))) fun _ => frame_pure _
  | stage3 =>
    refine frame_bind ?_ fun status => ?_
    · refine frame_bind (frame_act fun _ => emits_act (.inr (.inl rfl))) fun _ => ?_
      refine frame_bind (frame_statusOf ((frame_partitionLoad hw n).mono fun _ _ h => ?_))
        fun status => ?_
      · exact h.emits.mono fun _ => .inl
      refine frame_bind (frame_act fun _ => emits_act (.inr (.inr (.inl ⟨_, rfl⟩)))) fun _ => ?_
      refine frame_bind (frame_when fun _ => ?_) fun _ => frame_pure _
      refine frame_bind (frame_header n) fun h => frame_bind frame_get fun w => ?_
      exact frame_act fun _ => emits_act (.inr (.inr (.inr ⟨_, rfl⟩)))
    · refine frame_ite (fun _ => frame_pure _) fun _ => frame_bind frame_get fun w => ?_
      exact frame_ite (fun _ => frame_pure _) fun _ => frame_pure _
  | stage4 =>
    refine frame_bind (frame_statusOf fun w => ?_) fun status => ?_
    · refine trans_of _ (emits_act (.inr rfl)) ((handoff_loads hw n w).emits.mono fun _ => .inl)
    refine frame_ite (fun _ => frame_pure _) fun _ => frame_ite (fun _ => frame_pure _) fun _ => ?_
    exact frame_ite (fun _ => frame_pure _) fun _ => frame_pure _
  | stageErr =>
    exact (frame_runStageErr (f := XFsblPs.imageHeader) hw (fun _ _ => rfl) _).mono fun _ _ h => h.1
  | stageDefault => exact frame_throw _
  | ended h => exact frame_throw _

theorem mainStep_world (s : MainState) :
    (mainStep hw s).world = final (runStage hw s.locals s.world) := by
  unfold mainStep
  cases runStage hw s.locals s.world <;> rfl

theorem pass_emits (s : MainState) : Emits (PassAct hw s.locals) s.world (mainStep hw s).world := by
  rw [mainStep_world]
  exact frame_runStage hw s.locals s.world

theorem final_statusOf (c : Fsbl Unit) (w : World) : final (statusOf c w) = final (c w) := by
  unfold statusOf
  cases c w with
  | ok u w' => rfl
  | error e w' => cases e <;> rfl

/-- Stage 4 calls the handoff once. -/
theorem handoff_world {s : MainState} (hs : s.locals.fsblStage = .stage4) :
    (mainStep hw s).world = final (handoff hw s.locals.partitionNum s.world) := by
  obtain ⟨⟨stage, n, status⟩, w⟩ := s
  obtain rfl : stage = .stage4 := hs
  have hf : final (runStage4 hw n w) = final (handoff hw n w) := by
    rw [← final_statusOf]
    refine final_seq (fun status t => ?_) w
    repeat' split
    all_goals rfl
  rw [mainStep_world]
  exact hf

theorem handoff_pass {s : MainState} (hs : s.locals.fsblStage = .stage4) :
    Loads HandoffAct (s.world.apply .handoffCalled) (mainStep hw s).world := by
  rw [handoff_world hw hs]
  exact handoff_loads hw _ _

/-- Behind the error stage nothing is done any more. -/
theorem over_pass {β : Type} {f : XFsblPs → β} (hf : ∀ i code, f { i with errorCode := code } = f i)
    {s : MainState} (hs : s.Over) : Keeps f (fun _ => False) s.world (mainStep hw s).world := by
  rw [mainStep_world]
  obtain ⟨⟨stage, n, status⟩, w⟩ := s
  rcases hs with hs | hs | ⟨e, hs⟩ <;> subst hs
  · exact frame_runStageErr hw hf _ w
  · exact refl_of _ w
  · exact refl_of _ w

end Frames

/-! ## What a pass does -/

/-- The pass that leads from `s` to `t`. -/
inductive Pass (hw : Hw) (s t : MainState) : Prop where
  | initialized : s.locals.fsblStage = .stage1 → fsblInitialize hw s.world = .ok () t.world →
      t.locals = ⟨.stage2, 0, xfsblSuccess⟩ → Pass hw s t
  | booted {v : World} : s.locals.fsblStage = .stage2 →
      bootDeviceInitAndValidate hw s.world = .ok () v → t.world = v.apply .r5UsageCleared →
      t.locals = ⟨.stage3, 1, xfsblSuccess⟩ → Pass hw s t
  | jtag {v : World} {mask : UInt32} : s.locals.fsblStage = .stage2 →
      bootDeviceInitAndValidate hw s.world = .error (.status xfsblStatusJtag) v →
      t.world = v.apply (.r5Used mask) → t.locals = ⟨.stage4, 0, xfsblStatusJtag⟩ → Pass hw s t
  | loaded {v : World} {mask : UInt32} : s.locals.fsblStage = .stage3 →
      partitionLoad hw s.locals.partitionNum
        (s.world.apply (.loadCalled s.locals.partitionNum)) = .ok () v →
      t.world = (v.apply (.loadReturned s.locals.partitionNum xfsblSuccess)).apply (.r5Used mask) →
      t.locals = (if s.locals.partitionNum <
          (v.inst.imageHeader.imageHeaderTable.noOfPartitions - 1).toNat then
        ⟨.stage3, s.locals.partitionNum + 1, xfsblSuccess⟩
      else ⟨.stage4, s.locals.partitionNum, xfsblSuccess⟩) → Pass hw s t
  | failed : t.locals.fsblStage = .stageErr → Pass hw s t
  | ended {e : Halt} : runStage hw s.locals s.world = .error e t.world →
      t.locals.fsblStage = .ended e → Pass hw s t

section Cases

variable {hw : Hw} {w w' : World} {l : Locals}

theorem statusOf_ok {c : Fsbl Unit} {status : UInt32} (hc : ∀ v, c w ≠ .error (.status xfsblSuccess) v)
    (h : statusOf c w = .ok status w') :
    status = xfsblSuccess ∧ c w = .ok () w' ∨
      status ≠ xfsblSuccess ∧ c w = .error (.status status) w' := by
  unfold statusOf at h
  split at h
  · cases h
    exact .inl ⟨rfl, by assumption⟩
  · rename_i code v hcode
    cases h
    refine .inr ⟨?_, hcode⟩
    rintro rfl
    exact hc _ hcode
  · cases h

theorem statusOf_error {c : Fsbl Unit} {e : Halt} (h : statusOf c w = .error e w') :
    c w = .error e w' := by
  unfold statusOf at h
  split at h
  · cases h
  · cases h
  · cases h
    assumption

theorem runStage1_ok (h : runStage1 hw w = .ok l w') :
    fsblInitialize hw w = .ok () w' ∧ l = ⟨.stage2, 0, xfsblSuccess⟩ ∨ l.fsblStage = .stageErr := by
  obtain ⟨status, v, h1, h⟩ := bind_ok.1 h
  split at h
  · obtain ⟨rfl, rfl⟩ := pure_ok.1 h
    exact .inr rfl
  · rename_i hs
    obtain ⟨rfl, rfl⟩ := pure_ok.1 h
    have hs : status = xfsblSuccess := by simpa using hs
    rcases statusOf_ok (fun v hv => (usual_fsblInitialize (E := Proper) hw _ _ _ hv).2 rfl) h1 with
      ⟨-, h2⟩ | ⟨hne, -⟩
    · exact .inl ⟨h2, by rw [hs]⟩
    · exact absurd hs hne

theorem runStage2_ok (h : runStage2 hw w = .ok l w') :
    (∃ v, bootDeviceInitAndValidate hw w = .ok () v ∧ w' = v.apply .r5UsageCleared ∧
        l = ⟨.stage3, 1, xfsblSuccess⟩) ∨
      (∃ v mask, bootDeviceInitAndValidate hw w = .error (.status xfsblStatusJtag) v ∧
        w' = v.apply (.r5Used mask) ∧ l = ⟨.stage4, 0, xfsblStatusJtag⟩) ∨
      l.fsblStage = .stageErr := by
  obtain ⟨status, v, h1, h⟩ := bind_ok.1 h
  have hne v : bootDeviceInitAndValidate hw w ≠ .error (.status xfsblSuccess) v :=
    fun hv => (raises_bootDeviceInitAndValidate hw hv).1.1.2 rfl
  split at h
  · obtain ⟨rfl, rfl⟩ := pure_ok.1 h
    exact .inr (.inr rfl)
  rename_i hs
  split at h
  · rename_i hj
    obtain ⟨_, v', h2, h⟩ := bind_ok.1 h
    obtain ⟨rfl, rfl⟩ := pure_ok.1 h
    subst hj
    rcases statusOf_ok hne h1 with ⟨h0, -⟩ | ⟨-, h1⟩
    · exact absurd h0 (by decide)
    · exact .inr (.inl ⟨v, _, h1, (act_ok.1 h2).symm, rfl⟩)
  · rename_i hj
    obtain ⟨_, v', h2, h⟩ := bind_ok.1 h
    obtain ⟨rfl, rfl⟩ := pure_ok.1 h
    have hs : status = xfsblSuccess := by
      by_contra h0
      exact hs ⟨h0, hj⟩
    subst hs
    rcases statusOf_ok hne h1 with ⟨-, h1⟩ | ⟨h0, -⟩
    · exact .inl ⟨v, h1, (act_ok.1 h2).symm, rfl⟩
    · exact absurd rfl h0

/-- The headers in stage 3: the table counts partition `n`, or no partition header was read. -/
def HeadersOk (n : Nat) (i : ImageHeader) : Prop :=
  (2 ≤ i.imageHeaderTable.noOfPartitions.toNat ∧ i.imageHeaderTable.noOfPartitions.toNat ≤ 32 ∧
      1 ≤ n ∧ n < i.imageHeaderTable.noOfPartitions.toNat) ∨
    n = 1 ∧ i.partitionHeader = Vector.replicate 32 .zero

theorem toNat_sub_one {N : UInt32} (h : 1 ≤ N.toNat) : (N - 1).toNat = N.toNat - 1 := by
  rw [UInt32.toNat_sub_of_le]
  · rfl
  · exact UInt32.le_iff_toNat_le.2 h

/-- An unread header fails the checksum. -/
theorem partitionHeaderValidation_zero {n : Nat} {owned : Bool} {i : ImageHeader}
    (hi : w.inst.imageHeader = i) (hz : i.partitionHeader = Vector.replicate 32 .zero) :
    partitionHeaderValidation hw n w ≠ .ok owned w' := by
  intro h
  obtain ⟨hn, hc, -⟩ := partitionHeaderValidation_ok h
  simp only [hi, hz, Vector.getElem_replicate] at hc
  exact absurd hc (by decide)

theorem HeadersOk.counted {n : Nat} (h : HeadersOk n w.inst.imageHeader)
    (hl : partitionLoad hw n w = .ok () w') :
    2 ≤ w.inst.imageHeader.imageHeaderTable.noOfPartitions.toNat ∧
      w.inst.imageHeader.imageHeaderTable.noOfPartitions.toNat ≤ 32 ∧
      1 ≤ n ∧ n < w.inst.imageHeader.imageHeaderTable.noOfPartitions.toNat := by
  rcases h with h | ⟨-, hz⟩
  · exact h
  · obtain ⟨owned, v, h1, -⟩ := bind_ok.1 hl
    exact absurd h1 (partitionHeaderValidation_zero rfl hz)

theorem HeadersOk.proper {n : Nat} {e : Halt} (h : HeadersOk n w.inst.imageHeader)
    (hl : partitionLoad hw n w = .error e w') : Proper e := by
  rcases h with ⟨h2, h32, h1, hn⟩ | ⟨rfl, hz⟩
  · exact proper_partitionLoad hw (by omega) (by rw [toNat_sub_one] <;> omega) hl
  · rcases bind_error.1 hl with hl | ⟨owned, v, hv, -⟩
    · exact usual_partitionHeaderValidation hw (by omega) _ _ _ hl
    · exact absurd hv (partitionHeaderValidation_zero rfl hz)

/-- The load of stage 3. -/
theorem loadAndMark_ok {n : Nat} {status : UInt32} (hh : HeadersOk n w.inst.imageHeader)
    (h : loadAndMark hw n w = .ok status w') :
    (∃ v mask, status = xfsblSuccess ∧ partitionLoad hw n (w.apply (.loadCalled n)) = .ok () v ∧
        w' = (v.apply (.loadReturned n xfsblSuccess)).apply (.r5Used mask)) ∨
      status ≠ xfsblSuccess := by
  by_cases hs : status = xfsblSuccess
  · subst hs
    left
    obtain ⟨_, v₁, h2, h1⟩ := bind_ok.1 h
    obtain rfl := act_ok.1 h2
    obtain ⟨status, v₂, h3, h1⟩ := bind_ok.1 h1
    obtain ⟨_, v₃, h4, h1⟩ := bind_ok.1 h1
    obtain rfl := act_ok.1 h4
    obtain ⟨_, v₄, h5, h1⟩ := bind_ok.1 h1
    obtain ⟨rfl, rfl⟩ := pure_ok.1 h1
    obtain ⟨ph, v₅, h6, h5⟩ := bind_ok.1 ((when_ok.1 h5).resolve_right fun hne => hne.1 rfl).2
    obtain ⟨-, rfl⟩ := header_ok.1 h6
    obtain ⟨_, v₆, h7, h5⟩ := bind_ok.1 h5
    obtain ⟨rfl, rfl⟩ := get_ok.1 h7
    obtain rfl := act_ok.1 h5
    have hne v : partitionLoad hw n (w.apply (.loadCalled n)) ≠ .error (.status xfsblSuccess) v :=
      fun hv => (HeadersOk.proper (w := w.apply (.loadCalled n)) hh hv).2 rfl
    rcases statusOf_ok hne h3 with ⟨-, h3⟩ | ⟨h0, -⟩
    · exact ⟨v₂, _, rfl, h3, rfl⟩
    · exact absurd rfl h0
  · exact .inr hs

theorem runStage3_ok {n : Nat} (hh : HeadersOk n w.inst.imageHeader)
    (h : runStage3 hw n w = .ok l w') :
    (∃ v mask, partitionLoad hw n (w.apply (.loadCalled n)) = .ok () v ∧
        w' = (v.apply (.loadReturned n xfsblSuccess)).apply (.r5Used mask) ∧
        l = if n < (v.inst.imageHeader.imageHeaderTable.noOfPartitions - 1).toNat then
          ⟨.stage3, n + 1, xfsblSuccess⟩ else ⟨.stage4, n, xfsblSuccess⟩) ∨
      l.fsblStage = .stageErr := by
  obtain ⟨status, v, h1, h⟩ := bind_ok.1 h
  split at h
  · obtain ⟨rfl, rfl⟩ := pure_ok.1 h
    exact .inr rfl
  rename_i hs
  rcases loadAndMark_ok hh h1 with ⟨v₁, mask, rfl, hl, rfl⟩ | hne
  · obtain ⟨_, v₂, h2, h⟩ := bind_ok.1 h
    obtain ⟨rfl, rfl⟩ := get_ok.1 h2
    split at h
    · rename_i hlt
      obtain ⟨rfl, rfl⟩ := pure_ok.1 h
      exact .inl ⟨v₁, _, hl, rfl, (if_pos hlt).symm⟩
    · rename_i hlt
      obtain ⟨rfl, rfl⟩ := pure_ok.1 h
      exact .inl ⟨v₁, _, hl, rfl, (if_neg hlt).symm⟩
  · exact absurd hne hs

theorem HeadersOk.lt {n : Nat} {i : ImageHeader} (h : HeadersOk n i) : n < 32 := by
  rcases h with ⟨-, h32, -, hn⟩ | ⟨rfl, -⟩
  · omega
  · omega

theorem runStage3_inBounds {n : Nat} {e : Halt} (hh : HeadersOk n w.inst.imageHeader)
    (h : runStage3 hw n w = .error e w') : InBounds e := by
  have inBounds {α : Type} {c : Fsbl α} {v v' : World} (hc : Raises InBounds c)
      (he : c v = .error e v') : InBounds e := hc _ _ _ he
  rcases bind_error.1 h with h | ⟨status, v, -, h⟩
  · rcases bind_error.1 h with h | ⟨_, v, h1, h⟩
    · exact inBounds (raises_act _) h
    obtain rfl := act_ok.1 h1
    rcases bind_error.1 h with h | ⟨status, v, -, h⟩
    · exact (HeadersOk.proper (w := w.apply (.loadCalled n)) hh (statusOf_error h)).1
    · refine inBounds (raises_bind (raises_act _) fun _ => ?_) h
      refine raises_bind (raises_when fun _ => ?_) fun _ => raises_pure _
      refine raises_bind (raises_header hh.lt) fun _ => ?_
      exact raises_bind raises_get fun _ => raises_act _
  · refine inBounds (raises_ite (fun _ => raises_pure _) fun _ => raises_bind raises_get fun _ => ?_) h
    exact raises_ite (fun _ => raises_pure _) fun _ => raises_pure _

theorem runStage4_ok {n : Nat} (hn : n < 32) (h : runStage4 hw n w = .ok l w') :
    l.fsblStage = .stageErr := by
  obtain ⟨status, v, h1, h⟩ := bind_ok.1 h
  rcases statusOf_ok (fun v hv => (raises_handoff hw hn _ _ _ hv).1.1.2 rfl) h1 with ⟨-, h1⟩ | ⟨h0, h1⟩
  · exact absurd h1 (handoff_not_ok hw)
  · obtain ⟨-, h3, h4⟩ := raises_handoff hw hn _ _ _ h1
    rw [if_neg (fun he => h3 (by rw [he])), if_neg (fun he => h4 (by rw [he])), if_pos h0] at h
    obtain ⟨rfl, rfl⟩ := pure_ok.1 h
    rfl

theorem runStageErr_not_ok : runStageErr hw l w ≠ .ok l' w' := by
  intro h
  obtain ⟨_, v, h1, -⟩ := bind_ok.1 h
  obtain ⟨_, v₁, -, h1⟩ := bind_ok.1 h1
  obtain ⟨reg, v₂, -, h1⟩ := bind_ok.1 h1
  split at h1
  · obtain ⟨_, v₃, -, h1⟩ := bind_ok.1 h1
    split at h1 <;> simp at h1
  · simp at h1

end Cases

/-- What a pass needs of its state: the headers of stage 3, the number of stage 4. -/
def PassOk (s : MainState) : Prop :=
  (s.locals.fsblStage = .stage3 → HeadersOk s.locals.partitionNum s.world.inst.imageHeader) ∧
    (s.locals.fsblStage = .stage4 → s.locals.partitionNum < 32)

/-- **No pass indexes the partition headers out of bounds.** -/
theorem runStage_inBounds {hw : Hw} {s : MainState} {e : Halt} {w : World} (hs : PassOk s)
    (hrun : s.Running) (h : runStage hw s.locals s.world = .error e w) : InBounds e := by
  obtain ⟨⟨stage, n, status⟩, w₀⟩ := s
  have exits {p : Prop} [Decidable p] {l l' : Locals} :
      Raises InBounds (if p then pure l else pure l' : Fsbl Locals) :=
    raises_ite (fun _ => raises_pure _) fun _ => raises_pure _
  cases stage with
  | stage1 =>
    refine raises_bind ?_ (fun _ => exits) _ _ _ h
    exact raises_statusOf ((usual_fsblInitialize (E := Proper) hw).mono fun _ he => he.1)
  | stage2 =>
    refine raises_bind ?_ (fun _ => ?_) _ _ _ h
    · exact raises_statusOf fun _ _ _ h => (raises_bootDeviceInitAndValidate hw h).1.1.1
    · refine raises_ite (fun _ => raises_pure _) fun _ => raises_ite (fun _ => ?_) fun _ => ?_
      · exact raises_bind (raises_act _) fun _ => raises_pure _
      · exact raises_bind (raises_act _) fun _ => raises_pure _
  | stage3 => exact runStage3_inBounds (hs.1 rfl) h
  | stage4 =>
    refine raises_bind ?_ (fun _ => ?_) _ _ _ h
    · exact raises_statusOf ((raises_handoff hw (hs.2 rfl)).mono fun _ he => he.1.1.1)
    · refine raises_ite (fun _ => raises_pure _) fun _ => raises_ite (fun _ => raises_pure _) fun _ => ?_
      exact exits
  | stageErr =>
    refine raises_bind (raises_bind (raises_modifyInst _) fun _ => ?_) (fun _ => raises_pure _) _ _ _
      h
    refine raises_bind (raises_readReg hw _) fun _ => raises_ite (fun _ => ?_) fun _ => ?_
    · refine raises_bind raises_get fun _ => raises_ite (fun _ => ?_) fun _ => ?_
      · exact raises_throw nofun
      · exact raises_throw nofun
    · exact raises_throw nofun
  | stageDefault =>
    obtain ⟨rfl, -⟩ := throw_error.1 h
    nofun
  | ended e' => exact absurd rfl (hrun e')

/-- **What one pass does.** -/
theorem mainStep_cases {hw : Hw} {s : MainState} (hs : PassOk s) : Pass hw s (mainStep hw s) := by
  unfold mainStep
  cases hr : runStage hw s.locals s.world with
  | error e w => exact .ended hr rfl
  | ok l w =>
    obtain ⟨⟨stage, n, status⟩, w₀⟩ := s
    cases stage with
    | stage1 =>
      rcases runStage1_ok hr with ⟨h, rfl⟩ | h
      · exact .initialized rfl h rfl
      · exact .failed h
    | stage2 =>
      rcases runStage2_ok hr with ⟨v, h, rfl, rfl⟩ | ⟨v, mask, h, rfl, rfl⟩ | h
      · exact .booted rfl h rfl rfl
      · exact .jtag rfl h rfl rfl
      · exact .failed h
    | stage3 =>
      rcases runStage3_ok (hs.1 rfl) hr with ⟨v, mask, h, rfl, rfl⟩ | h
      · exact .loaded rfl h rfl rfl
      · exact .failed h
    | stage4 => exact .failed (runStage4_ok (hs.2 rfl) hr)
    | stageErr => exact absurd hr runStageErr_not_ok
    | stageDefault => cases hr
    | ended h => cases hr

end MeasuredBoot
