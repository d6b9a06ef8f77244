import MeasuredBoot.Boards
import MeasuredBoot.LogBuffer

/-!
# The log fits its buffer

`event_log_record` has no bounds check, so the bound is one on the callers: stage 1 writes
the header and the ROM event, stage 2 one FSBL event or two, and a load one event
at most, in whatever way it ends. `LogGrows k` grades the frames by the bytes written;
`logBound` adds them up over the stages, for 31 loads at most (`log_capacity`).
-/

namespace MeasuredBoot

open Prog TransSys

/-! ## Graded frames -/

/-- At most `k` bytes were added to the log. -/
def LogGrows (k : Nat) (w w' : World) : Prop := w'.logPtr2 ≤ w.logPtr2 + k

instance : Silent (LogGrows 0) where
  refl _ := Nat.le_refl _
  trans _ _ _ h h' := Nat.le_trans h' h
  tick _ := Nat.le_refl _

section Grades

variable {α β : Type} {j k : Nat} {c : Fsbl α} {f : α → Fsbl β}

theorem grows_mono (h : Frame (LogGrows j) c) (hjk : j ≤ k) : Frame (LogGrows k) c :=
  h.mono fun _ _ hw => Nat.le_trans hw (Nat.add_le_add_left hjk _)

theorem grows_bind (hc : Frame (LogGrows j) c) (hf : ∀ a, Frame (LogGrows k) (f a)) :
    Frame (LogGrows (j + k)) (c >>= f) := by
  refine frame_seq hc hf (fun w v u h1 h2 => ?_) fun w v h => ?_
  · unfold LogGrows at *
    omega
  · unfold LogGrows at *
    omega

/-- First a part that does not log. -/
theorem grows_then (hc : Frame (LogGrows 0) c) (hf : ∀ a, Frame (LogGrows k) (f a)) :
    Frame (LogGrows k) (c >>= f) := grows_mono (grows_bind hc hf) (Nat.le_of_eq (Nat.zero_add k))

/-- Last a part that does not log. -/
theorem grows_last (hc : Frame (LogGrows k) c) (hf : ∀ a, Frame (LogGrows 0) (f a)) :
    Frame (LogGrows k) (c >>= f) := grows_bind hc hf

theorem grows_pure (a : α) : Frame (LogGrows k) (pure a : Fsbl α) :=
  grows_mono (frame_pure a) (Nat.zero_le k)

theorem grows_act {a : Act} (h : a.logGrowth ≤ k) : Frame (LogGrows k) (act a) := by
  refine frame_act fun w => ?_
  have hp : (w.apply a).logPtr2 = w.logPtr2 + a.logGrowth := effect_logPtr2 w a
  unfold LogGrows
  omega

theorem grows_of_emits {A : Act → Prop} (hA : ∀ a, A a → a.logGrowth = 0)
    (h : Frame (Emits A) c) : Frame (LogGrows 0) c := by
  refine h.mono fun w w' hw => ?_
  obtain ⟨as, ha, hd⟩ := hw
  unfold LogGrows
  rw [hd.logPtr2_eq, logSize_eq_zero fun a h => hA a (ha a h)]

theorem grows_of_loads {A : Act → Prop} (hA : ∀ a, A a → a.logGrowth = 0)
    (h : Frame (Loads A) c) : Frame (LogGrows 0) c :=
  grows_of_emits hA (h.mono fun _ _ => Loads.emits)

theorem grows_of_keeps {γ : Type} {g : XFsblPs → γ} {A : Act → Prop}
    (hA : ∀ a, A a → a.logGrowth = 0) (h : Frame (Keeps g A) c) : Frame (LogGrows 0) c :=
  grows_of_emits hA (h.mono fun _ _ hw => hw.1)

end Grades

/-! ## Acts that do not log -/

theorem placeAct_growth {n : Nat} (a : Act) (h : PlaceAct n a) : a.logGrowth = 0 := by
  cases a <;> first | rfl | exact h.elim

theorem bodyPlaceAct_growth {n : Nat} (a : Act) (h : BodyPlaceAct n a) : a.logGrowth = 0 :=
  placeAct_growth a h.1

theorem idle_growth (a : Act) (h : a.Idle) : a.logGrowth = 0 := by
  cases a <;> first | rfl | exact h.elim

theorem setupAct_growth (a : Act) (h : SetupAct a) : a.logGrowth = 0 := by
  cases a <;> first | rfl | exact h.elim

theorem readAct_growth (a : Act) (h : ReadAct a) : a.logGrowth = 0 := by
  cases a <;> first | rfl | exact h.elim

theorem handoffAct_growth (a : Act) (h : HandoffAct a) : a.logGrowth = 0 := by
  cases a <;> first | rfl | exact h.elim

/-! ## One load writes one event at most -/

section Loads

variable (hw : Hw) (n : Nat)

theorem grows_recordPartition (p : Nat) {d : Digest} {pcr : UInt32} {name : CStr}
    (h : ladderEvent p d = some ⟨pcr, evPostCode, d, some name⟩) :
    Frame (LogGrows maxEventSize) (recordPartition n d pcr name) :=
  grows_last (grows_act (length_ladderEvent h)) fun _ => grows_act (Nat.le_refl _)

theorem grows_recordLadder (p : Nat) (d : Digest) :
    Frame (LogGrows maxEventSize) (recordLadder n p d) := by
  unfold recordLadder
  refine frame_ite (fun _ => grows_recordPartition n 1 rfl) fun _ => ?_
  refine frame_ite (fun _ => grows_recordPartition n 2 rfl) fun _ => ?_
  refine frame_ite (fun _ => grows_recordPartition n 3 rfl) fun _ => ?_
  refine frame_ite (fun _ => ?_) fun _ => grows_pure _
  exact grows_last (grows_recordPartition n 4 rfl) fun _ =>
    grows_of_loads (A := Act.Print) (fun a h => idle_growth a (idle_of_print a h)) frame_printEventLog

theorem grows_tpmMeasurePartition (loadAddress : UInt64) :
    Frame (LogGrows maxEventSize) (tpmMeasurePartition hw n loadAddress) := by
  refine grows_then (frame_header n) fun h => grows_then (frame_loadMem _ _) fun input => ?_
  refine grows_then (frame_shaDigest hw input) fun d => ?_
  refine grows_then (grows_act (Nat.le_refl _)) fun _ => ?_
  exact grows_then frame_get fun w => grows_recordLadder n _ _

theorem grows_recordBitstream (r : UInt32 × Digest) :
    Frame (LogGrows maxEventSize) (recordBitstream n r) := by
  refine frame_ite (fun _ => grows_pure _) fun _ => ?_
  exact grows_last (grows_act (length_bitstreamEvent _)) fun _ => frame_pure _

theorem grows_tpmMeasurePl (source : UInt64) :
    Frame (LogGrows maxEventSize) (tpmMeasurePl hw n source) := by
  refine grows_then (frame_header n) fun h => frame_ite (fun _ => ?_) fun _ => ?_
  · refine grows_then (frame_bind (frame_loadMem _ _) fun input => ?_) fun _ =>
      grows_recordBitstream n _
    refine frame_bind (frame_plMeasureWriteToPcapWithSha3 hw _ _) fun status => ?_
    refine frame_bind (frame_shaDigest hw input) fun d => ?_
    exact frame_bind (grows_act (Nat.le_refl _)) fun _ => frame_pure _
  · exact grows_then (frame_plMeasureEncrypted hw _) fun _ => grows_recordBitstream n _

/-- A bitstream is measured by the download, any other partition at the end. -/
theorem grows_validatePlaced (h : PartitionHeader) (inst : XFsblPs) (destinationCpu : UInt32) :
    Frame (LogGrows maxEventSize) (validatePlaced hw n h inst destinationCpu) := by
  have decrypt (la : UInt64) : Frame (LogGrows 0) (decryptPartition hw n h la) :=
    grows_of_loads bodyPlaceAct_growth (frame_decryptPartition hw n h la)
  refine grows_then (frame_ofExcept _) fun la => ?_
  refine grows_then (frame_checkPartition hw n h inst _) fun _ => grows_then (decrypt _) fun _ => ?_
  cases hpl : h.toPl with
  | true =>
    refine grows_last (frame_ite (fun _ => ?_) fun _ => grows_pure _) fun _ => ?_
    · exact grows_last (grows_tpmMeasurePl hw n _) fun _ => frame_ensure _ _
    · refine frame_bind (frame_afterBitstream hw h) fun _ => frame_when fun hf => ?_
      simp [hpl] at hf
  | false =>
    refine grows_then (frame_when fun hf => by simp [hpl] at hf) fun _ => ?_
    refine grows_then (frame_afterBitstream hw h) fun _ => ?_
    refine frame_ite (fun _ => ?_) fun _ => grows_pure _
    refine grows_then (frame_when fun _ => ?_) fun _ => grows_tpmMeasurePartition hw n _
    exact grows_of_loads (placeAct_growth (n := n)) (frame_updateHandoff n h _)

theorem grows_partitionLoad : Frame (LogGrows maxEventSize) (partitionLoad hw n) := by
  have place {α : Type} {c : Fsbl α} (h : Frame (Loads (PlaceAct n)) c) : Frame (LogGrows 0) c :=
    grows_of_loads placeAct_growth h
  refine grows_then (place (frame_partitionHeaderValidation hw n)) fun owned => ?_
  refine frame_ite (fun _ => ?_) fun _ => grows_pure _
  refine grows_then (grows_of_loads bodyPlaceAct_growth (frame_partitionCopy hw n)) fun _ => ?_
  refine grows_last ?_ fun _ => place (frame_checkPmuFw hw n)
  refine grows_then (frame_header n) fun h => grows_then frame_get fun w => ?_
  exact frame_ite (fun _ => grows_pure _) fun _ => grows_validatePlaced hw n _ _ _

end Loads

/-! ## Stages -/

/-- The bytes of the log header and the ROM event. -/
def initGrowth : Nat := 246

/-- The bytes of an FSBL event. -/
def fsblEventSize : Nat := 71

theorem length_fsblEvent (d : Digest) : (fsblEvent d).bytes.length = fsblEventSize := by
  rw [Event.length_bytes]
  rfl

theorem length_romEvent (hw : Hw) : headerBytes.length + (romEvent hw).bytes.length = initGrowth := by
  rw [Event.length_bytes, length_headerBytes]
  rfl

/-- What a pass may add to the log. -/
def stageGrowth : Stage → Nat
  | .stage1 => initGrowth
  | .stage2 => 2 * fsblEventSize
  | .stage3 => maxEventSize
  | _ => 0

section Stages

variable (hw : Hw)

theorem grows_fsblInitialize : Frame (LogGrows initGrowth) (fsblInitialize hw) := by
  rw [fsblInitialize_eq, ← length_romEvent hw]
  refine grows_then (grows_of_keeps setupAct_growth (frame_setup hw)) fun _ => ?_
  exact grows_bind (grows_act (Nat.le_refl _)) fun _ => grows_act (Nat.le_refl _)

theorem grows_validateHeader : Frame (LogGrows fsblEventSize) (validateHeader hw) := by
  have silent {γ : Type} {g : XFsblPs → γ} {α : Type} {c : Fsbl α}
      (h : Frame (Keeps g fun _ => False) c) : Frame (LogGrows 0) c :=
    grows_of_keeps (fun _ h => h.elim) h
  refine grows_then (frame_readReg hw _) fun _ => grows_then frame_get fun w => ?_
  refine grows_then (silent (g := XFsblPs.platform) (frame_modifyInst_keeps (fun _ => rfl) fun _ => rfl))
    fun _ => ?_
  refine grows_then (silent (frame_readToBuffer (f := XFsblPs.platform) hw _ _)) fun _ => ?_
  refine grows_then (grows_of_keeps readAct_growth (frame_readHeaders (f := XFsblPs.reset) hw _)) fun _ => ?_
  refine grows_then (frame_header 0) fun h => grows_then (frame_loadMem _ _) fun input => ?_
  refine grows_then (frame_shaDigest hw input) fun d => ?_
  exact grows_then (grows_act (Nat.le_refl _)) fun _ =>
    grows_act (Nat.le_of_eq (length_fsblEvent d))

theorem grows_bootDeviceInitAndValidate :
    Frame (LogGrows (2 * fsblEventSize)) (bootDeviceInitAndValidate hw) := by
  rw [Nat.two_mul]
  have silent {α : Type} {c : Fsbl α} (h : Frame (Inits fun _ => False) c) :
      Frame (LogGrows 0) c := grows_of_keeps (fun _ h => h.elim) h
  refine grows_then (silent (frame_primaryBootDeviceInit hw (fun _ _ => rfl) fun _ _ => rfl)) fun _ => ?_
  refine grows_bind (grows_validateHeader hw) fun _ => ?_
  refine grows_then (silent (frame_modifyInst_keeps (fun _ => rfl) fun _ => rfl)) fun _ => ?_
  refine grows_then frame_get fun w => frame_ite (fun _ => grows_pure _) fun _ => ?_
  split
  · exact grows_mono (frame_throw _) (Nat.zero_le _)
  · refine grows_then (silent (frame_useDevice hw (fun _ _ => rfl) _ _ _)) fun _ => ?_
    refine grows_then (silent (frame_modifyInst_keeps (fun _ => rfl) fun _ => rfl)) fun _ => ?_
    exact grows_validateHeader hw

/-- **What a pass adds to the log.** -/
theorem grows_pass (s : MainState) :
    LogGrows (stageGrowth s.locals.fsblStage) s.world (mainStep hw s).world := by
  rw [mainStep_world]
  obtain ⟨⟨stage, n, status⟩, w⟩ := s
  have choice {p : Prop} [Decidable p] {l l' : Locals} :
      Frame (LogGrows 0) (if p then pure l else pure l' : Fsbl Locals) :=
    frame_ite (fun _ => frame_pure _) fun _ => frame_pure _
  have none {k : Nat} {a : Act} (h : a.logGrowth = 0) : Frame (LogGrows k) (act a) :=
    grows_act (by omega)
  cases stage with
  | stage1 => exact grows_last (frame_statusOf (grows_fsblInitialize hw)) (fun _ => choice) w
  | stage2 =>
    refine grows_last (frame_statusOf (grows_bootDeviceInitAndValidate hw)) (fun _ => ?_) w
    refine frame_ite (fun _ => frame_pure _) fun _ => frame_ite (fun _ => ?_) fun _ => ?_
    · exact frame_bind (none rfl) fun _ => frame_pure _
    · exact frame_bind (none rfl) fun _ => frame_pure _
  | stage3 =>
    refine grows_last (grows_then (none rfl) fun _ => ?_) (fun _ => ?_) w
    · refine grows_last (frame_statusOf (grows_partitionLoad hw n)) fun _ => ?_
      refine frame_bind (none rfl) fun _ => frame_bind (frame_when fun _ => ?_) fun _ => frame_pure _
      exact frame_bind (frame_header n) fun _ => frame_bind frame_get fun _ => none rfl
    · exact frame_ite (fun _ => frame_pure _) fun _ => frame_bind frame_get fun _ => choice
  | stage4 =>
    have h : LogGrows 0 w (mainStep hw ⟨⟨.stage4, n, status⟩, w⟩).world := by
      obtain ⟨as, ha, hd⟩ := (handoff_pass hw (s := ⟨⟨.stage4, n, status⟩, w⟩) rfl).emits
      unfold LogGrows
      rw [hd.logPtr2_eq, logSize_eq_zero fun a h => handoffAct_growth a (ha a h)]
      exact Nat.le_refl _
    rwa [mainStep_world] at h
  | stageErr => exact grows_of_keeps (fun _ h => h.elim) (frame_runStageErr (f := XFsblPs.imageHeader) hw (fun _ _ => rfl) _) w
  | stageDefault => exact Nat.le_refl _
  | ended e => exact Nat.le_refl _

end Stages

/-! ## Runs -/

/-- What the log may hold when a pass begins. -/
def logBound (l : Locals) : Nat :=
  match l.fsblStage with
  | .stage1 => 0
  | .stage2 => initGrowth
  | .stage3 => initGrowth + 2 * fsblEventSize + maxEventSize * (l.partitionNum - 1)
  | _ => initGrowth + 2 * fsblEventSize + maxEventSize * 31

theorem logBound_step {hw : Hw} {s : MainState} (hs : PassOk s) :
    logBound s.locals + stageGrowth s.locals.fsblStage ≤ logBound (mainStep hw s).locals := by
  have hp : Pass hw s (mainStep hw s) := mainStep_cases hs
  have last : logBound s.locals + stageGrowth s.locals.fsblStage ≤
      initGrowth + 2 * fsblEventSize + maxEventSize * 31 := by
    obtain ⟨⟨stage, n, status⟩, w⟩ := s
    cases stage with
    | stage3 =>
      have hn := (hs.1 rfl).lt
      simp only [logBound, stageGrowth, maxEventSize] at hn ⊢
      omega
    | _ => simp [logBound, stageGrowth, maxEventSize, initGrowth, fsblEventSize]
  generalize mainStep hw s = t at hp ⊢
  cases hp with
  | initialized hs _ ht => simp [logBound, stageGrowth, hs, ht]
  | booted hs _ _ ht => simp [logBound, stageGrowth, hs, ht]
  | jtag hs _ _ ht =>
    rw [ht]
    exact last
  | @loaded v mask hs' hl hw' ht =>
    have h1 : 1 ≤ s.locals.partitionNum := by rcases hs.1 hs' with h | h <;> omega
    rw [ht]
    split
    · simp only [logBound, stageGrowth, hs', maxEventSize]
      omega
    · exact last
  | failed ht =>
    rw [logBound.eq_def t.locals, ht]
    exact last
  | ended _ ht =>
    rw [logBound.eq_def t.locals, ht]
    exact last

theorem logBound_le (l : Locals) (h : l.fsblStage = .stage3 → l.partitionNum < 32) :
    eventLogStart + logBound l ≤ eventLogEnd := by
  obtain ⟨stage, n, status⟩ := l
  cases stage with
  | stage3 =>
    have hn := h rfl
    simp only [logBound, initGrowth, fsblEventSize, maxEventSize, eventLogStart, eventLogEnd] at hn ⊢
    omega
  | _ => simp [logBound, initGrowth, fsblEventSize, maxEventSize, eventLogStart, eventLogEnd]

section Run

variable {hw : Hw} {G : MainState → Prop} {s₀ s : MainState}

/-- The log of a reachable state fits. -/
theorem run_logPtr2 (h₀ : (boot hw).init s₀) (h : (boot hw).Run G s₀ s) :
    s.world.logPtr2 ≤ eventLogEnd := by
  have hb : s.world.logPtr2 ≤ eventLogStart + logBound s.locals := by
    induction h with
    | refl => rw [h₀.2.logPtr2]; exact Nat.le_add_right _ _
    | @snoc t _ hr _ hn ih =>
      obtain ⟨-, rfl⟩ := hn
      have hg := grows_pass hw t
      have hstep : logBound t.locals + stageGrowth t.locals.fsblStage ≤ logBound (mainStep hw t).locals :=
        logBound_step (run_history h₀ hr).passOk
      unfold LogGrows at hg
      omega
  exact Nat.le_trans hb (logBound_le _ fun hs => ((run_history h₀ h).passOk.1 hs).lt)

/-- The log fits behind each part of a run's trace. -/
theorem run_logSize (h₀ : (boot hw).init s₀) (h : (boot hw).Run G s₀ s) {pre post : List Act}
    (ht : s.world.trace = pre ++ post) :
    (s₀.world.replay pre).logPtr2 = eventLogStart + logSize pre ∧
      eventLogStart + logSize pre + logSize post ≤ eventLogEnd := by
  have hp := (run_replay h₀ h).logPtr2_eq
  have hle := run_logPtr2 h₀ h
  rw [h₀.2.logPtr2, ht, logSize_append] at hp
  refine ⟨?_, by omega⟩
  rw [replay_logPtr2, h₀.2.logPtr2]

/-- **The log stays within its buffer**: at every point of a run the log pointer is between its
start and its end, and what writes to the log changes no other byte. -/
theorem log_capacity (h₀ : (boot hw).init s₀) (h : (boot hw).Run (fun _ => True) s₀ s) :
    (eventLogStart ≤ s.world.logPtr2 ∧ s.world.logPtr2 ≤ eventLogEnd) ∧
      (∀ pre, pre <+: s.world.trace → eventLogStart ≤ (s₀.world.replay pre).logPtr2 ∧
        (s₀.world.replay pre).logPtr2 ≤ eventLogEnd) ∧
      ∀ pre a, pre ++ [a] <+: s.world.trace → a.logGrowth ≠ 0 →
        ∀ x, x < eventLogStart ∨ eventLogEnd ≤ x →
          ((s₀.world.replay pre).effect a).mem x = (s₀.world.replay pre).mem x := by
  refine ⟨⟨?_, run_logPtr2 h₀ h⟩, fun pre hpre => ?_, fun pre a hpre ha x hx => ?_⟩
  · rw [(run_replay h₀ h).logPtr2_eq, h₀.2.logPtr2]
    exact Nat.le_add_right _ _
  · obtain ⟨post, ht⟩ := hpre
    obtain ⟨hp, hle⟩ := run_logSize h₀ h ht.symm
    rw [hp]
    omega
  · obtain ⟨post, ht⟩ := hpre
    rw [List.append_assoc] at ht
    obtain ⟨hp, hle⟩ := run_logSize h₀ h ht.symm
    rw [logSize_append, logSize_cons] at hle
    refine effect_mem_spared ?_ (by omega)
    cases a with
    | logHeader => trivial
    | recorded s e => trivial
    | _ => exact absurd rfl ha

end Run

/-- A boot of one partition, up to its handoff. -/
theorem log_capacity_plainBoard :
    eventLogStart ≤ (plainBoard.after 3).world.logPtr2 ∧
      (plainBoard.after 3).world.logPtr2 ≤ eventLogEnd := by
  have hr : (boot plainBoard.hw).Run (fun _ => True) powerOn (plainBoard.after 3) :=
    plainBoard.run 0 3 (by decide +kernel)
  exact (log_capacity (init_powerOn _) hr).1

end MeasuredBoot
