import MeasuredBoot.FailedLoad
import MeasuredBoot.Lib.Traces
import MeasuredBoot.LogBuffer

/-!
# The flush of the printed log

The loop that prints the log counts `size` down to 0, and the flush behind it takes the same
variable. `flushesCover_iff`: no flush of a run covers a byte of the log, so a run meets its
purpose only where the counter has not reached the measurement that prints.
-/

namespace MeasuredBoot

open Prog TransSys

/-! ## Flushes -/

def Act.IsFlush : Act → Prop
  | .flushed .. => True
  | _ => False

/-- Not a flush, or one of no bytes. -/
def Act.FlushesNothing : Act → Prop
  | .flushed start len => start = eventLogStart ∧ len = 0
  | _ => True

/-- The range has every byte of the log. -/
def FlushCovers (w : World) (start len : Nat) : Prop :=
  ∀ x, eventLogStart ≤ x → x < w.logPtr2 → start ≤ x ∧ x < start + len

/-- Every flush among the acts covers the log of its time. -/
def FlushesCover (w : World) (as : List Act) : Prop :=
  ∀ pre start len post, as = pre ++ .flushed start len :: post → FlushCovers (w.replay pre) start len

theorem Act.FlushesNothing.of_not_isFlush {a : Act} (h : ¬ a.IsFlush) : a.FlushesNothing := by
  cases a with
  | flushed => exact absurd trivial h
  | _ => trivial

/-! ## Two laws of a run

A flush comes when the counter has passed 4, and a part that ends well passes 4 with a flush. -/

/-- The flushes between two states. -/
def Flushes (w w' : World) : Prop :=
  ∃ as, Does as w w' ∧ (∀ a ∈ as, a.FlushesNothing) ∧ ((∃ a ∈ as, a.IsFlush) → 5 ≤ w'.partition)

/-- Where the counter passed 4, there was a flush. -/
def FlushesPast (w w' : World) : Prop :=
  ∃ as, Does as w w' ∧ (w.partition ≤ 4 → 5 ≤ w'.partition → ∃ a ∈ as, a.IsFlush)

theorem Does.partition_le {as : List Act} {w w' : World} (h : Does as w w') :
    w.partition ≤ w'.partition := by
  rw [h.partition]
  exact replay_partition_le w as

/-- Neither a flush nor counted. -/
def Act.Flushless : Act → Prop
  | .flushed .. => False
  | .counted => False
  | _ => True

theorem Act.Flushless.not_isFlush {a : Act} (h : a.Flushless) : ¬ a.IsFlush := by
  cases a <;> first | exact h.elim | exact id

theorem replay_flushless (w : World) {as : List Act} (h : ∀ a ∈ as, a.Flushless) :
    (w.replay as).partition = w.partition := by
  induction as generalizing w with
  | nil => rfl
  | cons a as ih =>
    obtain ⟨ha, h⟩ := List.forall_mem_cons.1 h
    rw [World.replay_cons, ih _ h]
    cases a <;> first | rfl | exact ha.elim

instance : IsPreorder World Flushes where
  refl w := ⟨[], .refl w, by simp, by simp⟩
  trans := by
    rintro w w' w'' ⟨as, hd, hn, hc⟩ ⟨bs, hd', hn', hc'⟩
    refine ⟨as ++ bs, hd.trans hd', forall_mem_append hn hn', ?_⟩
    rintro ⟨a, ha, hf⟩
    rcases List.mem_append.1 ha with ha | ha
    · exact Nat.le_trans (hc ⟨a, ha, hf⟩) hd'.partition_le
    · exact hc' ⟨a, ha, hf⟩

instance : IsPreorder World FlushesPast where
  refl w := ⟨[], .refl w, fun h h' => by omega⟩
  trans := by
    rintro w w' w'' ⟨as, hd, hc⟩ ⟨bs, hd', hc'⟩
    refine ⟨as ++ bs, hd.trans hd', fun h4 h5 => ?_⟩
    by_cases hmid : w'.partition ≤ 4
    · obtain ⟨a, ha, hf⟩ := hc' hmid h5
      exact ⟨a, List.mem_append_right _ ha, hf⟩
    · obtain ⟨a, ha, hf⟩ := hc h4 (by omega)
      exact ⟨a, List.mem_append_left _ ha, hf⟩

theorem Emits.flushes {A : Act → Prop} (hA : ∀ a, A a → a.Flushless) {w w' : World}
    (h : Emits A w w') : Flushes w w' := by
  obtain ⟨as, ha, hd⟩ := h
  have hno : ∀ a ∈ as, ¬ a.IsFlush := fun a hmem => (hA a (ha a hmem)).not_isFlush
  exact ⟨as, hd, fun a hmem => .of_not_isFlush (hno a hmem),
    fun ⟨a, hmem, hf⟩ => absurd hf (hno a hmem)⟩

theorem Emits.flushesPast {A : Act → Prop} (hA : ∀ a, A a → a.Flushless) {w w' : World}
    (h : Emits A w w') : FlushesPast w w' := by
  obtain ⟨as, ha, hd⟩ := h
  refine ⟨as, hd, fun h4 h5 => ?_⟩
  rw [hd.partition, replay_flushless w fun a hmem => hA a (ha a hmem)] at h5
  omega

instance : Silent Flushes where
  tick w := (Silent.tick (R := Emits fun _ => False) w).flushes fun _ h => h.elim

instance : Silent FlushesPast where
  tick w := (Silent.tick (R := Emits fun _ => False) w).flushesPast fun _ h => h.elim

/-- A part without a flush or count, as a law of both kinds. -/
theorem flushes_of_loads {α : Type} {A : Act → Prop} (hA : ∀ a, A a → a.Flushless) {c : Fsbl α}
    (h : Frame (Loads A) c) : Frame Flushes c := h.mono fun _ _ hl => hl.emits.flushes hA

theorem past_of_loads {α : Type} {A : Act → Prop} (hA : ∀ a, A a → a.Flushless) {c : Fsbl α}
    (h : Frame (Loads A) c) : Lands FlushesPast c :=
  (h.mono fun _ _ hl => hl.emits.flushesPast hA).lands

/-! ## The acts without a flush -/

theorem flushless_bodyPlaceAct {n : Nat} (a : Act) (h : BodyPlaceAct n a) : a.Flushless := by
  cases a <;> first | trivial | exact h.1.elim

theorem flushless_checkAct {n : Nat} (a : Act) (h : CheckAct n a) : a.Flushless := by
  cases a <;> trivial

theorem flushless_plAct {n : Nat} (a : Act) (h : PlAct n a) : a.Flushless := by
  cases a <;> trivial

theorem flushless_passAct {hw : Hw} {l : Locals} (hs : l.fsblStage ≠ .stage3) (a : Act)
    (h : PassAct hw l a) : a.Flushless := by
  cases a with
  | flushed =>
    cases hl : l.fsblStage with
    | stage1 => simp [PassAct, hl, InitAct, SetupAct] at h
    | stage2 => simp [PassAct, hl, BootAct] at h
    | stage3 => exact absurd hl hs
    | stage4 => simp [PassAct, hl, HandoffAct] at h
    | _ => simp [PassAct, hl] at h
  | counted =>
    cases hl : l.fsblStage with
    | stage1 => simp [PassAct, hl, InitAct, SetupAct] at h
    | stage2 => simp [PassAct, hl, BootAct] at h
    | stage3 => exact absurd hl hs
    | stage4 => simp [PassAct, hl, HandoffAct] at h
    | _ => simp [PassAct, hl] at h
  | _ => trivial

/-! ## One load -/

section Load

variable (hw : Hw) (n : Nat)

theorem recordPartition_run (d : Digest) (pcr : UInt32) (name : CStr) (w : World) :
    ∃ v, recordPartition n d pcr name w = .ok () v ∧ v.partition = w.partition + 1 ∧
      ∃ as, Does as w v ∧ ∀ a ∈ as, ¬ a.IsFlush :=
  ⟨_, rfl, rfl, _, (Does.act w _).trans (.act _ _), by simp [Act.IsFlush]⟩

/-- The ladder prints behind its fourth event. -/
theorem recordLadder_print (d : Digest) (w : World) (hp : w.partition = 4) :
    ∃ v, v.partition = 5 ∧ (∃ as, Does as w v ∧ ∀ a ∈ as, ¬ a.IsFlush) ∧
      recordLadder n w.partition d w = printEventLog v := by
  obtain ⟨v, hv, h5, hd⟩ := recordPartition_run n d 3 opTeeName w
  refine ⟨v, by omega, hd, ?_⟩
  rw [hp]
  unfold recordLadder
  rw [if_neg (by simp), if_neg (by simp), if_neg (by simp), if_pos rfl, bind_apply, hv]

/-- A step of the ladder other than the last. -/
theorem flushes_recordPartition (d : Digest) (pcr : UInt32) (name : CStr) :
    Frame Flushes (recordPartition n d pcr name) := by
  intro w
  obtain ⟨v, h, -, as, hd, hno⟩ := recordPartition_run n d pcr name w
  rw [h]
  exact ⟨as, hd, fun a ha => .of_not_isFlush (hno a ha), fun ⟨a, ha, hf⟩ => absurd hf (hno a ha)⟩

theorem flushes_recordLadder (d : Digest) (w : World) :
    Flushes w (final (recordLadder n w.partition d w)) := by
  by_cases hp : w.partition = 4
  · obtain ⟨v, h5, ⟨bs, hd, hno⟩, he⟩ := recordLadder_print n d w hp
    obtain ⟨as, has, hm⟩ := (frame_printEventLog (R := Loads Act.Print)) v
    rw [he]
    refine ⟨_, hd.trans hm.toDoes, forall_mem_append ?_ fun a ha => ?_, fun _ => ?_⟩
    · exact fun a ha => .of_not_isFlush (hno a ha)
    · have h := has a ha
      cases a <;> first | exact h | exact h.elim
    · have := hm.toDoes.partition_le
      omega
  · unfold recordLadder
    refine frame_ite (fun _ => flushes_recordPartition n d _ _) (fun _ => ?_) w
    refine frame_ite (fun _ => flushes_recordPartition n d _ _) fun _ => ?_
    refine frame_ite (fun _ => flushes_recordPartition n d _ _) fun _ => ?_
    exact frame_ite (fun h4 => absurd h4 hp) fun _ => frame_pure _

theorem flushes_tpmMeasurePartition (loadAddress : UInt64) :
    Frame Flushes (tpmMeasurePartition hw n loadAddress) := by
  refine frame_bind (frame_header n) fun h => frame_bind (frame_loadMem _ _) fun input => ?_
  refine frame_bind (frame_shaDigest hw input) fun d => frame_bind (frame_act fun w => ?_) fun _ => ?_
  · exact Emits.flushes (A := Act.Flushless) (fun _ h => h) (emits_act trivial)
  · exact fun w => flushes_recordLadder n d w

theorem flushes_validatePlaced (h : PartitionHeader) (inst : XFsblPs) (destinationCpu : UInt32) :
    Frame Flushes (validatePlaced hw n h inst destinationCpu) := by
  refine frame_bind (frame_ofExcept _) fun _ => frame_bind (frame_checkPartition hw n h inst _) fun _ => ?_
  refine frame_bind (flushes_of_loads (flushless_bodyPlaceAct (n := n)) (frame_decryptPartition hw n h _)) fun _ => ?_
  refine frame_bind (flushes_of_loads (flushless_plAct (n := n)) (frame_downloadBitstream hw n h _)) fun _ => ?_
  refine frame_bind (frame_afterBitstream hw h) fun _ => frame_when fun _ => ?_
  refine frame_bind (frame_when fun _ => ?_) fun _ => flushes_tpmMeasurePartition hw n _
  exact flushes_of_loads (flushless_bodyPlaceAct (n := n)) (frame_updateHandoff n h _)

theorem flushes_partitionLoad : Frame Flushes (partitionLoad hw n) := by
  refine frame_bind (flushes_of_loads (flushless_bodyPlaceAct (n := n)) (frame_partitionHeaderValidation hw n))
    fun _ => frame_when fun _ => ?_
  refine frame_bind (flushes_of_loads (flushless_bodyPlaceAct (n := n)) (frame_partitionCopy hw n)) fun _ => ?_
  refine frame_bind ?_ fun _ => flushes_of_loads (flushless_checkAct (n := n)) (frame_checkPmuFw hw n)
  refine frame_bind (frame_header n) fun h => frame_bind frame_get fun w => ?_
  exact frame_ite (fun _ => frame_pure _) fun _ => flushes_validatePlaced hw n h _ _

/-! The same parts where they succeed: the fourth measurement prints. -/

theorem past_recordPartition {d : Digest} {pcr : UInt32} {name : CStr} {w w' : World} {u : Unit}
    (hp : w.partition ≠ 4) (h : recordPartition n d pcr name w = .ok u w') : FlushesPast w w' := by
  obtain ⟨v, hv, h1, as, hd, -⟩ := recordPartition_run n d pcr name w
  rw [hv] at h
  injection h with _ h
  subst h
  exact ⟨as, hd, fun h4 h5 => by omega⟩

theorem past_flushPrinted {run : PrintRun} {w w' : World} {u : Unit}
    (h : flushPrinted run w = .ok u w') : ∃ as, Does as w w' ∧ ∃ a ∈ as, a.IsFlush := by
  unfold flushPrinted at h
  cases hs : run.stop with
  | done =>
    rw [hs] at h
    rw [← act_ok.1 h]
    exact ⟨_, .act w _, _, List.mem_cons_self, trivial⟩
  | unset => simp [hs] at h
  | running => simp [hs] at h

theorem past_printEventLog {w w' : World} {u : Unit} (h : printEventLog w = .ok u w') :
    ∃ as, Does as w w' ∧ ∃ a ∈ as, a.IsFlush := by
  obtain ⟨v, t, h1, h⟩ := bind_ok.1 h
  obtain ⟨rfl, rfl⟩ := get_ok.1 h1
  exact past_flushPrinted h

theorem past_recordLadder (d : Digest) {w w' : World} {u : Unit}
    (h : recordLadder n w.partition d w = .ok u w') : FlushesPast w w' := by
  by_cases hp : w.partition = 4
  · obtain ⟨v, -, ⟨bs, hd, -⟩, he⟩ := recordLadder_print n d w hp
    rw [he] at h
    obtain ⟨as, hd', a, ha, hf⟩ := past_printEventLog h
    exact ⟨_, hd.trans hd', fun _ _ => ⟨a, List.mem_append_right _ ha, hf⟩⟩
  · unfold recordLadder at h
    split at h
    · exact past_recordPartition n hp h
    split at h
    · exact past_recordPartition n hp h
    split at h
    · exact past_recordPartition n hp h
    obtain ⟨-, rfl⟩ := pure_ok.1 h
    exact refl_of _ w

theorem past_tpmMeasurePartition (loadAddress : UInt64) :
    Lands FlushesPast (tpmMeasurePartition hw n loadAddress) := by
  refine lands_bind (frame_header n).lands fun h => lands_bind (frame_loadMem _ _).lands fun input => ?_
  refine lands_bind (frame_shaDigest hw input).lands fun d => lands_bind (Frame.lands ?_) fun _ => ?_
  · exact frame_act fun w => Emits.flushesPast (A := Act.Flushless) (fun _ h => h) (emits_act trivial)
  · exact fun w _ w' h => past_recordLadder n d h

theorem past_validatePlaced (h : PartitionHeader) (inst : XFsblPs) (destinationCpu : UInt32) :
    Lands FlushesPast (validatePlaced hw n h inst destinationCpu) := by
  refine lands_bind (frame_ofExcept _).lands fun _ => ?_
  refine lands_bind (frame_checkPartition hw n h inst _).lands fun _ => ?_
  refine lands_bind (past_of_loads (flushless_bodyPlaceAct (n := n)) (frame_decryptPartition hw n h _)) fun _ => ?_
  refine lands_bind (past_of_loads (flushless_plAct (n := n)) (frame_downloadBitstream hw n h _)) fun _ => ?_
  refine lands_bind (frame_afterBitstream hw h).lands fun _ => ?_
  refine lands_ite (fun _ => ?_) fun _ => (frame_pure _).lands
  refine lands_bind (lands_ite (fun _ => ?_) fun _ => (frame_pure _).lands) fun _ => ?_
  · exact past_of_loads (flushless_bodyPlaceAct (n := n)) (frame_updateHandoff n h _)
  · exact past_tpmMeasurePartition hw n _

theorem past_partitionLoad : Lands FlushesPast (partitionLoad hw n) := by
  refine lands_bind (past_of_loads (flushless_bodyPlaceAct (n := n)) (frame_partitionHeaderValidation hw n))
    fun _ => lands_ite (fun _ => ?_) fun _ => (frame_pure _).lands
  refine lands_bind (past_of_loads (flushless_bodyPlaceAct (n := n)) (frame_partitionCopy hw n)) fun _ => ?_
  refine lands_bind ?_ fun _ => past_of_loads (flushless_checkAct (n := n)) (frame_checkPmuFw hw n)
  refine lands_bind (frame_header n).lands fun h => lands_bind frame_get.lands fun w => ?_
  exact lands_ite (fun _ => (frame_pure _).lands) fun _ => past_validatePlaced hw n h _ _

/-- A failed load counts nothing. -/
theorem past_failedLoad {h : PartitionHeader} {code : UInt32} {w w' : World}
    (hf : FailedLoad hw n h code w w') : FlushesPast w w' := by
  have flushless {a : Act} (ha : UnloggedAct n a) : a.Flushless := by
    rcases ha with ha | ⟨start, input, rfl⟩
    · exact flushless_bodyPlaceAct a ha
    · trivial
  cases hf with
  | unlogged hpre hm =>
    exact Emits.flushesPast (A := Act.Flushless) (fun _ h => h) ⟨_, fun a ha => flushless (hpre a ha), hm.toDoes⟩
  | logged d _ _ _ hpre hm =>
    refine Emits.flushesPast (A := Act.Flushless) (fun _ h => h) ⟨_, ?_, hm.toDoes⟩
    exact forall_mem_append (fun a ha => flushless (hpre a ha)) (by simp [Act.Flushless])

end Load

/-! ## One pass -/

section Pass

variable {hw : Hw} {s : MainState}

theorem flushes_act {α : Type} {a : Act} (h : a.Flushless) {f : Unit → Fsbl α} :
    (∀ u, Frame Flushes (f u)) → Frame Flushes (act a >>= f) :=
  frame_bind (frame_act fun _ => Emits.flushes (A := Act.Flushless) (fun _ h => h) (emits_act h))

theorem flushless_markUsedRPUCores (n : Nat) : Frame (Emits Act.Flushless) (markUsedRPUCores n) := by
  refine frame_bind (frame_header n) fun h => frame_bind frame_get fun w => ?_
  exact frame_act fun _ => emits_act trivial

theorem flushes_runStage3 (n : Nat) : Frame Flushes (runStage3 hw n) := by
  refine frame_bind ?_ fun status => ?_
  · refine flushes_act (show Act.Flushless (.loadCalled n) from trivial) fun _ => ?_
    refine frame_bind (frame_statusOf (flushes_partitionLoad hw n)) fun status => ?_
    refine flushes_act (show Act.Flushless (.loadReturned n status) from trivial) fun _ => frame_bind (frame_when fun _ => ?_) fun _ => frame_pure _
    exact (flushless_markUsedRPUCores n).mono fun _ _ h => h.flushes fun _ h => h
  · refine frame_ite (fun _ => frame_pure _) fun _ => frame_bind frame_get fun w => ?_
    exact frame_ite (fun _ => frame_pure _) fun _ => frame_pure _

theorem flushes_pass (hw : Hw) (s : MainState) : Flushes s.world (mainStep hw s).world := by
  by_cases hs : s.locals.fsblStage = .stage3
  · obtain ⟨⟨stage, n, status⟩, w⟩ := s
    obtain rfl : stage = .stage3 := hs
    rw [mainStep_world]
    exact flushes_runStage3 n w
  · exact (pass_emits hw s).flushes (flushless_passAct hs)

theorem lands_statusOf {R : World → World → Prop} {c : Fsbl Unit} (hc : Lands R c)
    (hf : ∀ w code w', c w = .error (.status code) w' → R w w') : Lands R (statusOf c) := by
  intro w status w' h
  unfold statusOf at h
  split at h
  · rename_i hok
    cases h
    exact hc _ _ _ hok
  · rename_i herr
    cases h
    exact hf _ _ _ herr
  · cases h

theorem past_runStage3 (n : Nat) : Lands FlushesPast (runStage3 hw n) := by
  have flushless {α : Type} {c : Fsbl α} (h : Frame (Emits Act.Flushless) c) : Lands FlushesPast c :=
    (h.mono fun _ _ h => h.flushesPast fun _ h => h).lands
  refine lands_bind ?_ fun status => ?_
  · refine lands_bind (flushless (frame_act fun _ => emits_act trivial)) fun _ => ?_
    refine lands_bind (lands_statusOf (past_partitionLoad hw n) fun _ _ _ h => ?_) fun _ => ?_
    · exact past_failedLoad hw n (partitionLoad_failed h)
    refine lands_bind (flushless (frame_act fun _ => emits_act trivial)) fun _ => ?_
    refine lands_bind (lands_ite (fun _ => ?_) fun _ => (frame_pure _).lands) fun _ => (frame_pure _).lands
    exact flushless (flushless_markUsedRPUCores n)
  · refine lands_ite (fun _ => (frame_pure _).lands) fun _ => lands_bind frame_get.lands fun w => ?_
    exact lands_ite (fun _ => (frame_pure _).lands) fun _ => (frame_pure _).lands

/-- A pass that does not end the run. -/
theorem past_pass (h : (mainStep hw s).Running) : FlushesPast s.world (mainStep hw s).world := by
  by_cases hs : s.locals.fsblStage = .stage3
  · obtain ⟨⟨stage, n, status⟩, w⟩ := s
    obtain rfl : stage = .stage3 := hs
    unfold mainStep at h ⊢
    cases hr : runStage hw ⟨.stage3, n, status⟩ w with
    | ok l w' => exact past_runStage3 n _ _ _ hr
    | error e w' =>
      rw [hr] at h
      exact absurd rfl (h e)
  · exact (pass_emits hw s).flushesPast (flushless_passAct hs)

/-- The stages behind the first have the header of the log in their trace. -/
def HeaderLogged (s : MainState) : Prop :=
  s.locals.fsblStage = .stage2 ∨ s.locals.fsblStage = .stage3 → .logHeader ∈ s.world.trace

theorem HeaderLogged.step (hs : PassOk s) (h : HeaderLogged s) : HeaderLogged (mainStep hw s) := by
  have keeps : .logHeader ∈ s.world.trace → .logHeader ∈ (mainStep hw s).world.trace := by
    obtain ⟨as, -, hd⟩ := pass_emits hw s
    intro hmem
    rw [hd.trace]
    exact List.mem_append_left _ hmem
  have hp : Pass hw s (mainStep hw s) := mainStep_cases hs
  cases hp with
  | initialized _ hi ht =>
    obtain ⟨-, pre, -, hd⟩ := fsblInitialize_ok hw hi
    intro _
    rw [hd.trace]
    simp
  | booted hs' _ _ _ => exact fun _ => keeps (h (.inl hs'))
  | jtag _ _ _ ht => simp [HeaderLogged, ht]
  | loaded hs' _ _ _ => exact fun _ => keeps (h (.inr hs'))
  | failed ht => simp [HeaderLogged, ht]
  | ended _ ht => simp [HeaderLogged, ht]

end Pass

/-! ## Runs -/

section Run

variable {hw : Hw} {G : MainState → Prop} {s₀ s : MainState}

theorem run_flushes (h : (boot hw).Run G s₀ s) : Flushes s₀.world s.world := by
  induction h with
  | refl => exact refl_of _ _
  | snoc _ _ hn ih =>
    obtain ⟨-, rfl⟩ := hn
    exact trans_of _ ih (flushes_pass hw _)

theorem run_flushesPast (h : (boot hw).Run G s₀ s) (hs : s.Running) :
    FlushesPast s₀.world s.world := by
  induction h with
  | refl => exact refl_of _ _
  | snoc _ _ hn ih =>
    obtain ⟨hrun, rfl⟩ := hn
    exact trans_of _ (ih hrun) (past_pass hs)

theorem run_headerLogged (h₀ : (boot hw).init s₀) (h : (boot hw).Run G s₀ s) : HeaderLogged s := by
  induction h with
  | refl => simp [HeaderLogged, h₀.1]
  | snoc hr _ hn ih =>
    obtain ⟨-, rfl⟩ := hn
    exact ih.step (run_history h₀ hr).passOk

/-- The log has its header at every flush. -/
theorem run_flush_logged (h₀ : (boot hw).init s₀) (h : (boot hw).Run G s₀ s) :
    Trace.Always (fun pre a => a.IsFlush → .logHeader ∈ pre) s.world.trace := by
  induction h with
  | refl =>
    rw [h₀.2.trace]
    exact Trace.always_nil
  | @snoc t _ hr _ hn ih =>
    obtain ⟨-, rfl⟩ := hn
    obtain ⟨as, has, hd⟩ := pass_emits hw t
    rw [hd.trace]
    by_cases hs : t.locals.fsblStage = .stage3
    · have hlog : Act.logHeader ∈ t.world.trace := run_headerLogged h₀ hr (.inr hs)
      intro pre a post he hf
      rcases List.append_eq_append_iff.1 he with ⟨l, rfl, -⟩ | ⟨l, hl, hr⟩
      · exact List.mem_append_left _ hlog
      · cases l with
        | nil =>
          rw [List.append_nil] at hl
          exact hl ▸ hlog
        | cons b l =>
          obtain ⟨rfl, -⟩ := List.cons.inj hr
          exact ih _ _ _ hl hf
    · exact ih.append fun b hb pre hf => absurd hf (flushless_passAct hs b (has b hb)).not_isFlush

theorem logSize_pos {as : List Act} (h : .logHeader ∈ as) : 0 < logSize as := by
  induction as with
  | nil => cases h
  | cons a as ih =>
    rw [logSize_cons]
    rcases List.mem_cons.1 h with rfl | h
    · rw [Act.logGrowth, length_headerBytes]
      omega
    · have := ih h
      omega

/-- **What the flushes of a run cover**: none covers the log of its time. A run without flushes is
one whose counter has not passed 4. -/
theorem flushesCover_iff (h₀ : (boot hw).init s₀) (h : (boot hw).Run (fun _ => True) s₀ s) :
    (∀ pre start len post, s.world.trace = pre ++ .flushed start len :: post →
        ¬ FlushCovers (s₀.world.replay pre) start len) ∧
      (s.world.partition ≤ 4 → FlushesCover s₀.world s.world.trace) ∧
      (s.Running → FlushesCover s₀.world s.world.trace → s.world.partition ≤ 4) := by
  obtain ⟨as, hd, hnone, hcount⟩ := run_flushes h
  have ht : s.world.trace = as := by rw [hd.trace, h₀.2.trace, List.nil_append]
  have never : ∀ pre start len post, s.world.trace = pre ++ .flushed start len :: post →
      ¬ FlushCovers (s₀.world.replay pre) start len := by
    intro pre start len post he hcov
    obtain ⟨rfl, rfl⟩ : start = eventLogStart ∧ len = 0 :=
      hnone (.flushed start len) (by rw [← ht, he]; simp)
    have hlog := logSize_pos (run_flush_logged h₀ h _ _ _ he trivial)
    have hptr : (s₀.world.replay pre).logPtr2 = eventLogStart + logSize pre := by
      rw [replay_logPtr2, h₀.2.logPtr2]
    have hrange := hcov eventLogStart (Nat.le_refl _) (by omega)
    omega
  refine ⟨never, fun h4 pre start len post he => ?_, fun hrun hcov => ?_⟩
  · have hflush := hcount ⟨.flushed start len, by rw [← ht, he]; simp, trivial⟩
    omega
  · by_contra h5
    obtain ⟨bs, hd', hpast⟩ := run_flushesPast h hrun
    obtain ⟨a, ha, hf⟩ := hpast (by rw [h₀.2.partition]; omega) (by omega)
    rw [← hd.unique hd', ← ht] at ha
    obtain ⟨pre, post, he⟩ := List.append_of_mem ha
    cases a with
    | flushed start len => exact never _ _ _ _ he (hcov _ _ _ _ he)
    | _ => exact hf

end Run

/-- Four partitions: the fourth measurement prints the log. -/
def fourBoard : Board := qspiBoard [{}, {}, {}, {}]

theorem flushesCover_fourBoard :
    FlushesCover powerOn.world (fourBoard.after 5).world.trace ∧
      ¬ FlushesCover powerOn.world (fourBoard.after 6).world.trace := by
  have hr : (boot fourBoard.hw).Run (fun _ => True) powerOn (fourBoard.after 5) :=
    fourBoard.run 0 5 (by decide +kernel)
  have hr' : (boot fourBoard.hw).Run (fun _ => True) powerOn (fourBoard.after 6) :=
    fourBoard.run 0 6 (by decide +kernel)
  have hp : (fourBoard.after 5).world.partition = 4 ∧ (fourBoard.after 6).world.partition = 5 ∧
      (fourBoard.after 6).running = true := by decide +kernel
  refine ⟨(flushesCover_iff (init_powerOn _) hr).2.1 (by omega), fun hcov => ?_⟩
  have := (flushesCover_iff (init_powerOn _) hr').2.2 (running_iff.1 hp.2.2) hcov
  omega

/-- The log is printed and none of it flushed. -/
theorem not_flushesCover :
    ¬ ∀ (hw : Hw) (s₀ s : MainState), (boot hw).init s₀ → (boot hw).Run (fun _ => True) s₀ s →
      FlushesCover s₀.world s.world.trace := by
  intro h
  have hr : (boot fourBoard.hw).Run (fun _ => True) powerOn (fourBoard.after 6) :=
    fourBoard.run 0 6 (by decide +kernel)
  have hp : (fourBoard.after 6).world.partition = 5 ∧ (fourBoard.after 6).running = true := by
    decide +kernel
  obtain ⟨as, hd, hpast⟩ := run_flushesPast hr (running_iff.1 hp.2)
  obtain ⟨bs, hd', hnone, -⟩ := run_flushes hr
  obtain ⟨a, ha, hf⟩ := hpast (by decide) (by omega)
  have hmem : a ∈ (fourBoard.after 6).world.trace := by
    rw [hd.trace]
    exact List.mem_append_right _ ha
  have ha' : a.FlushesNothing := hnone a (hd.unique hd' ▸ ha)
  obtain ⟨pre, post, he⟩ := List.append_of_mem hmem
  cases a with
  | flushed start len =>
    obtain ⟨rfl, rfl⟩ := ha'
    have hlog := logSize_pos (run_flush_logged (init_powerOn _) hr _ _ _ he trivial)
    have hptr : (powerOn.world.replay pre).logPtr2 = eventLogStart + logSize pre := replay_logPtr2 _ _
    have hrange := h _ _ _ (init_powerOn _) hr _ _ _ _ he eventLogStart (Nat.le_refl _) (by omega)
    omega
  | _ => exact hf

end MeasuredBoot
