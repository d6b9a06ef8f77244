import MeasuredBoot.Boards

/-!
# The order of loads and handoff

The calls and returns of loads and the call of the handoff are a run's `controls`.
`boot_order`: outside JTAG mode a run calls the handoff once at most, and only behind
the successful loads of partitions 1 to `NoOfPartitions - 1`, in that order; loads
and handoff stay within the partition headers; a failed stage leads to the error
stage, and the error stage to no further act.
-/

namespace MeasuredBoot

open Prog TransSys

/-! ## Control acts -/

/-- A call or return of a load, or the call of the handoff. -/
def Act.isControl : Act → Bool
  | .loadCalled _ => true
  | .loadReturned .. => true
  | .handoffCalled => true
  | _ => false

def controls (as : List Act) : List Act := as.filter Act.isControl

/-- Partitions 1 to `n` called and returned, one after the other. -/
def loadsInOrder (n : Nat) : List Act :=
  (List.range n).flatMap fun k => [.loadCalled (k + 1), .loadReturned (k + 1) xfsblSuccess]

theorem controls_append (as bs : List Act) : controls (as ++ bs) = controls as ++ controls bs :=
  List.filter_append ..

theorem controls_eq_nil {as : List Act} (h : ∀ a ∈ as, a.isControl = false) : controls as = [] :=
  List.filter_eq_nil_iff.2 fun a ha => by simp [h a ha]

theorem loadsInOrder_succ (n : Nat) :
    loadsInOrder (n + 1) =
      loadsInOrder n ++ [.loadCalled (n + 1), .loadReturned (n + 1) xfsblSuccess] := by
  simp [loadsInOrder, List.range_succ]

theorem mem_controls {a : Act} {as : List Act} (h : a.isControl = true) :
    a ∈ controls as ↔ a ∈ as := by
  simp [controls, h]

/-- Acts of a kind without control acts add none. -/
theorem Emits.controls {A : Act → Prop} (hA : ∀ a, A a → a.isControl = false) {w w' : World}
    (h : Emits A w w') : controls w'.trace = controls w.trace := by
  obtain ⟨as, ha, hd⟩ := h
  rw [hd.trace, controls_append, controls_eq_nil fun a h => hA a (ha a h), List.append_nil]

section Kinds

variable {hw : Hw} {n : Nat}

theorem initAct_control (a : Act) (h : InitAct hw a) : a.isControl = false := by
  cases a <;> first | rfl | exact h.elim

theorem bootAct_control (a : Act) (h : BootAct a) : a.isControl = false := by
  cases a <;> first | rfl | exact h.elim

theorem loadAct_control (a : Act) (h : LoadAct n a) : a.isControl = false := by
  cases a <;> first | rfl | exact h.elim

theorem handoffAct_control (a : Act) (h : HandoffAct a) : a.isControl = false := by
  cases a <;> first | rfl | exact h.elim

end Kinds

/-! ## Stage functions -/

/-- The function whose status decides a pass. -/
def stageFunction (hw : Hw) (l : Locals) : Fsbl Unit :=
  match l.fsblStage with
  | .stage1 => fsblInitialize hw
  | .stage2 => bootDeviceInitAndValidate hw
  | .stage3 => do
    act (.loadCalled l.partitionNum)
    partitionLoad hw l.partitionNum
  | .stage4 => handoff hw l.partitionNum
  | _ => pure ()

theorem statusOf_of_error {c : Fsbl Unit} {w w' : World} {code : UInt32}
    (h : c w = .error (.status code) w') : statusOf c w = .ok code w' := by
  unfold statusOf
  rw [h]

/-- **A failed stage leads to the error stage.** -/
theorem mainStep_failed {hw : Hw} (hmode : NotJtagMode hw) {s : MainState} {w : World}
    {code : UInt32} (hs : PassOk s)
    (h : stageFunction hw s.locals s.world = .error (.status code) w) :
    (mainStep hw s).locals.fsblStage = .stageErr := by
  obtain ⟨⟨stage, n, status⟩, w₀⟩ := s
  have err {l : Locals} {v : World} (hr : runStage hw ⟨stage, n, status⟩ w₀ = .ok l v)
      (hl : l.fsblStage = .stageErr) :
      (mainStep hw ⟨⟨stage, n, status⟩, w₀⟩).locals.fsblStage = .stageErr := by
    unfold mainStep
    rw [hr]
    exact hl
  cases stage with
  | stage1 =>
    have hne : code ≠ xfsblSuccess := fun hc => (usual_fsblInitialize (E := Proper) hw _ _ _ h).2 (by rw [hc])
    refine err (l := ⟨.stageErr, 0, code + xfsblErrorStage1⟩) (v := w)
      (bind_ok.2 ⟨_, _, statusOf_of_error h, ?_⟩) rfl
    rw [if_pos hne]
    rfl
  | stage2 =>
    have hb := raises_bootDeviceInitAndValidate hw h
    have hne : code ≠ xfsblSuccess := fun hc => hb.1.1.2 (by rw [hc])
    have hj : code ≠ xfsblStatusJtag := fun hc => hb.2 hmode (by rw [hc])
    refine err (l := ⟨.stageErr, 0, code + xfsblErrorStage2⟩) (v := w)
      (bind_ok.2 ⟨_, _, statusOf_of_error h, ?_⟩) rfl
    rw [if_pos ⟨hne, hj⟩]
    rfl
  | stage3 =>
    obtain h | ⟨_, v, hv, h⟩ := bind_error.1 h
    · exact absurd h (by simp [act])
    obtain rfl := act_ok.1 hv
    have hne : code ≠ xfsblSuccess := fun hc =>
      (HeadersOk.proper (w := w₀.apply (.loadCalled n)) (hs.1 rfl) h).2 (by rw [hc])
    refine err (l := ⟨.stageErr, n, code + xfsblErrorStage3⟩) (v := w.apply (.loadReturned n code))
      (bind_ok.2 ⟨code, w.apply (.loadReturned n code), ?_, ?_⟩) rfl
    · refine bind_ok.2 ⟨_, _, hv, bind_ok.2 ⟨_, _, statusOf_of_error h, ?_⟩⟩
      refine bind_ok.2 ⟨(), _, act_ok.2 rfl, bind_ok.2 ⟨(), _, when_ok.2 (.inr ⟨hne, rfl⟩), ?_⟩⟩
      exact pure_ok.2 ⟨rfl, rfl⟩
    · rw [if_pos hne]
      rfl
  | stage4 =>
    have hh := raises_handoff hw (hs.2 rfl) _ _ _ h
    have hne : code ≠ xfsblSuccess := fun hc => hh.1.1.2 (by rw [hc])
    refine err (l := ⟨.stageErr, n, code + xfsblErrorStage4⟩) (v := w)
      (bind_ok.2 ⟨_, _, statusOf_of_error h, ?_⟩) rfl
    rw [if_neg fun hc => hh.2.1 (by rw [hc]), if_neg fun hc => hh.2.2 (by rw [hc]), if_pos hne]
    rfl
  | stageErr => simp [stageFunction] at h
  | stageDefault => simp [stageFunction] at h
  | ended e => simp [stageFunction] at h

/-! ## The invariant -/

/-- What a run keeps about loads and handoff. -/
structure Ordered (hw : Hw) (s : MainState) : Prop where
  calls : ∀ n, .loadCalled n ∈ s.world.trace → 1 ≤ n ∧ n < xihMaxPartitions
  inBounds : ∀ e, s.locals.fsblStage = .ended e → InBounds e
  handoff : .handoffCalled ∈ s.world.trace → s.Over ∧ (NotJtagMode hw →
    ∃ n, s.world.inst.imageHeader.Counts n ∧
      controls s.world.trace = loadsInOrder n ++ [.handoffCalled])

section Run

variable {hw : Hw} {P : Nat → World → Prop} {w₀ w w' : World} {s : MainState} {n : Nat}

theorem Loaded.controls (h : Loaded hw P w n w') :
    controls w'.trace = controls w.trace ++ loadsInOrder n := by
  induction h with
  | none => simp [loadsInOrder]
  | @next n v v' mask _ _ hl ih =>
    have hv := ((frame_partitionLoad hw (n + 1)).ok hl).emits.controls loadAct_control
    rw [World.trace_apply, World.trace_apply, controls_append, controls_append, hv,
      World.trace_apply, controls_append, ih, loadsInOrder_succ]
    simp only [List.append_assoc]
    rfl

theorem booted_controls {v : World} (h₀ : w₀.Initial) (h1 : fsblInitialize hw w₀ = .ok () w)
    (h2 : bootDeviceInitAndValidate hw w = .ok () v) : controls v.trace = [] := by
  have hi := ((frame_fsblInitialize hw).ok h1).1.controls initAct_control
  have hb := ((frame_bootDeviceInitAndValidate (f := XFsblPs.reset) hw fun _ _ => rfl).ok h2).1.controls bootAct_control
  rw [hb, hi, h₀.trace]
  rfl

/-- Outside JTAG mode, stage 4 is entered behind all loads. -/
theorem History.atHandoff (h₀ : w₀.Initial) (hmode : NotJtagMode hw) (h : History hw P w₀ s)
    (hs : s.locals.fsblStage = .stage4) :
    ∃ n, s.world.inst.imageHeader.Counts n ∧ controls s.world.trace = loadsInOrder n := by
  cases h with
  | @loaded w v n _ _ h1 h2 hc hl =>
    refine ⟨n, hc, ?_⟩
    rw [hl.controls, World.trace_apply, controls_append, booted_controls h₀ h1 h2]
    rfl
  | jtag _ _ _ hb => exact absurd rfl ((raises_bootDeviceInitAndValidate hw hb).2 hmode)
  | failed ho => simp [MainState.Over, hs] at ho
  | _ hs' => simp [hs] at hs'

theorem mainStep_over (hs : PassOk s) (h : s.Over ∨ s.locals.fsblStage = .stage4) :
    (mainStep hw s).Over := by
  have hp : Pass hw s (mainStep hw s) := mainStep_cases hs
  cases hp with
  | failed ht => exact .inl ht
  | ended _ ht => exact .inr (.inr ⟨_, ht⟩)
  | initialized hs' => simp [MainState.Over, hs'] at h
  | booted hs' => simp [MainState.Over, hs'] at h
  | jtag hs' => simp [MainState.Over, hs'] at h
  | loaded hs' => simp [MainState.Over, hs'] at h

/-- The control acts a pass may make. -/
theorem passAct_control {l : Locals} {a : Act} (h : PassAct hw l a) (hc : a.isControl = true) :
    (l.fsblStage = .stage3 ∧ (a = .loadCalled l.partitionNum ∨
      ∃ status, a = .loadReturned l.partitionNum status)) ∨
      l.fsblStage = .stage4 ∧ a = .handoffCalled := by
  obtain ⟨stage, n, status⟩ := l
  cases stage with
  | stage1 => simp [initAct_control a h] at hc
  | stage2 =>
    rcases h with h | ⟨_, rfl⟩ | rfl
    · simp [bootAct_control a h] at hc
    · cases hc
    · cases hc
  | stage3 =>
    rcases h with h | h | h | ⟨_, rfl⟩
    · simp [loadAct_control a h] at hc
    · exact .inl ⟨rfl, .inl h⟩
    · exact .inl ⟨rfl, .inr h⟩
    · cases hc
  | stage4 =>
    rcases h with h | rfl
    · simp [handoffAct_control a h] at hc
    · exact .inr ⟨rfl, rfl⟩
  | stageErr => exact h.elim
  | stageDefault => exact h.elim
  | ended e => exact h.elim

theorem Ordered.step (h₀ : w₀.Initial) (hh : History hw AnyLoad w₀ s) (hrun : s.Running)
    (h : Ordered hw s) : Ordered hw (mainStep hw s) := by
  obtain ⟨as, ha, hd⟩ := pass_emits hw s
  refine ⟨fun n hn => ?_, fun e he => ?_, fun hc => ?_⟩
  · rw [hd.trace] at hn
    rcases List.mem_append.1 hn with hn | hn
    · exact h.calls n hn
    · rcases passAct_control (ha _ hn) rfl with ⟨hs, hn | ⟨_, hn⟩⟩ | ⟨_, hn⟩
      · injection hn with hn
        have hok := hh.passOk.1 hs
        have h1 : 1 ≤ s.locals.partitionNum := by rcases hok with hok | hok <;> omega
        exact hn ▸ ⟨h1, hok.lt⟩
      · cases hn
      · cases hn
  · have hp : Pass hw s (mainStep hw s) := mainStep_cases hh.passOk
    cases hp with
    | ended hr ht =>
      rw [ht] at he
      injection he with he
      exact he ▸ runStage_inBounds hh.passOk hrun hr
    | failed ht => simp [he] at ht
    | initialized _ _ ht => simp [ht] at he
    | booted _ _ _ ht => simp [ht] at he
    | jtag _ _ _ ht => simp [ht] at he
    | loaded _ _ _ ht =>
      rw [ht] at he
      split at he <;> cases he
  · rw [hd.trace] at hc
    rcases List.mem_append.1 hc with hc | hc
    · obtain ⟨ho, hc⟩ := h.handoff hc
      refine ⟨mainStep_over hh.passOk (.inl ho), fun hmode => ?_⟩
      obtain ⟨n, hcount, hctl⟩ := hc hmode
      obtain ⟨he, hi⟩ := over_pass (f := XFsblPs.imageHeader) hw (fun _ _ => rfl) ho
      refine ⟨n, hi ▸ hcount, ?_⟩
      rw [he.controls fun _ h => h.elim, hctl]
    · rcases passAct_control (ha _ hc) rfl with ⟨_, hc | ⟨_, hc⟩⟩ | ⟨hs, -⟩
      · cases hc
      · cases hc
      · refine ⟨mainStep_over hh.passOk (.inr hs), fun hmode => ?_⟩
        obtain ⟨n, hcount, hctl⟩ := hh.atHandoff h₀ hmode hs
        have hl := handoff_pass hw hs
        refine ⟨n, ?_, ?_⟩
        · obtain ⟨_, -, hm⟩ := hl
          rw [hm.imageHeader]
          exact hcount
        · rw [hl.emits.controls handoffAct_control, World.trace_apply, controls_append, hctl]
          rfl

theorem run_ordered {s₀ : MainState} {G : MainState → Prop} (h₀ : (boot hw).init s₀)
    (h : (boot hw).Run G s₀ s) : Ordered hw s := by
  induction h with
  | refl =>
    constructor
    · simp [h₀.2.trace]
    · simp [h₀.1]
    · simp [h₀.2.trace]
  | snoc hr _ hn ih =>
    obtain ⟨hrun, rfl⟩ := hn
    exact ih.step h₀.2 (run_history h₀ hr) hrun

/-- Behind the error stage nothing is done. -/
theorem run_over {t : MainState} {G : MainState → Prop} (hs : s.Over) (hok : PassOk s)
    (h : (boot hw).Run G s t) : t.Over ∧ PassOk t ∧ t.world.trace = s.world.trace := by
  induction h with
  | refl => exact ⟨hs, hok, rfl⟩
  | snoc _ _ hn ih =>
    obtain ⟨-, rfl⟩ := hn
    obtain ⟨ho, hp, ht⟩ := ih
    have ho' : (mainStep hw _).Over := mainStep_over hp (.inl ho)
    obtain ⟨⟨as, ha, hd⟩, -⟩ := over_pass (f := XFsblPs.imageHeader) hw (fun _ _ => rfl) ho
    obtain rfl := List.eq_nil_iff_forall_not_mem.2 ha
    refine ⟨ho', ?_, by rw [hd.trace, ht, List.append_nil]⟩
    unfold PassOk
    rcases ho' with ho' | ho' | ⟨e, ho'⟩ <;> simp [ho']

/-- **The order of loads and handoff.** -/
theorem boot_order (hmode : NotJtagMode hw) (h : (boot hw).Reachable s) :
    (∀ n, .loadCalled n ∈ s.world.trace → 1 ≤ n ∧ n < xihMaxPartitions) ∧
      (∀ i, s.locals.fsblStage ≠ .ended (.headerOutOfBounds i)) ∧
      (.handoffCalled ∈ s.world.trace → ∃ n, s.world.inst.imageHeader.Counts n ∧
        controls s.world.trace = loadsInOrder n ++ [.handoffCalled]) ∧
      (∀ code w, stageFunction hw s.locals s.world = .error (.status code) w →
        (mainStep hw s).locals.fsblStage = .stageErr) ∧
      (s.locals.fsblStage = .stageErr → ∀ t, (boot hw).Run (fun _ => True) s t →
        t.world.trace = s.world.trace) := by
  obtain ⟨s₀, h₀, hr⟩ := h
  have hord := run_ordered h₀ hr
  have hok := (run_history h₀ hr).passOk
  refine ⟨hord.calls, fun i hi => ?_, fun hc => ?_, fun code w hf => ?_, fun hs t ht => ?_⟩
  · exact hord.inBounds _ hi i rfl
  · exact (hord.handoff hc).2 hmode
  · exact mainStep_failed hmode hok hf
  · exact (run_over (.inl hs) hok ht).2.2

end Run

/-- A boot of one partition reaches the handoff, behind one load. -/
theorem boot_order_plainBoard :
    .handoffCalled ∈ (plainBoard.after 4).world.trace ∧
      ∃ n, (plainBoard.after 4).world.inst.imageHeader.Counts n ∧
        controls (plainBoard.after 4).world.trace = loadsInOrder n ++ [.handoffCalled] := by
  have hc : ((plainBoard.after 4).world.trace.any fun a =>
      match a with
      | .handoffCalled => true
      | _ => false) = true := by decide +kernel
  have hc : Act.handoffCalled ∈ (plainBoard.after 4).world.trace := by
    obtain ⟨a, ha, h⟩ := List.any_eq_true.1 hc
    cases a <;> first | exact ha | cases h
  have hr : (boot plainBoard.hw).Reachable (plainBoard.after 4) :=
    ⟨_, init_powerOn _, plainBoard.run 0 4 (by decide +kernel)⟩
  have hmode : NotJtagMode plainBoard.hw := fun _ =>
    show xfsblQspi24BootMode &&& crlApbBootModeUserBootModeMask ≠ xfsblJtagBootMode by decide
  exact ⟨hc, (boot_order hmode hr).2.2.1 hc⟩

end MeasuredBoot
