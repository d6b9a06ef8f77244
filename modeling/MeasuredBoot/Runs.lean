import MeasuredBoot.Passes

/-!
# Runs of the stage machine

`Loaded hw P w n w'`: partitions 1 to `n` loaded, one pass each, from `w` to `w'`. `History hw P w₀ s`
says how the run from `w₀` came to `s`: up to stage 4 its world is the result of the
functions called, in order. `run_history` is the induction over the run, and what
holds of a handoff follows from `History.loaded` by induction over the loads.
-/

namespace MeasuredBoot

open Prog TransSys

/-! ## Loads in a row -/

/-- The partitions 1 to `n` loaded, each from a world meeting `P`. -/
inductive Loaded (hw : Hw) (P : Nat → World → Prop) (w : World) : Nat → World → Prop where
  | none : Loaded hw P w 0 w
  | next {n : Nat} {v v' : World} (mask : UInt32) : Loaded hw P w n v → P (n + 1) v →
      partitionLoad hw (n + 1) (v.apply (.loadCalled (n + 1))) = .ok () v' →
      Loaded hw P w (n + 1)
        ((v'.apply (.loadReturned (n + 1) xfsblSuccess)).apply (.r5Used mask))

/-- The headers for a run that loaded `n` partitions. -/
def ImageHeader.Counts (i : ImageHeader) (n : Nat) : Prop :=
  1 ≤ n ∧ i.imageHeaderTable.noOfPartitions.toNat = n + 1 ∧ n + 1 ≤ 32

/-- How a run from `w₀` came to its stage. -/
inductive History (hw : Hw) (P : Nat → World → Prop) (w₀ : World) (s : MainState) : Prop where
  | start : s.locals.fsblStage = .stage1 → s.world = w₀ → History hw P w₀ s
  | initialized : s.locals.fsblStage = .stage2 → fsblInitialize hw w₀ = .ok () s.world →
      History hw P w₀ s
  | loading {w v : World} {n : Nat} : s.locals.fsblStage = .stage3 → s.locals.partitionNum = n + 1 →
      fsblInitialize hw w₀ = .ok () w → bootDeviceInitAndValidate hw w = .ok () v →
      HeadersOk (n + 1) s.world.inst.imageHeader → Loaded hw P (v.apply .r5UsageCleared) n s.world →
      History hw P w₀ s
  | loaded {w v : World} {n : Nat} : s.locals.fsblStage = .stage4 → s.locals.partitionNum = n →
      fsblInitialize hw w₀ = .ok () w → bootDeviceInitAndValidate hw w = .ok () v →
      s.world.inst.imageHeader.Counts n → Loaded hw P (v.apply .r5UsageCleared) n s.world →
      History hw P w₀ s
  | jtag {w v : World} {mask : UInt32} : s.locals.fsblStage = .stage4 → s.locals.partitionNum = 0 →
      fsblInitialize hw w₀ = .ok () w →
      bootDeviceInitAndValidate hw w = .error (.status xfsblStatusJtag) v →
      s.world = v.apply (.r5Used mask) → History hw P w₀ s
  | failed : s.Over → History hw P w₀ s

section Loads

variable {hw : Hw} {P : Nat → World → Prop} {w w' : World} {n : Nat}

/-- A load leaves headers, processor and reset reason. -/
theorem partitionLoad_fixed {u : Unit} (h : partitionLoad hw n w = .ok u w') :
    w'.inst.fixed = w.inst.fixed := by
  obtain ⟨as, -, hm⟩ := (frame_partitionLoad hw n).ok h
  exact hm.inst

theorem Loaded.fixed (h : Loaded hw P w n w') : w'.inst.fixed = w.inst.fixed := by
  induction h with
  | none => rfl
  | next mask _ _ hl ih =>
    rw [World.fixed_apply, World.fixed_apply, partitionLoad_fixed hl, World.fixed_apply, ih]

theorem imageHeader_of_fixed {i j : XFsblPs} (h : i.fixed = j.fixed) :
    i.imageHeader = j.imageHeader := by
  have hf := congrArg XFsblPs.imageHeader h
  exact hf

theorem processorID_of_fixed {i j : XFsblPs} (h : i.fixed = j.fixed) :
    i.processorID = j.processorID := by
  have hf := congrArg XFsblPs.processorID h
  exact hf

theorem resetReason_of_fixed {i j : XFsblPs} (h : i.fixed = j.fixed) :
    i.resetReason = j.resetReason := by
  have hf := congrArg XFsblPs.resetReason h
  exact hf

end Loads

/-! ## One pass -/

section Step

variable {hw : Hw} {P : Nat → World → Prop} {w₀ : World} {s t : MainState}

theorem History.passOk (h : History hw P w₀ s) : PassOk s := by
  unfold PassOk
  cases h with
  | start hs => simp [hs]
  | initialized hs => simp [hs]
  | loading hs hn _ _ hh => simp [hs, hn, hh]
  | loaded hs hn _ _ hc =>
    have := hc.2.2
    simp only [hs, hn]
    exact ⟨nofun, fun _ => by omega⟩
  | jtag hs hn => simp [hs, hn]
  | failed hs => rcases hs with hs | hs | ⟨e, hs⟩ <;> simp [hs]

/-- The headers after the boot device: counted, or not read at all. -/
theorem headersOk_of_booted {w v : World} (h₀ : w₀.Initial) (h1 : fsblInitialize hw w₀ = .ok () w)
    (h2 : bootDeviceInitAndValidate hw w = .ok () v) : HeadersOk 1 v.inst.imageHeader := by
  obtain ⟨hi, -⟩ := fsblInitialize_ok hw h1
  rw [h₀.inst] at hi
  have counted {t : ImageHeaderTable} {u : World} (hp : HeaderPass hw t u v) (hs : t.Same) :
      HeadersOk 1 v.inst.imageHeader := by
    obtain ⟨h2, h32⟩ := hp.count hs
    left
    rw [hp.table]
    omega
  obtain ⟨hb, -⟩ := bootDevice_ok h2
  cases hb with
  | primary hs hp => exact counted hp hs
  | @secondary t t' u hs hp hp' =>
    by_cases hs' : t'.Same
    · exact counted hp' hs'
    · right
      rw [hp'.kept hs', hp.kept hs, hi]
      exact ⟨rfl, rfl⟩

theorem History.step (h₀ : w₀.Initial) (h : History hw P w₀ s)
    (hP : s.locals.fsblStage = .stage3 → P s.locals.partitionNum s.world) :
    History hw P w₀ (mainStep hw s) := by
  have hp : Pass hw s (mainStep hw s) := mainStep_cases h.passOk
  generalize mainStep hw s = t at hp ⊢
  cases hp with
  | failed hs => exact .failed (.inl hs)
  | ended _ hs => exact .failed (.inr (.inr ⟨_, hs⟩))
  | initialized hs hi ht =>
    cases h with
    | start _ hw₀ => exact .initialized (by rw [ht]) (hw₀ ▸ hi)
    | failed ho => simp [MainState.Over, hs] at ho
    | _ hs' => simp [hs] at hs'
  | @booted v hs hb hw' ht =>
    cases h with
    | initialized _ hi =>
      refine .loading (n := 0) (by rw [ht]) (by rw [ht]) hi hb ?_ (hw' ▸ .none)
      have hh : HeadersOk 1 v.inst.imageHeader := headersOk_of_booted h₀ hi hb
      rw [hw']
      exact hh
    | failed ho => simp [MainState.Over, hs] at ho
    | _ hs' => simp [hs] at hs'
  | jtag hs hb hw' ht =>
    cases h with
    | initialized _ hi => exact .jtag (by rw [ht]) (by rw [ht]) hi hb hw'
    | failed ho => simp [MainState.Over, hs] at ho
    | _ hs' => simp [hs] at hs'
  | @loaded v mask hs hl hw' ht =>
    cases h with
    | @loading w b n _ hn hi hb hh hld =>
      have hP := hP hs
      rw [hn] at hl hw' ht hP
      have hc := HeadersOk.counted (w := s.world.apply (.loadCalled (n + 1))) hh hl
      have hfix : v.inst.imageHeader = s.world.inst.imageHeader :=
        imageHeader_of_fixed ((partitionLoad_fixed hl).trans (World.fixed_apply _ _))
      have hnext : Loaded hw P (b.apply .r5UsageCleared) (n + 1) t.world := hw' ▸ .next mask hld hP hl
      have himg : t.world.inst.imageHeader = s.world.inst.imageHeader := by
        rw [hw']
        exact hfix
      have hc' : 2 ≤ s.world.inst.imageHeader.imageHeaderTable.noOfPartitions.toNat ∧
          s.world.inst.imageHeader.imageHeaderTable.noOfPartitions.toNat ≤ 32 ∧
          1 ≤ n + 1 ∧ n + 1 < s.world.inst.imageHeader.imageHeaderTable.noOfPartitions.toNat := hc
      rw [hfix, toNat_sub_one (by omega)] at ht
      split at ht
      · refine .loading (n := n + 1) (by rw [ht]) (by rw [ht]) hi hb ?_ hnext
        rw [himg]
        left
        omega
      · refine .loaded (by rw [ht]) (by rw [ht]) hi hb ?_ hnext
        rw [himg]
        unfold ImageHeader.Counts
        omega
    | failed ho => simp [MainState.Over, hs] at ho
    | _ hs' => simp [hs] at hs'

/-- **The history of a run**, whose loads start where its guard lets them. -/
theorem run_guarded {G : MainState → Prop} {s₀ s : MainState}
    (hG : ∀ t, G t → t.locals.fsblStage = .stage3 → P t.locals.partitionNum t.world)
    (h₀ : (boot hw).init s₀) (h : (boot hw).Run G s₀ s) : History hw P s₀.world s := by
  induction h with
  | refl => exact .start (by rw [h₀.1]) rfl
  | snoc _ hg hn ih =>
    obtain ⟨-, rfl⟩ := hn
    exact ih.step h₀.2 (hG _ hg)

/-- Any load. -/
abbrev AnyLoad (_ : Nat) (_ : World) : Prop := True

theorem run_history {G : MainState → Prop} {s₀ s : MainState} (h₀ : (boot hw).init s₀)
    (h : (boot hw).Run G s₀ s) : History hw AnyLoad s₀.world s :=
  run_guarded (fun _ _ _ => trivial) h₀ h

end Step

/-! ## Whole runs -/

section Run

variable {hw : Hw} {G : MainState → Prop} {s₀ s t : MainState}

/-- The acts of a part of a run are what its trace gained. -/
theorem run_does (h : (boot hw).Run G s t) : ∃ as, Does as s.world t.world := by
  induction h with
  | refl => exact ⟨[], .refl _⟩
  | snoc _ _ hn ih =>
    obtain ⟨-, rfl⟩ := hn
    obtain ⟨as, ih⟩ := ih
    obtain ⟨bs, -, hd⟩ := pass_emits hw _
    exact ⟨as ++ bs, ih.trans hd⟩

/-- Every state of a run is the replay of its trace. -/
theorem run_replay (h₀ : (boot hw).init s₀) (h : (boot hw).Run G s₀ s) :
    Does s.world.trace s₀.world s.world := by
  obtain ⟨as, hd⟩ := run_does h
  have ht := hd.trace
  rw [h₀.2.trace, List.nil_append] at ht
  rwa [ht]

end Run

/-! ## Runs by the number of passes -/

/-- The state after `k` passes. -/
def passes (hw : Hw) : Nat → MainState → MainState
  | 0, s => s
  | k + 1, s => mainStep hw (passes hw k s)

theorem passes_add (hw : Hw) (j k : Nat) (s : MainState) :
    passes hw (j + k) s = passes hw k (passes hw j s) := by
  induction k with
  | zero => rfl
  | succ k ih => exact congrArg (mainStep hw) ih

/-- The run has not ended, as a test. -/
def MainState.running (s : MainState) : Bool :=
  match s.locals.fsblStage with
  | .ended _ => false
  | _ => true

theorem running_iff {s : MainState} : s.running = true ↔ s.Running := by
  unfold MainState.running MainState.Running
  cases s.locals.fsblStage <;> simp

/-- A run is a number of passes: it branches nowhere. -/
theorem run_iff_passes {hw : Hw} {G : MainState → Prop} {s t : MainState} :
    (boot hw).Run G s t ↔
      ∃ k, t = passes hw k s ∧ ∀ i < k, (passes hw i s).running = true ∧ G (passes hw i s) := by
  constructor
  · intro h
    induction h with
    | refl => exact ⟨0, rfl, nofun⟩
    | snoc _ hg hn ih =>
      obtain ⟨hrun, rfl⟩ := hn
      obtain ⟨k, rfl, ih⟩ := ih
      refine ⟨k + 1, rfl, fun i hi => ?_⟩
      rcases Nat.lt_succ_iff_lt_or_eq.1 hi with hi | rfl
      · exact ih i hi
      · exact ⟨running_iff.2 hrun, hg⟩
  · rintro ⟨k, rfl, h⟩
    induction k with
    | zero => exact .refl s
    | succ k ih =>
      obtain ⟨hrun, hg⟩ := h k (Nat.lt_succ_self k)
      exact .snoc (ih fun i hi => h i (Nat.lt_succ_of_lt hi)) hg ⟨running_iff.1 hrun, rfl⟩

end MeasuredBoot
