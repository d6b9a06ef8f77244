import MeasuredBoot.LogCapacity

/-!
# Only a partition placed over the log changes it

Initialisations of TCM and the stores of the FSBL are outside the log buffer and every
event goes behind the recorded bytes, so `log_appendOnly`: between two points of a
run a recorded byte stays, unless a partition was copied or decrypted over it.
Nothing keeps a partition from that: the address test of the headers takes all of the DDR.
-/

namespace MeasuredBoot

open Prog TransSys

/-- Acts away from the log change a byte below its pointer by placing a partition over it only. -/
theorem replay_mem_recorded {w : World} {as : List Act} {x : Nat} (ha : ∀ a ∈ as, a.Away)
    (h1 : eventLogStart ≤ x) (h2 : x < w.logPtr2) (h3 : x < eventLogEnd) :
    (w.replay as).mem x = w.mem x ∨
      ∃ n start len data, .placed n start len data ∈ as ∧ start ≤ x ∧ x < start + len := by
  induction as generalizing w with
  | nil => exact .inl rfl
  | cons a as ih =>
    rw [List.forall_mem_cons] at ha
    rcases ha.1.spares h1 h3 with hs | ⟨n, start, len, data, rfl, hx⟩
    · have h2' : x < (w.effect a).logPtr2 := by
        rw [effect_logPtr2]
        omega
      rcases ih ha.2 h2' with he | ⟨n, start, len, data, hmem, hx⟩
      · left
        rw [World.replay_cons, he, effect_mem_spared hs (.inl h2)]
      · exact .inr ⟨n, start, len, data, List.mem_cons_of_mem _ hmem, hx⟩
    · exact .inr ⟨n, start, len, data, List.mem_cons_self, hx⟩

/-- **A recorded byte stays**, between any two points of a run, unless a partition was placed
over it. -/
theorem log_appendOnly {hw : Hw} {s₀ s : MainState} (h₀ : (boot hw).init s₀)
    (h : (boot hw).Run (fun _ => True) s₀ s) {pre mid post : List Act}
    (ht : s.world.trace = pre ++ mid ++ post) {x : Nat} (h1 : eventLogStart ≤ x)
    (h2 : x < (s₀.world.replay pre).logPtr2) :
    (s₀.world.replay (pre ++ mid)).mem x = (s₀.world.replay pre).mem x ∨
      ∃ n start len data, .placed n start len data ∈ mid ∧ start ≤ x ∧ x < start + len := by
  have hmid : ∀ a ∈ mid, a.Away := by
    intro a ha
    obtain ⟨l, hl⟩ := run_acts h₀ h a (by rw [ht]; simp [ha])
    exact passAct_away hl
  rw [List.append_assoc] at ht
  obtain ⟨hp, hle⟩ := run_logSize h₀ h ht
  rw [World.replay_append]
  exact replay_mem_recorded hmid h1 h2 (by omega)

/-- Between stage 2 and the handoff of a boot of one partition. -/
theorem log_appendOnly_plainBoard :
    let pre := (plainBoard.after 2).world.trace
    let mid := (plainBoard.after 3).world.trace.drop pre.length
    (powerOn.world.replay (pre ++ mid)).mem eventLogStart =
        (powerOn.world.replay pre).mem eventLogStart ∨
      ∃ n start len data, .placed n start len data ∈ mid ∧ start ≤ eventLogStart ∧
        eventLogStart < start + len := by
  have hr : (boot plainBoard.hw).Run (fun _ => True) powerOn (plainBoard.after 3) :=
    plainBoard.run 0 3 (by decide +kernel)
  have hr₂ : (boot plainBoard.hw).Run (fun _ => True) (plainBoard.after 2) (plainBoard.after 3) :=
    plainBoard.run 2 1 (by decide +kernel)
  obtain ⟨as, hd⟩ := run_does hr₂
  have ht : (plainBoard.after 3).world.trace =
      (plainBoard.after 2).world.trace ++
        (plainBoard.after 3).world.trace.drop (plainBoard.after 2).world.trace.length ++ [] := by
    have htr : (plainBoard.after 3).world.trace = (plainBoard.after 2).world.trace ++ as := hd.trace
    rw [htr, List.drop_left, List.append_nil]
  exact log_appendOnly (init_powerOn _) hr ht (Nat.le_refl _) (by decide +kernel)

/-- One partition whose load address is the start of the log. -/
def overLogBoard : Board := qspiBoard [{ load := 0x79640000, exec := 0x79640000 }]

/-- It is loaded, over the header of the log. -/
theorem not_log_appendOnly :
    ¬ ∀ (hw : Hw) (s₀ s t : MainState) (x : Nat), (boot hw).init s₀ →
      (boot hw).Run (fun _ => True) s₀ s → (boot hw).Run (fun _ => True) s t →
      eventLogStart ≤ x → x < s.world.logPtr2 → t.world.mem x = s.world.mem x := by
  intro h
  have hr : (boot overLogBoard.hw).Run (fun _ => True) powerOn (overLogBoard.after 2) :=
    overLogBoard.run 0 2 (by decide +kernel)
  have hr₂ : (boot overLogBoard.hw).Run (fun _ => True) (overLogBoard.after 2) (overLogBoard.after 3) :=
    overLogBoard.run 2 1 (by decide +kernel)
  have hlog : (overLogBoard.after 2).world.mem (eventLogStart + 4) ≠
      (overLogBoard.after 3).world.mem (eventLogStart + 4) := by decide +kernel
  exact hlog (h _ _ _ _ _ (init_powerOn _) hr hr₂ (by decide) (by decide +kernel)).symm

end MeasuredBoot
