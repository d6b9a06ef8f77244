import MeasuredBoot.Lib.Triple

/-!
# Programs that poll

A loop that waits for a device is bounded by a number of polls here; where it has used them up, its outcome
is `stuck`. `Settles stuck c s`: with enough polls the program `c` ends from `s`, in one outcome that
is not `stuck` and that more polls do not change.
-/

namespace Prog

variable {ε σ α β : Type} {stuck : ε} {s : σ}

/-- `do { x = read(); } while (!stop(x));`, at most so many times. -/
def pollUntil (stuck : ε) (read : EStateM ε σ β) (stop : β → Bool) : Nat → EStateM ε σ Unit
  | 0 => throw stuck
  | polls + 1 => do
    let x ← read
    if stop x then pure () else pollUntil stuck read stop polls

def Settles (stuck : ε) (c : Nat → EStateM ε σ α) (s : σ) : Prop :=
  ∃ r, (∀ t, r ≠ .error stuck t) ∧ ∃ n, ∀ polls, n ≤ polls → c polls s = r

/-- A program that does not poll. -/
theorem settles_const {c : EStateM ε σ α} (h : ∀ t, c s ≠ .error stuck t) :
    Settles stuck (fun _ => c) s :=
  ⟨c s, h, 0, fun _ _ => rfl⟩

theorem Settles.bind {c : Nat → EStateM ε σ α} {f : Nat → α → EStateM ε σ β}
    (hc : Settles stuck c s)
    (hf : ∀ polls a t, c polls s = .ok a t → Settles stuck (fun n => f n a) t) :
    Settles stuck (fun n => c n >>= f n) s := by
  obtain ⟨r, hr, n, hn⟩ := hc
  cases r with
  | ok a t =>
    obtain ⟨r', hr', n', hn'⟩ := hf n a t (hn n (Nat.le_refl n))
    refine ⟨r', hr', max n n', fun polls hp => ?_⟩
    show (c polls >>= f polls) s = r'
    rw [bind_apply, hn polls (by omega)]
    exact hn' polls (by omega)
  | error e t =>
    refine ⟨.error e t, fun u hu => ?_, n, fun polls hp => ?_⟩
    · injection hu with he _
      exact hr t (by rw [he])
    · show (c polls >>= f polls) s = .error e t
      rw [bind_apply, hn polls hp]

/-- Reading on from `s`, a value comes that ends the loop. -/
inductive Stops (read : EStateM ε σ β) (stop : β → Bool) : σ → Prop
  | now {s t : σ} {x : β} : read s = .ok x t → stop x = true → Stops read stop s
  | later {s t : σ} {x : β} : read s = .ok x t → stop x = false → Stops read stop t →
      Stops read stop s

theorem Stops.settles {read : EStateM ε σ β} {stop : β → Bool} (h : Stops read stop s) :
    Settles stuck (pollUntil stuck read stop) s := by
  induction h with
  | @now s t x hread hstop =>
    refine ⟨.ok () t, nofun, 1, fun polls hp => ?_⟩
    obtain ⟨m, rfl⟩ : ∃ m, polls = m + 1 := ⟨polls - 1, by omega⟩
    rw [pollUntil, bind_apply, hread]
    simp only [hstop, if_true]
    rfl
  | @later s t x hread hstop _ ih =>
    obtain ⟨r, hr, n, hn⟩ := ih
    refine ⟨r, hr, n + 1, fun polls hp => ?_⟩
    obtain ⟨m, rfl⟩ : ∃ m, polls = m + 1 := ⟨polls - 1, by omega⟩
    rw [pollUntil, bind_apply, hread]
    simp only [hstop, Bool.false_eq_true, if_false]
    exact hn m (by omega)

/-- Polling moves the state only as its reads do. -/
theorem lands_pollUntil {R : σ → σ → Prop} [IsPreorder σ R] {read : EStateM ε σ β} {stop : β → Bool}
    (h : Lands R read) (polls : Nat) : Lands R (pollUntil stuck read stop polls) := by
  induction polls with
  | zero => exact fun s u t hc => absurd hc (by simp [pollUntil])
  | succ polls ih =>
    refine lands_bind h fun x => lands_ite (fun _ => ?_) fun _ => ih
    exact (frame_pure ()).lands

/-- A loop whose reads keep `I` and come closer to the end, where they leave `Q`: it is stuck only where there are
too few polls. -/
theorem ends_pollUntil {read : EStateM ε σ β} {stop : β → Bool} {I Q : σ → Prop} {E : ε → σ → Prop} {d : σ → Nat}
    (hread : ∀ s, I s → Ends read s (fun x t => (stop x = true → Q t) ∧ (stop x = false → I t ∧ d t < d s)) E)
    (polls : Nat) (hs : I s) (hstuck : polls ≤ d s → ∀ t, I t → E stuck t) :
    Ends (pollUntil stuck read stop polls) s (fun _ t => Q t) E := by
  induction polls generalizing s with
  | zero => exact hstuck (Nat.zero_le _) s hs
  | succ polls ih =>
    refine ends_bind (hread s hs) fun x t ht => ?_
    cases hx : stop x with
    | true => exact ht.1 hx
    | false =>
      obtain ⟨hI, hlt⟩ := ht.2 hx
      exact ih hI fun hle => hstuck (by omega)

end Prog
