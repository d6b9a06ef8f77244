import MeasuredBoot.Lib.Prog

/-!
# Programs that log what they touch

A state that keeps a list of the accesses so far (`log`) tells where a program has been. `Safe` says of one
run: whatever its outcome, every access it adds meets `A`, an error it ends with meets `E`, and
a value it returns meets the postcondition. The rules follow the program text.
-/

namespace Prog

variable {ε σ ι α β : Type}

/-- Between the two states the log grew by accesses that meet `A`. -/
def Logs (log : σ → List ι) (A : ι → Prop) (s t : σ) : Prop :=
  ∃ is, log t = log s ++ is ∧ ∀ i ∈ is, A i

/-- The run of `c` from `s`. -/
def Safe (log : σ → List ι) (A : ι → Prop) (E : ε → Prop) (c : EStateM ε σ α) (s : σ)
    (Q : α → σ → Prop) : Prop :=
  match c s with
  | .ok a t => Logs log A s t ∧ Q a t
  | .error e t => Logs log A s t ∧ E e

variable {log : σ → List ι} {A : ι → Prop} {E : ε → Prop} {s t u : σ} {Q Q' : α → σ → Prop}
  {R : β → σ → Prop}

theorem Logs.refl (s : σ) : Logs log A s s := ⟨[], (List.append_nil _).symm, by simp⟩

theorem Logs.trans (h : Logs log A s t) (h' : Logs log A t u) : Logs log A s u := by
  obtain ⟨is, hs, his⟩ := h
  obtain ⟨js, ht, hjs⟩ := h'
  refine ⟨is ++ js, by rw [ht, hs, List.append_assoc], fun i hi => ?_⟩
  rcases List.mem_append.1 hi with hi | hi
  · exact his i hi
  · exact hjs i hi

theorem Safe.ok {c : EStateM ε σ α} (h : Safe log A E c s Q) {a : α} (hc : c s = .ok a t) :
    Logs log A s t ∧ Q a t := by
  unfold Safe at h
  rwa [hc] at h

theorem Safe.error {c : EStateM ε σ α} (h : Safe log A E c s Q) {e : ε} (hc : c s = .error e t) :
    Logs log A s t ∧ E e := by
  unfold Safe at h
  rwa [hc] at h

/-- Every run of a safe program, however it ends. -/
theorem Safe.logs {c : EStateM ε σ α} (h : Safe log A E c s Q) : Logs log A s (final (c s)) := by
  cases hc : c s with
  | ok a t => exact (h.ok hc).1
  | error e t => exact (h.error hc).1

theorem Safe.mono {c : EStateM ε σ α} (h : Safe log A E c s Q) (hQ : ∀ a t, Q a t → Q' a t) :
    Safe log A E c s Q' := by
  unfold Safe at *
  cases hc : c s with
  | ok a t =>
    rw [hc] at h
    exact ⟨h.1, hQ a t h.2⟩
  | error e t =>
    rw [hc] at h
    exact h

theorem safe_pure {a : α} (h : Q a s) : Safe log A E (pure a : EStateM ε σ α) s Q := ⟨.refl s, h⟩

theorem safe_throw {e : ε} (h : E e) : Safe log A E (throw e : EStateM ε σ α) s Q := ⟨.refl s, h⟩

theorem safe_get {Q : σ → σ → Prop} (h : Q s s) : Safe log A E (get : EStateM ε σ σ) s Q :=
  ⟨.refl s, h⟩

theorem safe_modify {f : σ → σ} {Q : PUnit → σ → Prop} {is : List ι} (hlog : log (f s) = log s ++ is)
    (his : ∀ i ∈ is, A i) (h : Q ⟨⟩ (f s)) : Safe log A E (modify f : EStateM ε σ PUnit) s Q :=
  ⟨⟨is, hlog, his⟩, h⟩

theorem safe_bind {c : EStateM ε σ α} {f : α → EStateM ε σ β} (hc : Safe log A E c s Q)
    (hf : ∀ a t, Q a t → Safe log A E (f a) t R) : Safe log A E (c >>= f) s R := by
  unfold Safe
  rw [bind_apply]
  cases hr : c s with
  | error e t => exact hc.error hr
  | ok a t =>
    obtain ⟨hst, hQ⟩ := hc.ok hr
    have hnext := hf a t hQ
    dsimp only
    cases hr' : f a t with
    | ok b u =>
      obtain ⟨htu, hR⟩ := hnext.ok hr'
      exact ⟨hst.trans htu, hR⟩
    | error e u =>
      obtain ⟨htu, hE⟩ := hnext.error hr'
      exact ⟨hst.trans htu, hE⟩

theorem safe_ite {p : Prop} [Decidable p] {c d : EStateM ε σ α} (hc : p → Safe log A E c s Q)
    (hd : ¬ p → Safe log A E d s Q) : Safe log A E (if p then c else d) s Q := by
  by_cases hp : p
  · rw [if_pos hp]
    exact hc hp
  · rw [if_neg hp]
    exact hd hp

end Prog
