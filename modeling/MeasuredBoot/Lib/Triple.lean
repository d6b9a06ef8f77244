import MeasuredBoot.Lib.Prog

/-!
# Triples

`Triple P c Q E`: from a state with `P`, the program `c` ends with a value and a state that
meet `Q`, or with an error in a state that meets `E`. The rules follow the program text; a frame
of a relation that keeps an assertion is a triple (`triple_of_frame`). `Ends` is the same of one state, with
the error in sight.
-/

namespace Prog

variable {ε σ α β : Type}

def Triple (P : σ → Prop) (c : EStateM ε σ α) (Q : α → σ → Prop) (E : σ → Prop) : Prop :=
  ∀ s, P s → match c s with
    | .ok a t => Q a t
    | .error _ t => E t

variable {P P' : σ → Prop} {Q Q' : α → σ → Prop} {E E' : σ → Prop}

theorem Triple.ok {c : EStateM ε σ α} (h : Triple P c Q E) {s t : σ} {a : α} (hs : P s)
    (hc : c s = .ok a t) : Q a t := by
  have := h s hs
  rwa [hc] at this

theorem Triple.error {c : EStateM ε σ α} (h : Triple P c Q E) {s t : σ} {e : ε} (hs : P s)
    (hc : c s = .error e t) : E t := by
  have := h s hs
  rwa [hc] at this

theorem triple_iff {c : EStateM ε σ α} :
    Triple P c Q E ↔ ∀ s, P s → (∀ a t, c s = .ok a t → Q a t) ∧ ∀ e t, c s = .error e t → E t := by
  refine ⟨fun h s hs => ⟨fun a t => h.ok hs, fun e t => h.error hs⟩, fun h s hs => ?_⟩
  cases hc : c s with
  | ok a t => exact (h s hs).1 a t hc
  | error e t => exact (h s hs).2 e t hc

/-- One assertion for both ends. -/
theorem Triple.final {c : EStateM ε σ α} (h : Triple P c (fun _ => E) E) {s : σ} (hs : P s) :
    E (final (c s)) := by
  cases hc : c s with
  | ok a t => exact h.ok hs hc
  | error e t => exact h.error hs hc

/-- A weaker assertion after, a stronger one before. -/
theorem Triple.imp {c : EStateM ε σ α} (h : Triple P c Q E) (hP : ∀ s, P' s → P s)
    (hQ : ∀ a s, Q a s → Q' a s) (hE : ∀ s, E s → E' s) : Triple P' c Q' E' := by
  rw [triple_iff] at h ⊢
  intro s hs
  obtain ⟨hok, herr⟩ := h s (hP s hs)
  exact ⟨fun a t hc => hQ a t (hok a t hc), fun e t hc => hE t (herr e t hc)⟩

theorem triple_pure {a : α} (h : ∀ s, P s → Q a s) : Triple P (pure a : EStateM ε σ α) Q E := h

theorem triple_modify {f : σ → σ} {Q : PUnit → σ → Prop} (h : ∀ s, P s → Q ⟨⟩ (f s)) :
    Triple (ε := ε) P (modify f : EStateM ε σ PUnit) Q E := h

theorem triple_bind {c : EStateM ε σ α} {f : α → EStateM ε σ β} {R : β → σ → Prop}
    (hc : Triple P c Q E) (hf : ∀ a, Triple (Q a) (f a) R E) : Triple P (c >>= f) R E := by
  intro s hs
  rw [bind_apply]
  cases h : c s with
  | ok a t => exact hf a t (hc.ok hs h)
  | error e t => exact hc.error hs h

/-- The read state is the state. -/
theorem triple_get {f : σ → EStateM ε σ β} {R : β → σ → Prop}
    (hf : ∀ s, P s → Triple (· = s) (f s) R E) : Triple P (get >>= f) R E :=
  fun s hs => hf s hs s rfl

theorem triple_ite {p : Prop} [Decidable p] {c d : EStateM ε σ α} (hc : p → Triple P c Q E)
    (hd : ¬ p → Triple P d Q E) : Triple P (if p then c else d) Q E := by
  by_cases h : p
  · rw [if_pos h]; exact hc h
  · rw [if_neg h]; exact hd h

/-- A program that moves the state along a relation which keeps `P`. -/
theorem triple_of_frame {c : EStateM ε σ α} {R : σ → σ → Prop} (h : Frame R c)
    (hR : ∀ s t, R s t → P s → P t) : Triple P c (fun _ => P) P := by
  intro s hs
  have hf := h s
  cases hc : c s with
  | ok a t =>
    rw [hc] at hf
    exact hR s t hf hs
  | error e t =>
    rw [hc] at hf
    exact hR s t hf hs

/-- A first part of a sequence that keeps `P`. -/
theorem triple_seq {c : EStateM ε σ α} {f : α → EStateM ε σ β} {R : σ → σ → Prop}
    {S : β → σ → Prop} (h : Frame R c) (hR : ∀ s t, R s t → P s → P t) (hE : ∀ s, P s → E s)
    (hf : ∀ a, Triple P (f a) S E) : Triple P (c >>= f) S E :=
  triple_bind ((triple_of_frame h hR).imp (fun _ h => h) (fun _ _ h => h) hE) hf

/-! ## From one state -/

/-- From `s`, `c` ends with a value and a state that meet `Q`, or an error and a state that meet `E`. -/
def Ends (c : EStateM ε σ α) (s : σ) (Q : α → σ → Prop) (E : ε → σ → Prop) : Prop :=
  match c s with
  | .ok a t => Q a t
  | .error e t => E e t

section Ends

variable {c : EStateM ε σ α} {f : α → EStateM ε σ β} {s : σ} {R : β → σ → Prop} {F F' : ε → σ → Prop}

theorem ends_iff : Ends c s Q F ↔ (∀ a t, c s = .ok a t → Q a t) ∧ ∀ e t, c s = .error e t → F e t := by
  unfold Ends
  cases c s with
  | ok a t => simp
  | error e t => simp

/-- A run that is the run of another program. -/
theorem ends_congr {d : EStateM ε σ α} {s' : σ} (h : c s = d s') : Ends c s Q F ↔ Ends d s' Q F := by
  unfold Ends
  rw [h]

theorem ends_error {e : ε} {t : σ} (h : c s = .error e t) (hF : F e t) : Ends c s Q F := by
  unfold Ends
  rw [h]
  exact hF

theorem Ends.imp (h : Ends c s Q F) (hQ : ∀ a t, Q a t → Q' a t) (hF : ∀ e t, F e t → F' e t) : Ends c s Q' F' := by
  rw [ends_iff] at h ⊢
  exact ⟨fun a t hc => hQ a t (h.1 a t hc), fun e t hc => hF e t (h.2 e t hc)⟩

theorem ends_bind (hc : Ends c s Q F) (hf : ∀ a t, Q a t → Ends (f a) t R F) : Ends (c >>= f) s R F := by
  rw [ends_iff] at hc
  unfold Ends
  rw [bind_apply]
  cases h : c s with
  | ok a t => exact hf a t (hc.1 a t h)
  | error e t => exact hc.2 e t h

/-- Where no error can come, a value does. -/
theorem Ends.ok (h : Ends c s Q F) (hF : ∀ e t, ¬ F e t) : ∃ a t, c s = .ok a t ∧ Q a t := by
  rw [ends_iff] at h
  cases hc : c s with
  | ok a t => exact ⟨a, t, rfl, h.1 a t hc⟩
  | error e t => exact absurd (h.2 e t hc) (hF e t)

end Ends

end Prog
