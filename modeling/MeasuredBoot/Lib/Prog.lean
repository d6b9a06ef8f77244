import Mathlib.Order.Defs.Unbundled

/-!
# Programs with a state and an early exit

`EStateM ε σ α` runs from a state to `ok a s` or `error e s`; both outcomes
keep the state. `Frame R c` says every run of `c`, however it ends, moves the
state along the relation `R`. The rules compose frames of a preorder along the
program text; `bind_ok` and `bind_error` take one outcome of a sequence apart.
-/

namespace Prog

variable {ε σ α β : Type}

/-- The state a run ends in, whatever its outcome. -/
def final : EStateM.Result ε σ α → σ
  | .ok _ s => s
  | .error _ s => s

@[simp] theorem final_ok (a : α) (s : σ) : final (.ok a s : EStateM.Result ε σ α) = s := rfl

@[simp] theorem final_error (e : ε) (s : σ) : final (.error e s : EStateM.Result ε σ α) = s := rfl

/-! ## Outcomes of a sequence -/

theorem bind_apply (c : EStateM ε σ α) (f : α → EStateM ε σ β) (s : σ) :
    (c >>= f) s = match c s with
      | .ok a s' => f a s'
      | .error e s' => .error e s' := rfl

theorem bind_ok {c : EStateM ε σ α} {f : α → EStateM ε σ β} {s s' : σ} {b : β} :
    (c >>= f) s = .ok b s' ↔ ∃ a t, c s = .ok a t ∧ f a t = .ok b s' := by
  rw [bind_apply]
  cases c s with
  | ok a t => exact ⟨fun h => ⟨a, t, rfl, h⟩, by rintro ⟨_, _, ⟨⟩, h⟩; exact h⟩
  | error e t => simp

theorem bind_error {c : EStateM ε σ α} {f : α → EStateM ε σ β} {s s' : σ} {e : ε} :
    (c >>= f) s = .error e s' ↔
      c s = .error e s' ∨ ∃ a t, c s = .ok a t ∧ f a t = .error e s' := by
  rw [bind_apply]
  cases c s with
  | ok a t =>
    constructor
    · exact fun h => .inr ⟨a, t, rfl, h⟩
    · rintro (⟨⟨⟩⟩ | ⟨_, _, ⟨⟩, h⟩)
      exact h
  | error e t => simp

/-- Two sequences that agree on their first part from `s`, and behind it. -/
theorem bind_congr_run {c c' : EStateM ε σ α} {f f' : α → EStateM ε σ β} {s : σ} (hc : c s = c' s)
    (hf : ∀ a t, c' s = .ok a t → f a t = f' a t) : (c >>= f) s = (c' >>= f') s := by
  rw [bind_apply, bind_apply, hc]
  cases h : c' s with
  | ok a t => exact hf a t h
  | error e t => rfl

@[simp] theorem pure_ok {a b : α} {s s' : σ} :
    (pure a : EStateM ε σ α) s = .ok b s' ↔ a = b ∧ s = s' := by
  show EStateM.Result.ok a s = .ok b s' ↔ _
  simp

@[simp] theorem pure_error {a : α} {s s' : σ} {e : ε} :
    (pure a : EStateM ε σ α) s = .error e s' ↔ False := by
  show EStateM.Result.ok a s = .error e s' ↔ _
  simp

@[simp] theorem throw_ok {a : α} {s s' : σ} {e : ε} :
    (throw e : EStateM ε σ α) s = .ok a s' ↔ False := by
  show EStateM.Result.error e s = .ok a s' ↔ _
  simp

@[simp] theorem throw_error {s s' : σ} {e e' : ε} :
    (throw e : EStateM ε σ α) s = .error e' s' ↔ e = e' ∧ s = s' := by
  show EStateM.Result.error e s = .error e' s' ↔ _
  simp

@[simp] theorem get_ok {s s' t : σ} :
    (get : EStateM ε σ σ) s = .ok t s' ↔ s = t ∧ s = s' := by
  show EStateM.Result.ok s s = .ok t s' ↔ _
  simp

@[simp] theorem get_error {s s' : σ} {e : ε} :
    (get : EStateM ε σ σ) s = .error e s' ↔ False := by
  show EStateM.Result.ok s s = .error e s' ↔ _
  simp

@[simp] theorem modify_ok {f : σ → σ} {s s' : σ} {u : PUnit} :
    (modify f : EStateM ε σ PUnit) s = .ok u s' ↔ f s = s' := by
  show EStateM.Result.ok PUnit.unit (f s) = .ok u s' ↔ _
  simp

@[simp] theorem modify_error {f : σ → σ} {s s' : σ} {e : ε} :
    (modify f : EStateM ε σ PUnit) s = .error e s' ↔ False := by
  show EStateM.Result.ok PUnit.unit (f s) = .error e s' ↔ _
  simp

/-! ## Frames -/

/-- Every run of `c`, successful or not, moves the state along `R`. -/
def Frame (R : σ → σ → Prop) (c : EStateM ε σ α) : Prop := ∀ s, R s (final (c s))

variable {R : σ → σ → Prop}

theorem Frame.ok {c : EStateM ε σ α} (h : Frame R c) {s s' : σ} {a : α} (hc : c s = .ok a s') :
    R s s' := by
  have := h s
  rwa [hc] at this

/-- `Frame.ok` with the run first, for a frame the run determines. -/
theorem rel_of_ok {c : EStateM ε σ α} {s s' : σ} {a : α} (hc : c s = .ok a s') (h : Frame R c) :
    R s s' := h.ok hc

theorem Frame.error {c : EStateM ε σ α} (h : Frame R c) {s s' : σ} {e : ε}
    (hc : c s = .error e s') : R s s' := by
  have := h s
  rwa [hc] at this

theorem Frame.mono {R' : σ → σ → Prop} {c : EStateM ε σ α} (h : Frame R c)
    (hR : ∀ s t, R s t → R' s t) : Frame R' c := fun s => hR s _ (h s)

theorem frame_modify {f : σ → σ} (h : ∀ s, R s (f s)) :
    Frame (ε := ε) R (modify f : EStateM ε σ PUnit) := h

theorem frame_ite {p : Prop} [Decidable p] {c d : EStateM ε σ α} (hc : p → Frame R c)
    (hd : ¬ p → Frame R d) : Frame R (if p then c else d) := by
  by_cases h : p
  · rw [if_pos h]; exact hc h
  · rw [if_neg h]; exact hd h

/-- Frames along two relations compose to one along any relation that holds their
composition, and the first of them alone where the sequence ends early. -/
theorem frame_seq {R₁ R₂ : σ → σ → Prop} {c : EStateM ε σ α} {f : α → EStateM ε σ β}
    (hc : Frame R₁ c) (hf : ∀ a, Frame R₂ (f a)) (hR : ∀ s t u, R₁ s t → R₂ t u → R s u)
    (h₁ : ∀ s t, R₁ s t → R s t) : Frame R (c >>= f) := by
  intro s
  rw [bind_apply]
  cases h : c s with
  | ok a t => exact hR _ _ _ (hc.ok h) (hf a t)
  | error e t => exact h₁ _ _ (hc.error h)

/-- The run ended without an error. -/
def succeeded : EStateM.Result ε σ α → Bool
  | .ok _ _ => true
  | .error _ _ => false

theorem eq_ok_final {r : EStateM.Result ε σ Unit} (h : succeeded r = true) : r = .ok () (final r) := by
  cases r with
  | ok a t => rfl
  | error e t => cases h

/-- A second part without a change of state. -/
theorem final_seq {c : EStateM ε σ α} {f : α → EStateM ε σ β} (hf : ∀ a t, final (f a t) = t)
    (s : σ) : final ((c >>= f) s) = final (c s) := by
  rw [bind_apply]
  cases c s with
  | ok a t => exact hf a t
  | error e t => rfl

/-- What a sequence does behind its first part. -/
theorem final_bind {c : EStateM ε σ α} {f : α → EStateM ε σ β} {s t : σ} {a : α}
    (hc : c s = .ok a t) (hf : Frame R (f a)) : R t (final ((c >>= f) s)) := by
  rw [bind_apply, hc]
  exact hf t

section Preorder

variable [IsPreorder σ R]

theorem frame_pure (a : α) : Frame R (pure a : EStateM ε σ α) := fun s => refl_of R s

theorem frame_throw (e : ε) : Frame R (throw e : EStateM ε σ α) := fun s => refl_of R s

theorem frame_get : Frame R (get : EStateM ε σ σ) := fun s => refl_of R s

theorem frame_bind {c : EStateM ε σ α} {f : α → EStateM ε σ β} (hc : Frame R c)
    (hf : ∀ a, Frame R (f a)) : Frame R (c >>= f) :=
  frame_seq hc hf (fun _ _ _ => trans_of R) (fun _ _ h => h)

/-- What a second part does behind the first, if it is reached. -/
theorem final_then {c : EStateM ε σ α} {f : α → EStateM ε σ β} (hf : ∀ a, Frame R (f a)) (s : σ) :
    R (final (c s)) (final ((c >>= f) s)) := by
  rw [bind_apply]
  cases c s with
  | ok a t => exact hf a t
  | error e t => exact refl_of R t

end Preorder

/-! ## Successful runs -/

/-- Every successful run of `c` moves the state along `R`. -/
def Lands (R : σ → σ → Prop) (c : EStateM ε σ α) : Prop := ∀ s a t, c s = .ok a t → R s t

theorem Frame.lands {c : EStateM ε σ α} (h : Frame R c) : Lands R c := fun _ _ _ => h.ok

theorem lands_bind [IsPreorder σ R] {c : EStateM ε σ α} {f : α → EStateM ε σ β} (hc : Lands R c)
    (hf : ∀ a, Lands R (f a)) : Lands R (c >>= f) := by
  intro s b u h
  obtain ⟨a, t, h1, h2⟩ := bind_ok.1 h
  exact trans_of R (hc s a t h1) (hf a t b u h2)

theorem lands_ite {p : Prop} [Decidable p] {c d : EStateM ε σ α} (hc : p → Lands R c)
    (hd : ¬ p → Lands R d) : Lands R (if p then c else d) := by
  by_cases h : p
  · rw [if_pos h]; exact hc h
  · rw [if_neg h]; exact hd h

/-! ## Errors -/

/-- Every error `c` raises is an `E`. -/
def Raises (E : ε → Prop) (c : EStateM ε σ α) : Prop := ∀ s e t, c s = .error e t → E e

variable {E : ε → Prop}

theorem raises_pure (a : α) : Raises E (pure a : EStateM ε σ α) := by
  intro s e t h
  simp at h

theorem raises_throw {e : ε} (h : E e) : Raises E (throw e : EStateM ε σ α) := by
  intro s e' t he
  simp only [throw_error] at he
  exact he.1 ▸ h

theorem raises_get : Raises E (get : EStateM ε σ σ) := by
  intro s e t h
  simp at h

theorem raises_modify {f : σ → σ} : Raises E (modify f : EStateM ε σ PUnit) := by
  intro s e t h
  simp at h

theorem raises_bind {c : EStateM ε σ α} {f : α → EStateM ε σ β} (hc : Raises E c)
    (hf : ∀ a, Raises E (f a)) : Raises E (c >>= f) := by
  intro s e t h
  rcases bind_error.1 h with h | ⟨a, u, -, h⟩
  · exact hc _ _ _ h
  · exact hf a _ _ _ h

theorem raises_ite {p : Prop} [Decidable p] {c d : EStateM ε σ α} (hc : p → Raises E c)
    (hd : ¬ p → Raises E d) : Raises E (if p then c else d) := by
  by_cases h : p
  · rw [if_pos h]; exact hc h
  · rw [if_neg h]; exact hd h

/-- From a state with `P`, every error `c` raises is an `E`. -/
def RaisesFrom (P : σ → Prop) (E : ε → Prop) (c : EStateM ε σ α) : Prop :=
  ∀ s, P s → ∀ e t, c s = .error e t → E e

variable {P : σ → Prop}

theorem Raises.raisesFrom {c : EStateM ε σ α} (h : Raises E c) : RaisesFrom P E c :=
  fun s _ => h s

theorem raisesFrom_ite {p : Prop} [Decidable p] {c d : EStateM ε σ α} (hc : p → RaisesFrom P E c)
    (hd : ¬ p → RaisesFrom P E d) : RaisesFrom P E (if p then c else d) := by
  by_cases h : p
  · rw [if_pos h]; exact hc h
  · rw [if_neg h]; exact hd h

/-- A first part that keeps `P`, since it moves the state along `R`. -/
theorem raisesFrom_bind {c : EStateM ε σ α} {f : α → EStateM ε σ β}
    (hP : ∀ s t, R s t → P s → P t) (hc : Raises E c) (hR : Frame R c)
    (hf : ∀ a, RaisesFrom P E (f a)) : RaisesFrom P E (c >>= f) := by
  intro s hs e t h
  rcases bind_error.1 h with h | ⟨a, u, ha, h⟩
  · exact hc _ _ _ h
  · exact hf a u (hP _ _ (hR.ok ha) hs) _ _ h

theorem Raises.mono {E' : ε → Prop} {c : EStateM ε σ α} (h : Raises E c) (hE : ∀ e, E e → E' e) :
    Raises E' c := fun s e t he => hE e (h s e t he)

end Prog
