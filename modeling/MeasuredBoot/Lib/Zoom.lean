import MeasuredBoot.Lib.Prog

/-!
# Programs on a part of the state

`zoom get set c` runs `c` on the part of the state that `get` reads and `set` writes back, however it ends. A run of
it is a run of `c`.
-/

namespace Prog

variable {ε σ τ α : Type} (get : σ → τ) (set : σ → τ → σ)

def zoom (c : EStateM ε τ α) : EStateM ε σ α := fun s =>
  match c (get s) with
  | .ok a t => .ok a (set s t)
  | .error e t => .error e (set s t)

variable {get set} {c : EStateM ε τ α} {s s' : σ} {a : α}

theorem zoom_ok : zoom get set c s = .ok a s' ↔ ∃ t, c (get s) = .ok a t ∧ set s t = s' := by
  unfold zoom
  cases h : c (get s) with
  | ok b t => simp [and_assoc]
  | error e t => simp

end Prog
