import Mathlib.Order.Defs.Unbundled

/-!
# Guarded runs of a transition system

A `TransSys` has initial states and a step relation. `Run G s t`: `t` is reached
from `s` by steps that each start in a state meeting the guard `G`; `Reach G t`
starts from an initial state. `Reach.inv` is the induction over a run, kept
once; `Run.rel` lifts a relation of single steps to any two states of a run.
-/

structure TransSys (σ : Type) where
  init : σ → Prop
  next : σ → σ → Prop

namespace TransSys

variable {σ : Type} (S : TransSys σ)

/-- Runs whose every step starts in a state meeting `G`. -/
inductive Run (G : σ → Prop) : σ → σ → Prop where
  | refl (s : σ) : Run G s s
  | snoc {s t u : σ} : Run G s t → G t → S.next t u → Run G s u

/-- `t` lies on a guarded run from an initial state. -/
def Reach (G : σ → Prop) (t : σ) : Prop := ∃ s, S.init s ∧ S.Run G s t

/-- Reachable by steps of any kind. -/
abbrev Reachable (t : σ) : Prop := S.Reach (fun _ => True) t

variable {S} {G : σ → Prop}

theorem Run.trans {s t u : σ} (h1 : S.Run G s t) (h2 : S.Run G t u) : S.Run G s u := by
  induction h2 with
  | refl => exact h1
  | snoc _ hg hn ih => exact .snoc ih hg hn

theorem Run.mono {G' : σ → Prop} (hG : ∀ s, G s → G' s) {s t : σ} (h : S.Run G s t) :
    S.Run G' s t := by
  induction h with
  | refl => exact .refl _
  | snoc _ hg hn ih => exact .snoc ih (hG _ hg) hn

theorem Reach.init {s : σ} (h : S.init s) : S.Reach G s := ⟨s, h, .refl s⟩

theorem Reach.run {s t : σ} (h : S.Reach G s) (r : S.Run G s t) : S.Reach G t := by
  obtain ⟨s0, h0, hs⟩ := h
  exact ⟨s0, h0, hs.trans r⟩

theorem Reach.mono {G' : σ → Prop} (hG : ∀ s, G s → G' s) {t : σ} (h : S.Reach G t) :
    S.Reach G' t := by
  obtain ⟨s, hs, hr⟩ := h
  exact ⟨s, hs, hr.mono hG⟩

/-- **The induction over guarded runs.** -/
theorem Reach.inv {I : σ → Prop} (h0 : ∀ s, S.init s → I s)
    (hstep : ∀ s t, I s → G s → S.next s t → I t) {t : σ} (h : S.Reach G t) : I t := by
  obtain ⟨s, hs, hr⟩ := h
  induction hr with
  | refl => exact h0 s hs
  | snoc _ hg hn ih => exact hstep _ _ ih hg hn

/-- A relation every guarded step keeps, from states with an invariant, holds
between any two states of a guarded run. -/
theorem Run.rel {I : σ → Prop} {R : σ → σ → Prop} [IsPreorder σ R]
    (hI : ∀ s t, I s → G s → S.next s t → I t)
    (hR : ∀ s t, I s → G s → S.next s t → R s t) {s t : σ} (hs : I s) (h : S.Run G s t) :
    R s t ∧ I t := by
  induction h with
  | refl => exact ⟨refl_of R s, hs⟩
  | snoc _ hg hn ih => exact ⟨trans_of R ih.1 (hR _ _ ih.2 hg hn), hI _ _ ih.2 hg hn⟩

end TransSys
