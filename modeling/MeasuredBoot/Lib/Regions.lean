import Mathlib.Data.List.Pairwise

/-!
# Regions of memory

A `Region` is a range of addresses. `Within rs start len`: one of the regions holds all of the
`len` addresses from `start` on. For regions apart from each other, that is one comparison
with the end of the region `start` is in (`within_iff`). `Tiles a rs b`: the accesses `rs`, each an
address and a length, follow each other from `a` to `b`.
-/

/-- The addresses from `start` on, below `stop`. -/
structure Region where
  start : Nat
  stop : Nat
  deriving DecidableEq

namespace Region

/-- The address is in the region. -/
def Has (r : Region) (a : Nat) : Prop := r.start ≤ a ∧ a < r.stop

/-- All of `len` addresses from `start` on are in the region. -/
def Holds (r : Region) (start len : Nat) : Prop := ∀ a, start ≤ a → a < start + len → r.Has a

/-- No address is in both regions. -/
def Apart (r s : Region) : Prop := r.stop ≤ s.start ∨ s.stop ≤ r.start

instance (r s : Region) : Decidable (r.Apart s) := inferInstanceAs (Decidable (_ ∨ _))

/-- One of `len` addresses from `start` on is in the region. -/
def Meets (r : Region) (start len : Nat) : Prop :=
  0 < len ∧ r.start < r.stop ∧ start < r.stop ∧ r.start < start + len

instance (r : Region) (start len : Nat) : Decidable (r.Meets start len) :=
  inferInstanceAs (Decidable (_ ∧ _))

/-- One of the regions holds the addresses. -/
def Within (rs : List Region) (start len : Nat) : Prop := ∃ r ∈ rs, r.Holds start len

variable {r s : Region} {rs : List Region} {a start len : Nat}

theorem holds_of_le (h1 : r.start ≤ start) (h2 : start + len ≤ r.stop) : r.Holds start len := by
  intro a ha hlt
  unfold Has
  omega

theorem meets_iff : r.Meets start len ↔ ∃ a, start ≤ a ∧ a < start + len ∧ r.Has a := by
  unfold Meets Has
  constructor
  · intro h
    exact ⟨max start r.start, by omega, by omega, by omega, by omega⟩
  · rintro ⟨a, h1, h2, h3, h4⟩
    omega

theorem Apart.not_has (h : r.Apart s) (hr : r.Has a) : ¬ s.Has a := by
  unfold Apart at h
  unfold Has at *
  omega

instance : Std.Symm Apart where
  symm _ _ h := Or.symm h

/-- Of regions apart from each other an address is in one only. -/
theorem eq_of_has (hd : rs.Pairwise Apart) (hr : r ∈ rs) (hs : s ∈ rs) (har : r.Has a)
    (has : s.Has a) : r = s := by
  by_contra hne
  have hapart : r.Apart s := hd.forall hr hs hne
  exact hapart.not_has har has

/-- **The addresses from a place in a region on stay in one region exactly up to its end.** -/
theorem within_iff (hd : rs.Pairwise Apart) (hr : r ∈ rs) (hs : r.Has start) :
    Within rs start len ↔ start + len ≤ r.stop := by
  constructor
  · rintro ⟨s, hsm, hall⟩
    rcases Nat.eq_zero_or_pos len with rfl | hlen
    · exact Nat.le_of_lt hs.2
    · have hfirst : s.Has start := hall start (Nat.le_refl _) (by omega)
      obtain rfl := eq_of_has hd hr hsm hs hfirst
      have hlast := hall (start + len - 1) (by omega) (by omega)
      unfold Has at hlast
      omega
  · intro hle
    exact ⟨r, hr, holds_of_le hs.1 hle⟩

end Region

/-! ## Accesses in a row -/

/-- Each access starts where the one before ends. -/
def Tiles : Nat → List (Nat × Nat) → Nat → Prop
  | a, [], b => a = b
  | a, r :: rs, b => r.1 = a ∧ Tiles (a + r.2) rs b

namespace Tiles

variable {a b c e : Nat} {rs rs' : List (Nat × Nat)} {r : Nat × Nat}

theorem single (a n : Nat) : Tiles a [(a, n)] (a + n) := ⟨rfl, rfl⟩

theorem append (h : Tiles a rs b) (h' : Tiles b rs' c) : Tiles a (rs ++ rs') c := by
  induction rs generalizing a with
  | nil =>
    obtain rfl : a = b := h
    exact h'
  | cons r rs ih => exact ⟨h.1, ih h.2⟩

theorem le (h : Tiles a rs b) : a ≤ b := by
  induction rs generalizing a with
  | nil => exact Nat.le_of_eq h
  | cons r rs ih => exact Nat.le_trans (Nat.le_add_right _ _) (ih h.2)

theorem of_mem (h : Tiles a rs b) (hr : r ∈ rs) : a ≤ r.1 ∧ r.1 + r.2 ≤ b := by
  induction rs generalizing a with
  | nil => simp at hr
  | cons x rs ih =>
    obtain ⟨hx, htail⟩ := h
    rcases List.mem_cons.1 hr with rfl | hr
    · exact ⟨Nat.le_of_eq hx.symm, by have := htail.le; omega⟩
    · have hin := ih htail hr
      exact ⟨by omega, hin.2⟩

/-- Together they are the addresses from `a` up to `b`. -/
theorem mem_iff (h : Tiles a rs b) {x : Nat} :
    (∃ r ∈ rs, r.1 ≤ x ∧ x < r.1 + r.2) ↔ a ≤ x ∧ x < b := by
  constructor
  · rintro ⟨r, hr, h1, h2⟩
    have hin := h.of_mem hr
    omega
  · induction rs generalizing a with
    | nil =>
      obtain rfl : a = b := h
      omega
    | cons r rs ih =>
      obtain ⟨hr, htail⟩ := h
      intro hx
      by_cases hlt : x < a + r.2
      · exact ⟨r, List.mem_cons_self, by omega, by omega⟩
      · obtain ⟨r', hr', hin⟩ := ih htail ⟨by omega, hx.2⟩
        exact ⟨r', List.mem_cons_of_mem _ hr', hin⟩

/-- Accesses in a row stay below a bound exactly if the last one does. -/
theorem inside_iff (h : Tiles a rs b) (hae : a ≤ e) :
    (∀ r ∈ rs, a ≤ r.1 ∧ r.1 + r.2 ≤ e) ↔ b ≤ e := by
  constructor
  · intro hall
    induction rs generalizing a with
    | nil =>
      obtain rfl : a = b := h
      exact hae
    | cons x rs ih =>
      obtain ⟨hx, htail⟩ := h
      have hfirst := hall x List.mem_cons_self
      refine ih htail (by omega) fun r hr => ?_
      have hlast := hall r (List.mem_cons_of_mem _ hr)
      exact ⟨(htail.of_mem hr).1, hlast.2⟩
  · intro hbe r hr
    have hin := h.of_mem hr
    exact ⟨hin.1, Nat.le_trans hin.2 hbe⟩

end Tiles
