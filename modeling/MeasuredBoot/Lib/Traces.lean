import Mathlib.Data.List.Basic

/-!
# Traces

`Always P l`: every element of `l` meets `P` together with the part of `l` before it. A trace
that grows at its end keeps it where each new element meets `P` when it comes.
-/

namespace Trace

variable {α : Type} {P : List α → α → Prop} {l bs : List α} {a : α}

def Always (P : List α → α → Prop) (l : List α) : Prop :=
  ∀ pre a post, l = pre ++ a :: post → P pre a

theorem Always.drop {k : Nat} {post : List α} (h : Always P l) (hk : l.drop k = a :: post) :
    P (l.take k) a := h _ _ post (by rw [← hk, List.take_append_drop])

theorem always_nil : Always P [] := by
  intro pre a post h
  simp at h

theorem always_snoc : Always P (l ++ [a]) ↔ Always P l ∧ P l a := by
  constructor
  · intro h
    refine ⟨fun pre b post hl => h pre b (post ++ [a]) (by simp [hl]), h l a [] rfl⟩
  · rintro ⟨h, ha⟩ pre b post hl
    rcases List.eq_nil_or_concat post with rfl | ⟨post, c, rfl⟩
    · obtain ⟨rfl, hb⟩ := List.append_inj' hl rfl
      cases hb
      exact ha
    · have hl : l ++ [a] = (pre ++ b :: post) ++ [c] := by simp [hl]
      obtain ⟨hl, -⟩ := List.append_inj' hl rfl
      exact h pre b post hl

/-- Elements that meet `P` at any time. -/
theorem Always.append (h : Always P l) (hb : ∀ b ∈ bs, ∀ pre, P pre b) : Always P (l ++ bs) := by
  induction bs generalizing l with
  | nil => rwa [List.append_nil]
  | cons b bs ih =>
    rw [List.forall_mem_cons] at hb
    rw [List.append_cons]
    exact ih (always_snoc.2 ⟨h, hb.1 l⟩) hb.2

/-- A list is split in one way at an element it has once. -/
theorem split_once {pre post pre' post' : List α} (h : pre ++ a :: post = pre' ++ a :: post')
    (h1 : a ∉ pre) (h2 : a ∉ post) : pre = pre' ∧ post = post' := by
  rcases List.append_eq_append_iff.1 h with ⟨l, rfl, hl⟩ | ⟨l, rfl, hl⟩
  · cases l with
    | nil => simpa using hl
    | cons b l =>
      obtain ⟨rfl, rfl⟩ := List.cons.inj hl
      exact absurd (List.mem_append_right _ List.mem_cons_self) h2
  · cases l with
    | nil => simpa using hl.symm
    | cons b l =>
      obtain ⟨rfl, -⟩ := List.cons.inj hl
      exact absurd (List.mem_append_right _ List.mem_cons_self) h1

end Trace
