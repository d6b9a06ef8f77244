import Mathlib.Data.Nat.Basic

/-!
# Block buffers

A consumer of blocks of `b` elements that is fed pieces of any length: `taken` is what went
through, in complete blocks, `held` is what waits for the rest of its block. Both are determined by
everything fed so far (`taken_eq`), which a feed extends (`all_feed`).
-/

structure Buffered (α : Type) (b : Nat) where
  taken : List α
  held : List α
  taken_dvd : b ∣ taken.length
  held_lt : held.length < b

namespace Buffered

variable {α : Type} {b : Nat}

def empty (hb : 0 < b) : Buffered α b := ⟨[], [], Nat.dvd_zero b, hb⟩

theorem pos (s : Buffered α b) : 0 < b := Nat.lt_of_le_of_lt (Nat.zero_le _) s.held_lt

/-- The complete blocks go through, the rest is held. -/
def feed (s : Buffered α b) (xs : List α) : Buffered α b where
  taken := s.taken ++ (s.held ++ xs).take ((s.held ++ xs).length / b * b)
  held := (s.held ++ xs).drop ((s.held ++ xs).length / b * b)
  taken_dvd := by
    rw [List.length_append, List.length_take_of_le (Nat.div_mul_le_self _ _)]
    exact Nat.dvd_add s.taken_dvd (Nat.dvd_mul_left _ _)
  held_lt := by
    rw [List.length_drop, ← Nat.mod_eq_sub_div_mul]
    exact Nat.mod_lt _ s.pos

/-- Everything fed. -/
def all (s : Buffered α b) : List α := s.taken ++ s.held

@[simp] theorem all_empty (hb : 0 < b) : (empty hb : Buffered α b).all = [] := rfl

@[simp] theorem all_feed (s : Buffered α b) (xs : List α) : (s.feed xs).all = s.all ++ xs := by
  show s.taken ++ (s.held ++ xs).take _ ++ (s.held ++ xs).drop _ = s.taken ++ s.held ++ xs
  rw [List.append_assoc, List.take_append_drop, List.append_assoc]

theorem length_taken (s : Buffered α b) : s.taken.length = s.all.length / b * b := by
  obtain ⟨q, hq⟩ := s.taken_dvd
  have hdiv : s.all.length / b = q := by
    show (s.taken ++ s.held).length / b = q
    rw [List.length_append, hq, Nat.mul_add_div s.pos, Nat.div_eq_of_lt s.held_lt, Nat.add_zero]
  rw [hdiv, hq, Nat.mul_comm]

theorem taken_eq (s : Buffered α b) : s.taken = s.all.take (s.all.length / b * b) := by
  rw [← length_taken]
  exact (List.take_left' rfl).symm

/-- A feed is known by any split of what is there at a block with less than a block behind it. -/
theorem feed_of_split (s : Buffered α b) {xs q h : List α} (e : q ++ h = s.held ++ xs)
    (hq : b ∣ q.length) (hh : h.length < b) :
    (s.feed xs).taken = s.taken ++ q ∧ (s.feed xs).held = h := by
  obtain ⟨k, hk⟩ := hq
  have hcut : (q ++ h).length / b * b = q.length := by
    rw [List.length_append, hk, Nat.mul_add_div s.pos, Nat.div_eq_of_lt hh, Nat.add_zero, Nat.mul_comm]
  have htaken : (s.feed xs).taken = s.taken ++ (q ++ h).take ((q ++ h).length / b * b) := by rw [e]; rfl
  have hheld : (s.feed xs).held = (q ++ h).drop ((q ++ h).length / b * b) := by rw [e]; rfl
  rw [htaken, hheld, hcut, List.take_left, List.drop_left]
  exact ⟨rfl, rfl⟩

/-- What went through is the beginning of what was fed. -/
theorem getElem?_taken (s : Buffered α b) {i : Nat} (hi : i < s.all.length / b * b) :
    s.taken[i]? = s.all[i]? := by
  rw [taken_eq, List.getElem?_take_of_lt hi]

theorem taken_congr {s t : Buffered α b}
    (h : s.all.take (s.all.length / b * b) = t.all.take (t.all.length / b * b)) :
    s.taken = t.taken := by
  rw [taken_eq, taken_eq, h]

end Buffered
