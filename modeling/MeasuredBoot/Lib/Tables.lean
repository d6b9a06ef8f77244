import Mathlib.Algebra.GroupWithZero.Nat
import Mathlib.Data.List.Basic

/-!
# Tables filled from the front and searched

A `Cursor` fills a table of `n` entries from the front; there is no entry at or behind `n`, so a write
there has no result. A table filled with stretches of consecutive numbers (`expand`) holds a
number at the place `locate` computes from the stretches. A `search` walks up from an index to
the entry it looks for and has no result where it walks off the table: it finds the first place of a
value if it starts at or below it (`search_of_idxOf?`).
-/

namespace Table

variable {α : Type} {n : Nat}

/-! ## Filling -/

/-- A table and the place of the next write. -/
structure Cursor (α : Type) (n : Nat) where
  position : Nat
  table : Vector α n
  le : position ≤ n

namespace Cursor

/-- One entry. -/
def place (a : α) (c : Cursor α n) : Option (Cursor α n) :=
  if h : c.position < n then some ⟨c.position + 1, c.table.set c.position a, h⟩ else none

/-- One entry after another. -/
def placeAll : List α → Cursor α n → Option (Cursor α n)
  | [], c => some c
  | a :: l, c => (c.place a).bind (placeAll l)

/-- `for (; count != 0; index++, count--) { table[position] = code(index); position++; }` -/
def placeRange (code : Nat → α) : Nat → Nat → Cursor α n → Option (Cursor α n)
  | _, 0, c => some c
  | index, count + 1, c => (c.place (code index)).bind (placeRange code (index + 1) count)

/-- What has been written. -/
def written (c : Cursor α n) : List α := c.table.toList.take c.position

/-- What has not. -/
def rest (c : Cursor α n) : List α := c.table.toList.drop c.position

variable {c c' : Cursor α n} {a : α} {l m : List α}

@[simp] theorem length_written (c : Cursor α n) : c.written.length = c.position := by
  rw [written, List.length_take, Vector.length_toList, Nat.min_eq_left c.le]

theorem written_append_rest (c : Cursor α n) : c.written ++ c.rest = c.table.toList :=
  List.take_append_drop ..

theorem place_some (h : c.place a = some c') :
    c'.written = c.written ++ [a] ∧ c'.rest = c.rest.tail := by
  unfold place at h
  split at h
  · rename_i hlt
    cases h
    constructor
    · simp only [written, Vector.toList_set, List.take_add_one, List.take_set_of_le (Nat.le_refl _)]
      rw [List.getElem?_set_self (by simpa using hlt)]
      rfl
    · simp only [rest, Vector.toList_set, List.tail_drop, List.drop_set_of_lt (Nat.lt_succ_self _)]
  · cases h

theorem place_isSome : (c.place a).isSome ↔ c.position < n := by
  unfold place
  split <;> simp_all

theorem placeAll_append (l m : List α) (c : Cursor α n) :
    c.placeAll (l ++ m) = (c.placeAll l).bind (placeAll m) := by
  induction l generalizing c with
  | nil => rfl
  | cons a l ih =>
    simp only [List.cons_append, placeAll, Option.bind_assoc]
    exact congrArg _ (funext ih)

theorem placeRange_eq (code : Nat → α) (index count : Nat) (c : Cursor α n) :
    c.placeRange code index count = c.placeAll ((List.range' index count).map code) := by
  induction count generalizing index c with
  | zero => rfl
  | succ count ih =>
    simp only [placeRange, List.range'_succ, List.map_cons, placeAll]
    exact congrArg _ (funext fun c => ih (index + 1) c)

/-- **The entries that were there are followed by the new ones.** -/
theorem placeAll_some (h : c.placeAll l = some c') :
    c'.written = c.written ++ l ∧ c'.rest = c.rest.drop l.length := by
  induction l generalizing c with
  | nil =>
    cases h
    simp
  | cons a l ih =>
    obtain ⟨c₁, h₁, h₂⟩ := Option.bind_eq_some_iff.mp h
    obtain ⟨hw, hr⟩ := place_some h₁
    obtain ⟨hw', hr'⟩ := ih h₂
    refine ⟨by rw [hw', hw, List.append_assoc, List.singleton_append], ?_⟩
    rw [hr', hr, List.length_cons, ← List.drop_one, List.drop_drop, Nat.add_comm]

theorem placeAll_isSome : (c.placeAll l).isSome ↔ c.position + l.length ≤ n := by
  induction l generalizing c with
  | nil => simpa [placeAll] using c.le
  | cons a l ih =>
    rw [placeAll, List.length_cons]
    by_cases hlt : c.position < n
    · rw [place, dif_pos hlt, Option.bind_some, ih]
      simp only
      omega
    · rw [place, dif_neg hlt]
      simp only [Option.bind_none, Option.isSome_none, Bool.false_eq_true, false_iff]
      omega

/-- At the front of a table. -/
def start (t : Vector α n) : Cursor α n := ⟨0, t, Nat.zero_le n⟩

theorem start_placeAll_some {t : Vector α n} (h : (start t).placeAll l = some c') :
    l.length ≤ n ∧ c'.table.toList = l ++ t.toList.drop l.length := by
  have hlen := placeAll_isSome.mp (Option.isSome_of_mem h)
  obtain ⟨hw, hr⟩ := placeAll_some h
  refine ⟨by simpa [start] using hlen, ?_⟩
  rw [← written_append_rest, hw, hr]
  simp [start, written, rest]

end Cursor

/-! ## Moving down -/

/-- `for (; count != 0; i++, count--) { table[i] = table[i + 1]; }` -/
def moveDown : Nat → Nat → Vector α n → Option (Vector α n)
  | _, 0, t => some t
  | i, count + 1, t =>
    if h : i + 1 < n then moveDown (i + 1) count (t.set i t[i + 1]) else none

theorem moveDown_eq (i count : Nat) (t : Vector α n) (h : i + count < n) :
    ∃ t', moveDown i count t = some t' ∧
      ∀ j, t'[j]? = if i ≤ j ∧ j < i + count then t[j + 1]? else t[j]? := by
  induction count generalizing i t with
  | zero => exact ⟨t, rfl, fun j => by rw [if_neg (by omega)]⟩
  | succ count ih =>
    have hlt : i + 1 < n := by omega
    obtain ⟨t', he, ht'⟩ := ih (i + 1) (t.set i t[i + 1]) (by omega)
    refine ⟨t', by rw [moveDown, dif_pos hlt, he], fun j => ?_⟩
    rw [ht', Vector.getElem?_set, Vector.getElem?_set]
    -- the entry `i` is the one the first step moved
    rcases Nat.lt_trichotomy j i with hj | rfl | hj
    · have hin : ¬ (i + 1 ≤ j ∧ j < i + 1 + count) := by omega
      have hout : ¬ (i ≤ j ∧ j < i + (count + 1)) := by omega
      simp only [hin, hout, Nat.ne_of_gt hj, if_false]
    · have hin : ¬ (j + 1 ≤ j ∧ j < j + 1 + count) := by omega
      have hout : j ≤ j ∧ j < j + (count + 1) := by omega
      simp only [hin, hout, if_false, if_true, and_self]
      exact (Vector.getElem?_eq_getElem hlt).symm
    · have hiff : (i + 1 ≤ j ∧ j < i + 1 + count) ↔ (i ≤ j ∧ j < i + (count + 1)) := by omega
      simp only [hiff, Nat.ne_of_lt hj, Nat.ne_of_lt (Nat.lt_succ_of_lt hj), if_false]

/-! ## Stretches -/

/-- Stretches of consecutive numbers, each given by its first and its length. -/
def expand (segs : List (Nat × Nat)) : List Nat := segs.flatMap fun s => List.range' s.1 s.2

/-- The place of `x` in them. -/
def locate : List (Nat × Nat) → Nat → Option Nat
  | [], _ => none
  | (first, count) :: segs, x =>
    if first ≤ x ∧ x < first + count then some (x - first) else (locate segs x).map (count + ·)

@[simp] theorem expand_nil : expand [] = [] := rfl

@[simp] theorem expand_cons (s : Nat × Nat) (segs : List (Nat × Nat)) :
    expand (s :: segs) = List.range' s.1 s.2 ++ expand segs := rfl

theorem length_expand (segs : List (Nat × Nat)) : (expand segs).length = (segs.map (·.2)).sum := by
  induction segs with
  | nil => rfl
  | cons s segs ih => rw [expand_cons, List.length_append, List.length_range', ih, List.map_cons,
      List.sum_cons]

theorem placeAll_expand_nil (c : Cursor Nat n) : c.placeAll (expand []) = some c := rfl

theorem placeAll_expand_cons (s : Nat × Nat) (segs : List (Nat × Nat)) (c : Cursor Nat n) :
    c.placeAll (expand (s :: segs)) =
      (c.placeAll (List.range' s.1 s.2)).bind fun c => c.placeAll (expand segs) :=
  Cursor.placeAll_append ..

theorem mem_expand {segs : List (Nat × Nat)} {x : Nat} :
    x ∈ expand segs ↔ ∃ s ∈ segs, s.1 ≤ x ∧ x < s.1 + s.2 := by
  simp only [expand, List.mem_flatMap, List.mem_range'_1]

/-- Behind the first `k` entries a number below the other stretches is no more, if the first stretch has
it among them. -/
theorem notMem_drop_expand {s : Nat × Nat} {segs : List (Nat × Nat)} {k x : Nat} (hx : x < s.1 + k)
    (hsegs : ∀ s' ∈ segs, x < s'.1) : x ∉ (expand (s :: segs)).drop k := by
  rw [expand_cons, List.drop_append, List.mem_append, List.drop_range', List.mem_range']
  rintro (⟨i, -, rfl⟩ | h)
  · omega
  · obtain ⟨s', hs', hle, -⟩ := mem_expand.mp (List.mem_of_mem_drop h)
    exact Nat.not_le_of_lt (hsegs s' hs') hle

theorem idxOf?_range' (first count x : Nat) :
    (List.range' first count).idxOf? x =
      if first ≤ x ∧ x < first + count then some (x - first) else none := by
  split
  · rename_i h
    rw [List.idxOf?_eq_some_iff]
    refine ⟨by rw [List.length_range']; omega, ?_, fun j hj => ?_⟩
    · rw [List.getElem_range']
      omega
    · rw [List.getElem_range']
      omega
  · rename_i h
    rw [List.idxOf?_eq_none_iff, List.mem_range'_1]
    exact h

/-- **The first place of a number in the table is the one computed from the stretches.** -/
theorem idxOf?_expand (segs : List (Nat × Nat)) (x : Nat) :
    (expand segs).idxOf? x = locate segs x := by
  induction segs with
  | nil => rfl
  | cons s segs ih =>
    have hs := idxOf?_range' s.1 s.2 x
    have happ : (List.range' s.1 s.2 ++ expand segs).idxOf? x =
        ((List.range' s.1 s.2).idxOf? x).or (((expand segs).idxOf? x).map (· + s.2)) := by
      simp only [List.idxOf?, List.findIdx?_append, List.length_range']
    rw [expand_cons, happ, hs, ih, locate]
    split
    · rfl
    · simp [Nat.add_comm]

/-- Two numbers at one place are the same. -/
theorem locate_inj {segs : List (Nat × Nat)} {x y p : Nat} (hx : locate segs x = some p)
    (hy : locate segs y = some p) : x = y := by
  rw [← idxOf?_expand, List.idxOf?_eq_some_iff] at hx hy
  obtain ⟨hp, hx, -⟩ := hx
  obtain ⟨_, hy, -⟩ := hy
  exact (by simpa using hx : _ = x).symm.trans (by simpa using hy)

/-- `x` is located at a place from `lo` up to `hi`. -/
def Within (segs : List (Nat × Nat)) (x lo hi : Nat) : Prop :=
  ∃ p, locate segs x = some p ∧ lo ≤ p ∧ p < hi

variable {first count x lo hi : Nat} {segs : List (Nat × Nat)}

theorem within_here (h : first ≤ x ∧ x < first + count) :
    Within ((first, count) :: segs) x lo hi ↔ lo ≤ x - first ∧ x - first < hi := by
  simp [Within, locate, h]

/-- Behind a stretch the bounds count from its end. -/
theorem within_skip (h : ¬ (first ≤ x ∧ x < first + count)) :
    Within ((first, count) :: segs) x lo hi ↔ Within segs x (lo - count) (hi - count) := by
  unfold Within
  rw [locate, if_neg h]
  simp only [Option.map_eq_some_iff]
  constructor
  · rintro ⟨p, ⟨q, hq, rfl⟩, hlo, hhi⟩
    exact ⟨q, hq, by omega, by omega⟩
  · rintro ⟨q, hq, hlo, hhi⟩
    exact ⟨count + q, ⟨q, hq, rfl⟩, by omega, by omega⟩

/-! ## Searching -/

/-- The walk over the entries from `index` on. -/
def walk [DecidableEq α] (a : α) : List α → Nat → Option Nat
  | [], _ => none
  | x :: l, index => if x = a then some index else walk a l (index + 1)

/-- `while (table[index] != a) { index++; }` -/
def search [DecidableEq α] (t : List α) (a : α) (index : Nat) : Option Nat :=
  walk a (t.drop index) index

variable [DecidableEq α] {t : List α} {a : α} {index p : Nat}

theorem walk_eq (a : α) (l : List α) (index : Nat) :
    walk a l index = (l.idxOf? a).map (index + ·) := by
  induction l generalizing index with
  | nil => rfl
  | cons x l ih =>
    rw [walk, List.idxOf?_cons, ih]
    by_cases hx : x = a
    · simp [hx]
    · simp [hx, Function.comp_def, Nat.add_assoc, Nat.add_comm 1]

/-- **A search that starts at or below the first place of a value ends there.** -/
theorem search_of_idxOf? (h : t.idxOf? a = some p) (hle : index ≤ p) : search t a index = some p := by
  obtain ⟨hp, hget, hbefore⟩ := List.idxOf?_eq_some_iff.mp h
  have hrest : (t.drop index).idxOf? a = some (p - index) := by
    rw [List.idxOf?_eq_some_iff]
    refine ⟨by rw [List.length_drop]; omega, ?_, fun j hj => ?_⟩
    · simpa only [List.getElem_drop, Nat.add_sub_cancel' hle] using hget
    · simpa only [List.getElem_drop] using hbefore (index + j) (by omega)
  rw [search, walk_eq, hrest, Option.map_some, Nat.add_sub_cancel' hle]

/-- A search for a value that is not behind its start walks off the table. -/
theorem search_eq_none_iff : search t a index = none ↔ a ∉ t.drop index := by
  rw [search, walk_eq, Option.map_eq_none_iff, List.idxOf?_eq_none_iff]

theorem le_of_search (h : search t a index = some p) : index ≤ p := by
  rw [search, walk_eq, Option.map_eq_some_iff] at h
  obtain ⟨j, -, rfl⟩ := h
  exact Nat.le_add_right ..

theorem mem_of_search (h : search t a index = some p) : a ∈ t.drop index := by
  by_contra hnot
  rw [search_eq_none_iff.mpr hnot] at h
  cases h

end Table
