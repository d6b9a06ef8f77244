import Mathlib.Algebra.Group.Nat.Defs
import Mathlib.Data.Nat.Basic

/-!
# Byte memory

`Mem` maps addresses to bytes. `store` writes a byte list at an address, `load`
reads one back, `Holds m a bs` says `bs` lies at `a`. The lemmas say what a load
sees of a store (`load_store`, `load_store_disj`), join adjacent stores
(`store_append`) and split what is held (`holds_append`). `leBytes` spells a
number as little-endian bytes, `ofLE` reads it; `CStr` is a NUL-terminated string.
-/

abbrev Mem := Nat → UInt8

namespace Mem

/-- `bs` written from `a` on. -/
def store (m : Mem) (a : Nat) (bs : List UInt8) : Mem := fun x =>
  if a ≤ x then (bs[x - a]?).getD (m x) else m x

/-- The `n` bytes from `a` on. -/
def load (m : Mem) (a : Nat) : Nat → List UInt8
  | 0 => []
  | n + 1 => m a :: load m (a + 1) n

@[simp] theorem length_load (m : Mem) (a n : Nat) : (m.load a n).length = n := by
  induction n generalizing a with
  | zero => rfl
  | succ n ih => simp [load, ih]

theorem load_succ (m : Mem) (a n : Nat) : m.load a (n + 1) = m a :: m.load (a + 1) n := rfl

theorem load_congr {m m' : Mem} {a n : Nat} (h : ∀ x, a ≤ x → x < a + n → m x = m' x) :
    m.load a n = m'.load a n := by
  induction n generalizing a with
  | zero => rfl
  | succ n ih =>
    rw [load, load, h a (by omega) (by omega), ih fun x h1 h2 => h x (by omega) (by omega)]

theorem getElem?_load (m : Mem) (a n i : Nat) :
    (m.load a n)[i]? = if i < n then some (m (a + i)) else none := by
  induction n generalizing a i with
  | zero => simp [load]
  | succ n ih =>
    cases i with
    | zero => simp [load]
    | succ i =>
      rw [load, List.getElem?_cons_succ, ih]
      simp only [Nat.add_lt_add_iff_right]
      rw [show a + 1 + i = a + (i + 1) by omega]

theorem load_add (m : Mem) (a k n : Nat) : m.load a (k + n) = m.load a k ++ m.load (a + k) n := by
  induction k generalizing a with
  | zero => simp [load]
  | succ k ih =>
    rw [show k + 1 + n = (k + n) + 1 by omega, load, ih, load, List.cons_append]
    rw [show a + 1 + k = a + (k + 1) by omega]

/-- Equal loads agree byte by byte. -/
theorem load_inj {m m' : Mem} {a n : Nat} (h : m.load a n = m'.load a n) {x : Nat} (h1 : a ≤ x)
    (h2 : x < a + n) : m x = m' x := by
  have e := congrArg (fun l => l[x - a]?) h
  simp only [getElem?_load, if_pos (show x - a < n by omega), Option.some.injEq] at e
  rwa [show a + (x - a) = x by omega] at e

theorem store_out {m : Mem} {a x : Nat} {bs : List UInt8} (h : x < a ∨ a + bs.length ≤ x) :
    m.store a bs x = m x := by
  unfold store
  by_cases hx : a ≤ x
  · rw [if_pos hx, List.getElem?_eq_none (by omega), Option.getD_none]
  · rw [if_neg hx]

theorem store_in {m : Mem} {a i : Nat} {bs : List UInt8} (h : i < bs.length) :
    m.store a bs (a + i) = bs[i] := by
  unfold store
  rw [if_pos (by omega), Nat.add_sub_cancel_left, List.getElem?_eq_getElem h, Option.getD_some]

@[simp] theorem store_nil (m : Mem) (a : Nat) : m.store a [] = m := by
  funext x
  exact store_out (by simp; omega)

/-- Adjacent stores are one store. -/
theorem store_store (m : Mem) (a : Nat) (xs ys : List UInt8) :
    (m.store a xs).store (a + xs.length) ys = m.store a (xs ++ ys) := by
  funext x
  by_cases h1 : x < a
  · rw [store_out (by omega), store_out (by omega), store_out (by omega)]
  obtain ⟨i, rfl⟩ : ∃ i, x = a + i := ⟨x - a, by omega⟩
  by_cases h2 : i < xs.length
  · rw [store_out (by omega), store_in h2, store_in (by simp; omega), List.getElem_append_left h2]
  obtain ⟨j, rfl⟩ : ∃ j, i = xs.length + j := ⟨i - xs.length, by omega⟩
  by_cases h3 : j < ys.length
  · rw [← Nat.add_assoc, store_in h3, Nat.add_assoc, store_in (by simp; omega)]
    simp
  · rw [store_out (by omega), store_out (by omega), store_out (by simp; omega)]

theorem store_append {m : Mem} {a b : Nat} {xs ys : List UInt8} (h : b = a + xs.length) :
    (m.store a xs).store b ys = m.store a (xs ++ ys) := by
  rw [h, store_store]

@[simp] theorem load_store (m : Mem) (a : Nat) (bs : List UInt8) :
    (m.store a bs).load a bs.length = bs := by
  apply List.ext_getElem?
  intro i
  rw [getElem?_load]
  by_cases h : i < bs.length
  · rw [if_pos h, store_in h, List.getElem?_eq_getElem h]
  · rw [if_neg h, List.getElem?_eq_none (by omega)]

/-- Stores apart from each other, in either order. -/
theorem store_store_comm {m : Mem} {a b : Nat} {bs cs : List UInt8} (h : a + bs.length ≤ b) :
    (m.store b cs).store a bs = (m.store a bs).store b cs := by
  funext x
  by_cases hx : a ≤ x ∧ x < a + bs.length
  · obtain ⟨i, rfl⟩ : ∃ i, x = a + i := ⟨x - a, by omega⟩
    rw [store_in (by omega), store_out (a := b) (by omega), store_in (by omega)]
  · rw [store_out (by omega)]
    by_cases hb : b ≤ x ∧ x < b + cs.length
    · obtain ⟨i, rfl⟩ : ∃ i, x = b + i := ⟨x - b, by omega⟩
      rw [store_in (by omega), store_in (by omega)]
    · rw [store_out (by omega), store_out (by omega), store_out (by omega)]

theorem store_store_same {m : Mem} {a : Nat} {zs ds : List UInt8} (h : ds.length = zs.length) :
    (m.store a zs).store a ds = m.store a ds := by
  funext x
  by_cases hx : a ≤ x ∧ x < a + ds.length
  · obtain ⟨i, rfl⟩ : ∃ i, x = a + i := ⟨x - a, by omega⟩
    rw [store_in (by omega), store_in (by omega)]
  · have hout (m : Mem) : m.store a ds x = m x := store_out (by omega)
    rw [hout, hout, store_out (by omega)]

/-- A store over the middle of another. -/
theorem store_middle {m : Mem} {a : Nat} {xs ys : List UInt8} (zs ds : List UInt8)
    (h : ds.length = zs.length) :
    (m.store a (xs ++ zs ++ ys)).store (a + xs.length) ds = m.store a (xs ++ ds ++ ys) := by
  rw [← store_append (b := a + (xs ++ zs).length) rfl, ← store_append (b := a + xs.length) rfl,
    ← store_append (b := a + (xs ++ ds).length) rfl, ← store_append (b := a + xs.length) rfl,
    List.length_append, List.length_append, h, store_store_comm (by omega), store_store_same h]

/-- A store elsewhere does not show. -/
theorem load_store_disj {m : Mem} {a b n : Nat} {bs : List UInt8}
    (h : a + n ≤ b ∨ b + bs.length ≤ a) : (m.store b bs).load a n = m.load a n :=
  load_congr fun _ _ _ => store_out (by omega)

/-! ## Filling a range from another memory -/

/-- The first `n` bytes of `data` written from `a` on. -/
def fill (m : Mem) (a n : Nat) (data : Mem) : Mem := fun x =>
  if a ≤ x ∧ x < a + n then data (x - a) else m x

theorem fill_apply (m : Mem) (a n : Nat) (data : Mem) (x : Nat) :
    m.fill a n data x = if a ≤ x ∧ x < a + n then data (x - a) else m x := rfl

theorem fill_out {m data : Mem} {a n x : Nat} (h : x < a ∨ a + n ≤ x) : m.fill a n data x = m x :=
  if_neg (by omega)

theorem load_fill {m data : Mem} {a n k : Nat} (h : k ≤ n) :
    (m.fill a n data).load a k = data.load 0 k := by
  apply List.ext_getElem?
  intro i
  rw [getElem?_load, getElem?_load]
  by_cases hi : i < k
  · rw [if_pos hi, if_pos hi, fill, if_pos (by omega), Nat.add_sub_cancel_left, Nat.zero_add]
  · rw [if_neg hi, if_neg hi]

/-- A fill elsewhere does not show. -/
theorem load_fill_disj {m data : Mem} {a n b k : Nat} (h : b + k ≤ a ∨ a + n ≤ b) :
    (m.fill a n data).load b k = m.load b k :=
  load_congr fun _ _ _ => fill_out (by omega)

/-- A fill that goes on where another one stopped, or before. -/
theorem fill_fill {m : Mem} {a t k n : Nat} {junk g : Mem} (ht : t ≤ k) (hk : k ≤ n)
    (hj : ∀ i, i < t → junk i = g i) :
    (m.fill a k junk).fill (a + t) (n - t) (fun i => g (t + i)) = m.fill a n g := by
  funext x
  simp only [fill_apply]
  by_cases h1 : a + t ≤ x ∧ x < a + t + (n - t)
  · rw [if_pos h1, if_pos (by omega)]
    congr 1
    omega
  · rw [if_neg h1]
    by_cases h2 : a ≤ x ∧ x < a + k
    · rw [if_pos h2, if_pos (by omega), hj _ (by omega)]
    · rw [if_neg h2, if_neg (by omega)]

theorem load_shift (m : Mem) (p a n : Nat) :
    load (fun i => m (p + i)) a n = m.load (p + a) n := by
  induction n generalizing a with
  | zero => rfl
  | succ n ih => rw [load, load, ih, Nat.add_assoc]

/-- What is read up to the end of a fill. -/
theorem load_fill_end (m data : Mem) (a n : Nat) :
    (m.fill a n data).load 0 (a + n) = m.load 0 a ++ data.load 0 n := by
  rw [load_add, load_fill_disj (.inl (by omega)), Nat.zero_add, load_fill (Nat.le_refl n)]

/-- What is read from the start of a fill, and what was filled in: one begins the other. -/
theorem load_fill_prefix (m data : Mem) (a n k : Nat) :
    (m.fill a n data).load a k <+: data.load 0 n ∨ data.load 0 n <+: (m.fill a n data).load a k := by
  rcases Nat.le_total k n with h | h
  · left
    obtain ⟨j, rfl⟩ : ∃ j, n = k + j := ⟨n - k, by omega⟩
    rw [load_fill h, load_add]
    exact List.prefix_append _ _
  · right
    obtain ⟨j, rfl⟩ : ∃ j, k = n + j := ⟨k - n, by omega⟩
    rw [load_add, load_fill (Nat.le_refl n)]
    exact List.prefix_append _ _

/-! ## What lies in memory -/

/-- The bytes from `a` on are `bs`. -/
def Holds (m : Mem) (a : Nat) (bs : List UInt8) : Prop := m.load a bs.length = bs

theorem holds_load (m : Mem) (a n : Nat) : m.Holds a (m.load a n) := by
  rw [Holds, length_load]

theorem holds_store (m : Mem) (a : Nat) (bs : List UInt8) : (m.store a bs).Holds a bs :=
  load_store m a bs

theorem holds_append {m : Mem} {a : Nat} {xs ys : List UInt8} :
    m.Holds a (xs ++ ys) ↔ m.Holds a xs ∧ m.Holds (a + xs.length) ys := by
  unfold Holds
  rw [List.length_append, load_add]
  constructor
  · intro h
    exact List.append_inj h (length_load ..)
  · rintro ⟨h1, h2⟩
    rw [h1, h2]

theorem holds_cons {m : Mem} {a : Nat} {b : UInt8} {bs : List UInt8} :
    m.Holds a (b :: bs) ↔ m a = b ∧ m.Holds (a + 1) bs := by
  simp [Holds, load]

/-- A part of what is held. -/
theorem Holds.part {m : Mem} {a : Nat} {bs : List UInt8} (h : m.Holds a bs) {i n : Nat}
    (hi : i + n ≤ bs.length) : m.load (a + i) n = (bs.drop i).take n := by
  have h1 : m.Holds a (bs.take i ++ bs.drop i) := by rwa [List.take_append_drop]
  have h2 := (holds_append.mp h1).2
  rw [List.length_take, Nat.min_eq_left (by omega), ← List.take_append_drop n (bs.drop i)] at h2
  have h3 := (holds_append.mp h2).1
  rwa [Holds, List.length_take, List.length_drop, Nat.min_eq_left (by omega)] at h3

/-- A store of what is there. -/
theorem store_of_holds {m : Mem} {a : Nat} {bs : List UInt8} (h : m.Holds a bs) : m.store a bs = m := by
  funext x
  by_cases hx : a ≤ x ∧ x < a + bs.length
  · obtain ⟨i, rfl⟩ : ∃ i, x = a + i := ⟨x - a, by omega⟩
    have hi : i < bs.length := by omega
    have hget := getElem?_load m a bs.length i
    rw [h, if_pos hi, List.getElem?_eq_getElem hi] at hget
    rw [store_in hi, Option.some.inj hget]
  · exact store_out (by omega)

theorem Holds.get {m : Mem} {a : Nat} {bs : List UInt8} (h : m.Holds a bs) {i : Nat} {b : UInt8}
    (hi : bs[i]? = some b) : m (a + i) = b := by
  have hlt : i < bs.length := (List.getElem?_eq_some_iff.mp hi).1
  have h1 := getElem?_load m a bs.length i
  rw [h, if_pos hlt, hi] at h1
  exact (Option.some.inj h1).symm

end Mem

/-! ## Little-endian numbers -/

/-- The `k` low bytes of `n`, least significant first. -/
def leBytes : Nat → Nat → List UInt8
  | 0, _ => []
  | k + 1, n => UInt8.ofNat n :: leBytes k (n / 256)

/-- The number a byte list spells, least significant first. -/
def ofLE : List UInt8 → Nat
  | [] => 0
  | b :: bs => b.toNat + 256 * ofLE bs

@[simp] theorem length_leBytes (k n : Nat) : (leBytes k n).length = k := by
  induction k generalizing n with
  | zero => rfl
  | succ k ih => simp [leBytes, ih]

theorem ofLE_lt (bs : List UInt8) : ofLE bs < 256 ^ bs.length := by
  induction bs with
  | nil => simp [ofLE]
  | cons b bs ih =>
    have hb := b.toNat_lt
    simp only [ofLE, List.length_cons, Nat.pow_succ]
    omega

theorem leBytes_ofLE (bs : List UInt8) : leBytes bs.length (ofLE bs) = bs := by
  induction bs with
  | nil => rfl
  | cons b bs ih =>
    have hb := b.toNat_lt
    rw [List.length_cons, leBytes, ofLE, show (b.toNat + 256 * ofLE bs) / 256 = ofLE bs by omega, ih]
    congr 1
    apply UInt8.toNat_inj.mp
    rw [UInt8.toNat_ofNat']
    omega

theorem ofLE_leBytes {k n : Nat} (h : n < 256 ^ k) : ofLE (leBytes k n) = n := by
  induction k generalizing n with
  | zero => simp at h; simp [leBytes, ofLE, h]
  | succ k ih =>
    rw [leBytes, ofLE, ih (by rw [Nat.pow_succ] at h; omega), UInt8.toNat_ofNat']
    omega

/-! ## C strings -/

/-- A NUL-terminated string, by the characters before the NUL. -/
structure CStr where
  chars : List UInt8
  noNul : (0 : UInt8) ∉ chars

namespace CStr

/-- The string as it lies in memory. -/
def bytes (s : CStr) : List UInt8 := s.chars ++ [0]

@[simp] theorem length_bytes (s : CStr) : s.bytes.length = s.chars.length + 1 := by simp [bytes]

end CStr

/-- The bytes of a character list. -/
def ascii (cs : List Char) : List UInt8 := cs.map fun c => UInt8.ofNat c.toNat
