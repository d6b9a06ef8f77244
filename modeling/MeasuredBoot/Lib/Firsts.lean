import Mathlib.Data.List.Induction
import Mathlib.Data.List.Nodup
import Mathlib.Data.List.Perm.Subperm

/-!
# The first value of each key

`firsts key l` keeps of a list the first value of each key, in order: the table that results from
inserting the values one by one where their key is still absent (`insertFirst`).
Its keys are distinct (`nodup_firsts`) and are those of the list (`mem_keys_firsts`); a value is
in it if and only if no value before it has its key (`mem_firsts`).
-/

namespace Firsts

variable {α κ : Type} [DecidableEq κ] (key : α → κ)

/-- `a` behind the table, unless its key is there. -/
def insertFirst (t : List α) (a : α) : List α :=
  if t.all fun b => key b ≠ key a then t ++ [a] else t

def firsts (l : List α) : List α := l.foldl (insertFirst key) []

variable {key} {t l m : List α} {a b : α}

theorem insertFirst_absent (h : ∀ b ∈ t, key b ≠ key a) : insertFirst key t a = t ++ [a] :=
  if_pos (by simpa using h)

theorem insertFirst_present (h : b ∈ t) (hk : key b = key a) : insertFirst key t a = t := by
  refine if_neg fun hall => ?_
  have hne := List.all_eq_true.1 hall b h
  simp [hk] at hne

theorem insertFirst_cases (key : α → κ) (t : List α) (a : α) :
    (∀ b ∈ t, key b ≠ key a) ∧ insertFirst key t a = t ++ [a] ∨
      (∃ b ∈ t, key b = key a) ∧ insertFirst key t a = t := by
  by_cases h : ∀ b ∈ t, key b ≠ key a
  · exact .inl ⟨h, insertFirst_absent h⟩
  · simp only [ne_eq, not_forall, not_not] at h
    obtain ⟨b, hb, hk⟩ := h
    exact .inr ⟨⟨b, hb, hk⟩, insertFirst_present hb hk⟩

theorem mem_insertFirst (h : b ∈ insertFirst key t a) : b ∈ t ∨ b = a := by
  rcases insertFirst_cases key t a with ⟨-, he⟩ | ⟨-, he⟩
  · simpa [he] using h
  · exact .inl (he ▸ h)

theorem length_insertFirst_le (t : List α) (a : α) :
    (insertFirst key t a).length ≤ t.length + 1 := by
  rcases insertFirst_cases key t a with ⟨-, he⟩ | ⟨-, he⟩
  · rw [he, List.length_append]
    exact Nat.le_refl _
  · rw [he]
    exact Nat.le_succ _

theorem insertFirst_insertFirst (t : List α) (a : α) :
    insertFirst key (insertFirst key t a) a = insertFirst key t a := by
  rcases insertFirst_cases key t a with ⟨-, he⟩ | ⟨-, he⟩
  · rw [he]
    exact insertFirst_present (List.mem_append_right _ List.mem_cons_self) rfl
  · rw [he, he]

@[simp] theorem firsts_nil : firsts key [] = [] := rfl

theorem firsts_append_singleton (l : List α) (a : α) :
    firsts key (l ++ [a]) = insertFirst key (firsts key l) a := by
  simp [firsts, List.foldl_append]

theorem nodup_firsts (l : List α) : ((firsts key l).map key).Nodup := by
  induction l using List.reverseRecOn with
  | nil => simp
  | append_singleton l a ih =>
    rw [firsts_append_singleton]
    rcases insertFirst_cases key (firsts key l) a with ⟨hne, he⟩ | ⟨-, he⟩
    · rw [he, List.map_append, List.nodup_append]
      refine ⟨ih, List.nodup_singleton _, fun k hk k' hk' => ?_⟩
      obtain ⟨b, hb, rfl⟩ := List.mem_map.1 hk
      obtain rfl : k' = key a := by simpa using hk'
      exact hne b hb
    · rwa [he]

theorem mem_keys_firsts (l : List α) (k : κ) :
    (∃ b ∈ firsts key l, key b = k) ↔ ∃ b ∈ l, key b = k := by
  induction l using List.reverseRecOn with
  | nil => simp
  | append_singleton l a ih =>
    simp only [List.mem_append, List.mem_singleton, or_and_right, exists_or, exists_eq_left]
    rw [firsts_append_singleton, ← ih]
    rcases insertFirst_cases key (firsts key l) a with ⟨-, he⟩ | ⟨⟨b, hb, hk⟩, he⟩
    · simp only [he, List.mem_append, List.mem_singleton, or_and_right, exists_or, exists_eq_left]
    · rw [he]
      refine ⟨.inl, fun h => ?_⟩
      rcases h with h | h
      · exact h
      · exact ⟨b, hb, hk.trans h⟩

/-- The value of a key is the first one of the list. -/
theorem mem_firsts (l : List α) (a : α) :
    a ∈ firsts key l ↔ ∃ pre post, l = pre ++ a :: post ∧ ∀ b ∈ pre, key b ≠ key a := by
  induction l using List.reverseRecOn with
  | nil => simp
  | append_singleton l c ih =>
    rw [firsts_append_singleton]
    constructor
    · intro h
      rcases insertFirst_cases key (firsts key l) c with ⟨hne, he⟩ | ⟨-, he⟩
      · rw [he] at h
        rcases List.mem_append.1 h with h | h
        · obtain ⟨pre, post, rfl, hpre⟩ := ih.1 h
          exact ⟨pre, post ++ [c], by simp, hpre⟩
        · obtain rfl := List.mem_singleton.1 h
          refine ⟨l, [], rfl, fun b hb hk => ?_⟩
          obtain ⟨b', hb', hk'⟩ := (mem_keys_firsts l (key a)).2 ⟨b, hb, hk⟩
          exact hne b' hb' hk'
      · rw [he] at h
        obtain ⟨pre, post, rfl, hpre⟩ := ih.1 h
        exact ⟨pre, post ++ [c], by simp, hpre⟩
    · rintro ⟨pre, post, hl, hpre⟩
      rcases List.eq_nil_or_concat post with rfl | ⟨post, d, rfl⟩
      · obtain ⟨rfl, rfl⟩ : l = pre ∧ c = a := by simpa using List.append_inj' hl rfl
        rw [insertFirst_absent]
        · simp
        · intro b hb hk
          obtain ⟨b', hb', hk'⟩ := (mem_keys_firsts l (key c)).1 ⟨b, hb, hk⟩
          exact hpre b' hb' hk'
      · have hl' : l ++ [c] = (pre ++ a :: post) ++ [d] := by simpa using hl
        obtain ⟨rfl, -⟩ := List.append_inj' hl' rfl
        have hmem := ih.2 ⟨pre, post, rfl, hpre⟩
        rcases insertFirst_cases key (firsts key (pre ++ a :: post)) c with ⟨-, he⟩ | ⟨-, he⟩
        · rw [he]
          exact List.mem_append_left _ hmem
        · rwa [he]

/-- As many values as there are keys, at most. -/
theorem length_firsts_le (l : List α) (ks : List κ) (h : ∀ a ∈ l, key a ∈ ks) :
    (firsts key l).length ≤ ks.length := by
  have hsub : ∀ k ∈ (firsts key l).map key, k ∈ ks := by
    intro k hk
    obtain ⟨a, ha, rfl⟩ := List.mem_map.1 hk
    obtain ⟨b, hb, he⟩ := (mem_keys_firsts l (key a)).1 ⟨a, ha, rfl⟩
    exact he ▸ h b hb
  have hle := (List.subperm_of_subset (nodup_firsts l) hsub).length_le
  rwa [List.length_map] at hle

end Firsts
