import MeasuredBoot.QspiPieces
import Mathlib.Tactic.SplitIfs

/-!
# Which ranges are copied right

The pieces of a range in closed form (`pieces_iff`): how it lies to the chips, to the end of the bank it
starts in and to the words and the 64 bytes of its destination.
-/

namespace MeasuredBoot.Qspi

variable {f : Flash} {b : Banks} {s d n u t : Nat}

/-! ## Conditions -/

/-- No transfer crosses from chip to chip, and in dual parallel each starts with the lower one. -/
def ChipRange (f : Flash) (b : Banks) (s d n u : Nat) : Prop :=
  match f.connectionMode with
  | .single => True
  | .stacked =>
    (b.splits = true ∧ b.size ≤ f.chip) ∨ s + n ≤ f.chip ∨ f.chip ≤ s ∨ (u ≠ 0 ∧ s + (64 - u) = f.chip)
  | .parallel =>
    s % 2 = 0 ∧ (d % 2 = 0 ∨ n ≤ 64 - u ∨ (b.splits = true ∧ room f b s ≤ 64 - u))

/-- At the end of the bank the destination is at a word, or fewer than eight bytes are left. -/
def WordRange (f : Flash) (b : Banks) (s d n : Nat) : Prop :=
  b.splits = true → n < room f b s + 8 ∨ (d + room f b s) % 4 = 0

/-- All of it is in a bank that is selected. -/
def BankRange (f : Flash) (b : Banks) (s n : Nat) : Prop :=
  b.selected = true ∨ ∀ a, s ≤ a → a < s + n → f.chipAddr a < 2 ^ 24

/-! ## Places -/

theorem perChip_eq (f : Flash) (t : Nat) : f.perChip t = match f.connectionMode with
    | .parallel => (t + 1) / 2
    | _ => t := by
  unfold Flash.perChip Flash.width
  cases f.connectionMode <;> simp

theorem room_eq (f : Flash) (b : Banks) (s : Nat) : room f b s = match f.connectionMode with
    | .single => b.size - s % b.size
    | .stacked => b.size - (if s < f.chip then s else s - f.chip) % b.size
    | .parallel => 2 * (b.size - s / 2 % b.size) := by
  unfold room Flash.width Flash.chipAddr
  cases f.connectionMode <;> simp

/-- Chips are made of whole banks, or hold less than half of one. -/
theorem chip_bank (f : Flash) (b : Banks) : f.chip % b.size = 0 ∨ 2 * f.chip ≤ b.size := by
  have h := f.chip_cases
  simp only [List.mem_cons, List.not_mem_nil, or_false] at h
  rcases b.size_eq with hb | hb <;> rw [hb] <;> omega

/-- What a transfer inside its bank needs of the chips. -/
def InChip (f : Flash) (s t : Nat) : Prop := f.chipAddr s + f.perChip t ≤ f.chip ∧ f.base s = s

theorem inChip_iff (hs : s + t ≤ f.size) :
    InChip f s t ↔ match f.connectionMode with
      | .single => True
      | .stacked => s + t ≤ f.chip ∨ f.chip ≤ s
      | .parallel => s % 2 = 0 := by
  rw [f.size_eq] at hs
  rw [InChip, perChip_eq, Flash.chipAddr, Flash.base]
  cases hm : f.connectionMode with
  | single =>
    rw [hm] at hs
    exact iff_of_true ⟨hs, rfl⟩ trivial
  | stacked =>
    simp only [hm, and_true] at hs ⊢
    split_ifs <;> omega
  | parallel =>
    simp only [hm] at hs ⊢
    omega

/-- Behind a transfer up to the end of the bank a whole bank follows. -/
theorem room_next (hc : InChip f s (room f b s)) (hs : s + room f b s < f.size) :
    room f b (s + room f b s) = f.width * b.size := by
  have hbank := chip_bank f b
  rw [inChip_iff (Nat.le_of_lt hs)] at hc
  rw [f.size_eq] at hs
  rw [room_eq] at hs hc ⊢
  rw [room_eq, Flash.width]
  rcases b.size_eq with hb | hb
  all_goals
    rw [hb] at hbank hc hs ⊢
    cases hm : f.connectionMode with
    | single =>
      simp only
      omega
    | stacked =>
      simp only [hm] at hs hc ⊢
      split_ifs at hs hc ⊢ <;> omega
    | parallel =>
      simp only [hm] at hs hc ⊢
      omega

/-- A transfer within its chip and bank is in the bank of its start. -/
theorem bank_piece (hb : b.size = 2 ^ 24) (hc : InChip f s t) (ht : 0 < t) (hr : t ≤ room f b s) :
    (∀ a, s ≤ a → a < s + t → f.chipAddr a < 2 ^ 24) ↔ f.chipAddr s < 2 ^ 24 := by
  refine ⟨fun h => h s (Nat.le_refl s) (by omega), fun h a h1 h2 => ?_⟩
  obtain ⟨hin, hbase⟩ := hc
  rw [room_eq, hb] at hr
  rw [perChip_eq] at hin
  unfold Flash.base at hbase
  unfold Flash.chipAddr at h hin ⊢
  cases hm : f.connectionMode with
  | single =>
    simp only [hm] at h hr ⊢
    omega
  | stacked =>
    simp only [hm] at h hr hin ⊢
    split_ifs at h hr hin ⊢ <;> omega
  | parallel =>
    simp only [hm] at h hr hbase ⊢
    omega

theorem bankRange_add (h : 0 < t) (hn : t ≤ n) (hc : InChip f s t) (hr : b.splits = true → t ≤ room f b s) :
    BankRange f b s n ↔ (b.selected = true ∨ f.chipAddr s < 2 ^ 24) ∧ BankRange f b (s + t) (n - t) := by
  unfold BankRange
  rcases b.split_or with hsel | ⟨hb, hsplit⟩
  · simp [hsel]
  by_cases hsel : b.selected = true
  · simp [hsel]
  simp only [hsel, false_or, Bool.false_eq_true]
  rw [← bank_piece hb hc h (hr hsplit)]
  constructor
  · intro hall
    exact ⟨fun a h1 h2 => hall a h1 (by omega), fun a h1 h2 => hall a (by omega) (by omega)⟩
  · rintro ⟨hfst, hsnd⟩ a h1 h2
    by_cases ha : a < s + t
    · exact hfst a h1 ha
    · exact hsnd a (by omega) (by omega)

/-! ## Direct transfers -/

/-- `ChipRange` where all transfers are direct. -/
def ChipDirect (f : Flash) (b : Banks) (s n : Nat) : Prop :=
  match f.connectionMode with
  | .single => True
  | .stacked => (b.splits = true ∧ b.size ≤ f.chip) ∨ s + n ≤ f.chip ∨ f.chip ≤ s
  | .parallel => s % 2 = 0

/-- A transfer of the whole range. -/
theorem chipDirect_whole (hs : s + n ≤ f.size) (hr : b.splits = true → n ≤ room f b s) :
    ChipDirect f b s n ↔ InChip f s n := by
  rw [inChip_iff hs, ChipDirect]
  cases hm : f.connectionMode with
  | single => rfl
  | stacked =>
    have hbank := chip_bank f b
    simp only
    refine ⟨fun h => ?_, .inr⟩
    rcases h with ⟨hsplit, hle⟩ | h
    · have h1 := hr hsplit
      rw [room_eq, hm] at h1
      simp only at h1
      rcases b.size_eq with hb | hb <;> rw [hb] at h1 hle hbank <;> split_ifs at h1 <;> omega
    · exact h
  | parallel => rfl

/-- A transfer up to the end of the bank. -/
theorem chipDirect_room (hs : s + n ≤ f.size) (hsplit : b.splits = true) (hn : room f b s < n) :
    ChipDirect f b s n ↔ InChip f s (room f b s) ∧ ChipDirect f b (s + room f b s) (n - room f b s) := by
  have hbank := chip_bank f b
  have hroom := room_eq f b s
  rw [inChip_iff (by omega), ChipDirect, ChipDirect]
  rw [f.size_eq] at hs
  cases hm : f.connectionMode with
  | single => simp
  | stacked =>
    simp only [hm, hsplit, true_and] at hroom hs ⊢
    rcases b.size_eq with hb | hb <;> rw [hb] at hroom hbank ⊢ <;> split_ifs at hroom <;> omega
  | parallel =>
    simp only [hm] at hroom ⊢
    omega

theorem size_le (f : Flash) : f.size ≤ 2 ^ 29 := by
  have h := f.chip_le
  rw [f.size_eq]
  split <;> omega

/-- A whole bank is made of words. -/
theorem bank_words (f : Flash) (b : Banks) : (f.width * b.size) % 4 = 0 ∧ 8 ≤ f.width * b.size := by
  have h1 := f.width_pos
  have h2 := f.width_le
  rcases b.size_eq with hb | hb <;> rw [hb] <;> omega

theorem right_iff {u : Nat} : Right f b s d u t ↔
    InChip f s t ∧ (b.selected = true ∨ f.chipAddr s < 2 ^ 24) ∧ (u ≠ 0 ∨ d % 4 = 0 ∨ t < 8) := by
  unfold Right Fits InChip
  constructor
  · rintro ⟨⟨h1, h2⟩, h3, h4⟩
    exact ⟨⟨h1, h3⟩, h2, h4⟩
  · rintro ⟨⟨h1, h3⟩, h2, h4⟩
    exact ⟨⟨h1, h2⟩, h3, h4⟩

theorem pieces_iff_first (hn : 0 < n) : Pieces (cut f b) (Right f b) s d n u ↔
    Right f b s d u (cut f b s n u) ∧
      Pieces (cut f b) (Right f b) (s + cut f b s n u) (d + cut f b s n u) (n - cut f b s n u) 0 :=
  ⟨fun h => h.first hn, fun h => .piece hn h.1 h.2⟩

/-- The pieces of a range without a 64-byte part, at a word or at the start of a bank. -/
theorem pieces_direct (hs : s + n ≤ f.size) (hd : d % 4 = 0 ∨ room f b s = f.width * b.size) :
    Pieces (cut f b) (Right f b) s d n 0 ↔
      n = 0 ∨ (ChipDirect f b s n ∧ (d % 4 = 0 ∨ n < 8) ∧ WordRange f b s d n ∧ BankRange f b s n) := by
  induction n using Nat.strong_induction_on generalizing s d with
  | _ n ih =>
    rcases Nat.eq_zero_or_pos n with rfl | hn
    · exact iff_of_true (.done ..) (.inl rfl)
    have hsize := size_le f
    have hwords := bank_words f b
    rw [or_iff_right (by omega), pieces_iff_first hn]
    by_cases hwhole : b.splits = true → n ≤ room f b s
    · have hcut : cut f b s n 0 = n := by
        unfold cut aligned
        rw [if_pos rfl]
        split
        next hsplit =>
          have := hwhole hsplit
          omega
        next => omega
      rw [hcut, Nat.sub_self, right_iff, chipDirect_whole hs hwhole]
      have hword : WordRange f b s d n := fun hsplit => .inl (by have := hwhole hsplit; omega)
      constructor
      · rintro ⟨⟨h1, h2, h3⟩, -⟩
        exact ⟨h1, h3.resolve_left (by simp), hword,
          (bankRange_add hn (Nat.le_refl n) h1 hwhole).mpr ⟨h2, .inr fun a h4 h5 => by omega⟩⟩
      · rintro ⟨h1, h2, -, h3⟩
        exact ⟨⟨h1, ((bankRange_add hn (Nat.le_refl n) h1 hwhole).mp h3).1, .inr h2⟩, .done ..⟩
    · obtain ⟨hsplit, hroom⟩ := Classical.not_imp.mp hwhole
      have hpos := room_pos f b s
      have hcut : cut f b s n 0 = room f b s := by
        unfold cut aligned
        rw [if_pos hsplit, if_pos rfl]
        omega
      have hle : b.splits = true → room f b s ≤ room f b s := fun _ => Nat.le_refl _
      rw [hcut, right_iff, chipDirect_room hs hsplit (by omega)]
      have hrest (hc : InChip f s (room f b s)) :=
        ih (n - room f b s) (by omega) (show s + room f b s + (n - room f b s) ≤ f.size by omega)
          (d := d + room f b s) (.inr (room_next hc (by omega)))
      constructor
      · rintro ⟨⟨h1, h2, h3⟩, h4⟩
        obtain ⟨h5, h6, -, h7⟩ := ((hrest h1).mp h4).resolve_left (by omega)
        exact ⟨⟨h1, h5⟩, by omega, fun _ => by omega, (bankRange_add hpos (by omega) h1 hle).mpr ⟨h2, h7⟩⟩
      · rintro ⟨⟨h1, h5⟩, h6, h7, h8⟩
        obtain ⟨h9, h10⟩ := (bankRange_add hpos (by omega) h1 hle).mp h8
        have h11 := h7 hsplit
        refine ⟨⟨h1, h9, .inr (by omega)⟩, (hrest h1).mpr (.inr ⟨h5, by omega, fun _ => ?_, h10⟩)⟩
        rw [room_next h1 (by omega)]
        omega

/-! ## Transfers through the buffer -/

/-- A range that ends with its 64-byte part. -/
theorem chipRange_whole (hs : s + n ≤ f.size) (hn : n ≤ 64 - u) (hr : b.splits = true → n ≤ room f b s) :
    ChipRange f b s d n u ↔ InChip f s n := by
  rw [← chipDirect_whole hs hr, ChipRange, ChipDirect]
  cases hm : f.connectionMode with
  | single => rfl
  | stacked =>
    refine or_congr_right ?_
    omega
  | parallel => exact and_iff_left (.inr (.inl hn))

/-- A 64-byte part that the end of the bank cuts. -/
theorem chipRange_room (hs : s + n ≤ f.size) (hsplit : b.splits = true) (hn : room f b s < n)
    (hr : room f b s ≤ 64 - u) :
    ChipRange f b s d n u ↔ InChip f s (room f b s) ∧ ChipDirect f b (s + room f b s) (n - room f b s) := by
  rw [← chipDirect_room hs hsplit hn, ChipRange, ChipDirect]
  have hbank := chip_bank f b
  have hroom := room_eq f b s
  cases hm : f.connectionMode with
  | single => rfl
  | stacked =>
    simp only [hm, hsplit, true_and] at hroom ⊢
    rcases b.size_eq with hb | hb <;> rw [hb] at hroom hbank ⊢ <;> split_ifs at hroom <;> omega
  | parallel =>
    simp only [hsplit, true_and]
    omega

/-- A 64-byte part with transfers behind it. -/
theorem chipRange_head (hs : s + n ≤ f.size) (hu : d % 64 = u) (hu0 : u ≠ 0) (hn : 64 - u < n)
    (hr : b.splits = true → 64 - u < room f b s) :
    ChipRange f b s d n u ↔ InChip f s (64 - u) ∧ ChipDirect f b (s + (64 - u)) (n - (64 - u)) := by
  have hbank := chip_bank f b
  have hroom := room_eq f b s
  rw [inChip_iff (by omega), ChipRange, ChipDirect]
  rw [f.size_eq] at hs
  cases hm : f.connectionMode with
  | single => simp
  | stacked =>
    simp only [hm] at hroom hs ⊢
    by_cases hsplit : b.splits = true
    · have h1 := hr hsplit
      simp only [hsplit, true_and]
      rcases b.size_eq with hb | hb <;> rw [hb] at hroom hbank ⊢ <;> split_ifs at hroom <;> omega
    · simp only [hsplit, Bool.false_eq_true, false_and, false_or]
      omega
  | parallel =>
    simp only
    by_cases hsplit : b.splits = true
    · have h1 := hr hsplit
      omega
    · simp only [hsplit, Bool.false_eq_true, false_and, or_false]
      omega

/-- Behind the 64-byte part the end of the bank is as far as before. -/
theorem wordRange_head (hs : s + n ≤ f.size) (hn : t < n) (hr : b.splits = true → t < room f b s)
    (hc : InChip f s t) (hc' : f.base (s + t) = s + t) :
    WordRange f b (s + t) (d + t) (n - t) ↔ WordRange f b s d n := by
  unfold WordRange
  refine imp_congr_right fun hsplit => ?_
  have hbank := chip_bank f b
  have ht := hr hsplit
  rw [inChip_iff (by omega)] at hc
  rw [f.size_eq] at hs
  rw [room_eq] at ht
  rw [room_eq f b s, room_eq f b (s + t)]
  unfold Flash.base at hc'
  rcases b.size_eq with hb | hb
  all_goals
    rw [hb] at hbank ht ⊢
    cases hm : f.connectionMode with
    | single =>
      simp only [hm] at ht ⊢
      omega
    | stacked =>
      simp only [hm] at hs hc ht ⊢
      split_ifs at ht ⊢ <;> omega
    | parallel =>
      simp only [hm] at hc hc' ht ⊢
      omega

/-- **The pieces of a range in closed form.** -/
theorem pieces_iff (hs : s + n ≤ f.size) (hu : d % 64 = u) :
    Pieces (cut f b) (Right f b) s d n u ↔
      n = 0 ∨ (ChipRange f b s d n u ∧ WordRange f b s d n ∧ BankRange f b s n) := by
  have hsize := size_le f
  have hpos := room_pos f b s
  rcases Nat.eq_zero_or_pos n with rfl | hn
  · exact iff_of_true (.done ..) (.inl rfl)
  by_cases hu0 : u = 0
  · subst hu0
    have hchip : ChipRange f b s d n 0 ↔ ChipDirect f b s n := by
      unfold ChipRange ChipDirect
      cases f.connectionMode with
      | single => rfl
      | stacked => simp
      | parallel => exact and_iff_left (.inl (by omega))
    rw [pieces_direct hs (.inl (by omega)), hchip]
    have hd : d % 4 = 0 ∨ n < 8 := .inl (by omega)
    simp [hd]
  rw [or_iff_right (by omega), pieces_iff_first hn, right_iff]
  by_cases hhead : n ≤ 64 - u ∧ (b.splits = true → n ≤ room f b s)
  · obtain ⟨hlen, hr⟩ := hhead
    have hcut : cut f b s n u = n := by
      unfold cut aligned
      rw [if_neg hu0]
      split
      next hsplit =>
        have := hr hsplit
        omega
      next => omega
    have hword : WordRange f b s d n := fun hsplit => .inl (by have := hr hsplit; omega)
    rw [hcut, Nat.sub_self, chipRange_whole hs hlen hr]
    constructor
    · rintro ⟨⟨h1, h2, -⟩, -⟩
      exact ⟨h1, hword, (bankRange_add hn (Nat.le_refl n) h1 hr).mpr ⟨h2, .inr fun a h4 h5 => by omega⟩⟩
    · rintro ⟨h1, -, h3⟩
      exact ⟨⟨h1, ((bankRange_add hn (Nat.le_refl n) h1 hr).mp h3).1, .inl hu0⟩, .done ..⟩
  by_cases hroom : b.splits = true ∧ room f b s ≤ 64 - u
  · obtain ⟨hsplit, hr⟩ := hroom
    have hlt : room f b s < n := by
      by_contra hno
      exact hhead ⟨by omega, fun _ => by omega⟩
    have hcut : cut f b s n u = room f b s := by
      unfold cut aligned
      rw [if_pos hsplit, if_neg hu0]
      omega
    have hle : b.splits = true → room f b s ≤ room f b s := fun _ => Nat.le_refl _
    have hrest (hc : InChip f s (room f b s)) :=
      pieces_direct (b := b) (s := s + room f b s) (d := d + room f b s) (n := n - room f b s)
        (show s + room f b s + (n - room f b s) ≤ f.size by omega) (.inr (room_next hc (by omega)))
    rw [hcut, chipRange_room hs hsplit hlt hr]
    constructor
    · rintro ⟨⟨h1, h2, -⟩, h3⟩
      obtain ⟨h4, h5, -, h6⟩ := ((hrest h1).mp h3).resolve_left (by omega)
      exact ⟨⟨h1, h4⟩, fun _ => by omega, (bankRange_add hpos (by omega) h1 hle).mpr ⟨h2, h6⟩⟩
    · rintro ⟨⟨h1, h4⟩, h5, h6⟩
      obtain ⟨h7, h8⟩ := (bankRange_add hpos (by omega) h1 hle).mp h6
      have h9 := h5 hsplit
      have hwords := bank_words f b
      refine ⟨⟨h1, h7, .inl hu0⟩, (hrest h1).mpr (.inr ⟨h4, by omega, fun _ => ?_, h8⟩)⟩
      rw [room_next h1 (by omega)]
      omega
  · have hlt : 64 - u < n := by
      by_contra hno
      exact hhead ⟨by omega, fun hsplit => by
        by_contra hno'
        exact hroom ⟨hsplit, by omega⟩⟩
    have hr : b.splits = true → 64 - u < room f b s := fun hsplit => by
      by_contra hno
      exact hroom ⟨hsplit, by omega⟩
    have hcut : cut f b s n u = 64 - u := by
      unfold cut aligned
      rw [if_neg hu0]
      split
      next hsplit =>
        have := hr hsplit
        omega
      next => omega
    have hle : b.splits = true → 64 - u ≤ room f b s := fun hsplit => Nat.le_of_lt (hr hsplit)
    have hrest := pieces_direct (f := f) (b := b) (s := s + (64 - u)) (d := d + (64 - u)) (n := n - (64 - u))
      (by omega) (.inl (by omega))
    rw [or_iff_right (by omega)] at hrest
    rw [hcut, hrest, chipRange_head hs hu hu0 hlt hr]
    have hbase (h : ChipDirect f b (s + (64 - u)) (n - (64 - u))) :
        f.base (s + (64 - u)) = s + (64 - u) := by
      unfold ChipDirect at h
      unfold Flash.base
      cases hm : f.connectionMode with
      | single => rfl
      | stacked => rfl
      | parallel =>
        simp only [hm] at h ⊢
        omega
    constructor
    · rintro ⟨⟨h1, h2, -⟩, h3, -, h4, h5⟩
      exact ⟨⟨h1, h3⟩, (wordRange_head hs hlt hr h1 (hbase h3)).mp h4,
        (bankRange_add (by omega) (by omega) h1 hle).mpr ⟨h2, h5⟩⟩
    · rintro ⟨⟨h1, h3⟩, h4, h5⟩
      obtain ⟨h6, h7⟩ := (bankRange_add (by omega) (by omega) h1 hle).mp h5
      exact ⟨⟨h1, h6, .inl hu0⟩, h3, .inl (by omega), (wordRange_head hs hlt hr h1 (hbase h3)).mpr h4, h7⟩

/-! ## Copies -/

section Copy

variable {Reads : QspiPsu → Prop} {I : QspiState → Prop} {inside : Transfer → Prop}
  {round : QspiPsu → Chips → UInt32 → Nat → UInt32 → UInt32 → Spi UInt32}
  {srcAddress length : UInt32} {destAddress : Nat}

/-- The range is in the flash, the destination holds its bytes, nothing else has changed, and all transfers
were `inside`. -/
structure Copied (f : Flash) (chips : Chips) (inside : Transfer → Prop) (srcAddress : UInt32)
    (destAddress : Nat) (length : UInt32) (s t : QspiState) : Prop where
  inFlash : srcAddress.toNat + length.toNat ≤ f.size
  mem : t.mem = s.mem.fill destAddress length.toNat fun i => f.logical chips (srcAddress.toNat + i)
  transfers : ∀ r ∈ t.transfers, inside r

/-- When a copy is right: it is refused by the check or by the driver, or the range does not wrap, and lies
right to chips, words and banks. -/
def CopyRange (f : Flash) (b : Banks) (srcAddress : UInt32) (destAddress : Nat) (length : UInt32) : Prop :=
  f.qspiFlashSize < srcAddress + length ∨ ¬ Light b length.toNat (destAddress % 64) ∨
    (srcAddress.toNat + length.toNat < 2 ^ 32 ∧
      (length = 0 ∨
        (ChipRange f b srcAddress.toNat destAddress length.toNat (destAddress % 64) ∧
          WordRange f b srcAddress.toNat destAddress length.toNat ∧
          BankRange f b srcAddress.toNat length.toNat)))

theorem toNat_unalignedOf (destAddress : Nat) : (unalignedOf destAddress).toNat = destAddress % 64 :=
  UInt32.toNat_ofNat_of_lt' (Nat.lt_trans (Nat.mod_lt _ (by decide)) (by decide))

/-- A copy never runs out of fuel. -/
theorem checkedCopy_ends {round : UInt32 → Nat → UInt32 → UInt32 → Spi UInt32} {st st' : QspiState}
    (h : RoundEnds f b round) :
    checkedCopy f round srcAddress destAddress length st ≠ .error .outOfFuel st' := by
  unfold checkedCopy
  split
  · simp
  · exact copyLoop_ends h (by rw [toNat_unalignedOf]; exact Nat.mod_lt _ (by decide)) (Nat.le_refl _)

theorem checkedCopy_keeps {round : UInt32 → Nat → UInt32 → UInt32 → Spi UInt32} {chips : Chips}
    {st st' : QspiState} (hR : RoundSpec f chips b I inside round) (hI : I st)
    (h : checkedCopy f round srcAddress destAddress length st = .ok () st') : I st' := by
  unfold checkedCopy at h
  split at h
  · exact absurd h (by simp)
  · exact copyLoop_keeps hR hI (by rw [toNat_unalignedOf]; exact Nat.mod_lt _ (by decide)) h

/-- Chips that tell what was read from where: `0` from the lower one, `1` from the upper one. -/
def tellingChips : Chips := ⟨fun _ => 0, fun _ => 1⟩

theorem logical_tellingChips (f : Flash) (a : Nat) : f.logical tellingChips a ≠ 0xFF := by
  unfold Flash.logical tellingChips
  cases f.connectionMode with
  | single => simp
  | stacked => simp only; split <;> decide
  | parallel => simp only; split <;> decide

theorem base_of_tellingChips (f : Flash) (a : Nat)
    (h : f.logical tellingChips (f.base a) = f.logical tellingChips a) : f.base a = a := by
  unfold Flash.logical tellingChips at h
  unfold Flash.base at h ⊢
  cases hm : f.connectionMode with
  | single => rfl
  | stacked => rfl
  | parallel =>
    simp only [hm] at h ⊢
    rw [if_pos (by omega)] at h
    by_cases ha : a % 2 = 0
    · omega
    · rw [if_neg ha] at h
      exact absurd h (by decide)

/-- Every buffer filled with a byte no telling chip gives. -/
def blankState (cs : Cs) (banks : UInt8 × UInt8) : QspiState := ⟨0, cs, banks, fun _ => 0xFF, fun _ => 0xFF, []⟩

/-- **A copy is right exactly on the ranges of `CopyRange`**, given what a round does, and one driver that does
it and lets it succeed. -/
theorem checkedCopy_iff (hspec : ∀ d chips, Reads d → RoundSpec f chips b I inside (round d chips))
    (hruns : ∃ d, Reads d ∧ ∀ (chips : Chips) (src rem u : UInt32) dest st, rem ≠ 0 → u.toNat < 64 →
      cut f b src.toNat rem.toNat u.toNat ≤ 2 ^ 28 → ∃ t st', round d chips src dest rem u st = .ok t st')
    (hI : ∃ cs banks, I (blankState cs banks)) :
    (∀ d chips st st', Reads d → I st → st.transfers = [] →
      checkedCopy f (round d chips) srcAddress destAddress length st = .ok () st' →
      Copied f chips inside srcAddress destAddress length st st') ↔
      CopyRange f b srcAddress destAddress length := by
  have hu : (unalignedOf destAddress).toNat < 64 := by
    rw [toNat_unalignedOf]
    exact Nat.mod_lt _ (by decide)
  constructor
  · intro h
    by_contra hno
    simp only [CopyRange, not_or, Classical.not_not] at hno
    obtain ⟨hcheck, hlight, hrange⟩ := hno
    obtain ⟨d, hd, hrun⟩ := hruns
    obtain ⟨cs, banks, hblank⟩ := hI
    have hsp := hspec d tellingChips hd
    rw [← toNat_unalignedOf] at hlight
    obtain ⟨st', hloop⟩ : ∃ st', copyLoop (round d tellingChips) length.toNat srcAddress destAddress length
        (unalignedOf destAddress) (blankState cs banks) = .ok () st' :=
      copyLoop_runs hsp.toRoundEnds (hrun tellingChips) hu hlight (Nat.le_refl _)
    have hcopied := h d tellingChips (blankState cs banks) st' hd hblank rfl (by
      rw [checkedCopy, if_neg (by simpa using hcheck)]
      exact hloop)
    have hsize := size_le f
    have hin := hcopied.inFlash
    refine hrange ⟨by omega, ?_⟩
    have hp := pieces_of_copyLoop hsp (logical_tellingChips f) (base_of_tellingChips f) hblank
      (by omega) hu hloop hcopied.transfers (fun i hi => ?_) (fun _ _ => rfl) (fun _ _ => rfl)
    · rw [toNat_unalignedOf, pieces_iff hin rfl] at hp
      exact hp.imp_left fun h0 => UInt32.toNat_inj.mp h0
    · rw [hcopied.mem, Mem.fill_apply, if_pos (by omega), Nat.add_sub_cancel_left]
  · intro hrange d chips st st' hd hI hst hrun
    unfold checkedCopy at hrun
    split at hrun
    · exact absurd hrun (by simp)
    next hcheck =>
      have hsp := hspec d chips hd
      have hlight := copyLoop_light hsp.toRoundEnds hu hrun
      rw [toNat_unalignedOf] at hlight
      obtain ⟨hwrap, hrange⟩ := (hrange.resolve_left hcheck).resolve_left (not_not_intro hlight)
      have hin : srcAddress.toNat + length.toNat ≤ f.size := by
        have hle := UInt32.le_iff_toNat_le.mp (UInt32.not_lt.mp hcheck)
        rwa [UInt32.toNat_add, Nat.mod_eq_of_lt hwrap] at hle
      have hp := (pieces_iff hin rfl).mpr (hrange.imp_left fun h0 => by rw [h0]; rfl)
      rw [← toNat_unalignedOf] at hp
      obtain ⟨hmem, hall⟩ := copyLoop_right hsp hp hI hwrap hu hrun
      exact ⟨hin, hmem, hall (by simp [hst])⟩

end Copy

end MeasuredBoot.Qspi
