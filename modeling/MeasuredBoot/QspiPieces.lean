import MeasuredBoot.QspiFlash

/-!
# A copy in pieces

The copy loop cuts its range into transfers. `Pieces` says that each of them meets a condition on its
source, its destination and its length; a round that puts the bytes of the flash there if it does
(`RoundSpec`) makes a loop that copies right (`copyLoop_right`), and a loop that copies right has cut no other
piece (`pieces_of_copyLoop`).
-/

namespace MeasuredBoot.Qspi

/-! ## Buffers -/

/-- In an aligned buffer, or below eight bytes, a transfer arrives where it should. -/
theorem rx_aligned {m : Mem} {p n : Nat} {data : Mem} (h : p % 4 = 0 ∨ n < 8) :
    rx m p n data = m.fill p n data := by
  unfold rx
  split
  next => rfl
  next hn =>
    funext x
    simp only [Mem.fill_apply]
    have hp : p / 4 * 4 = p := by omega
    rw [hp]
    by_cases h1 : p + n / 4 * 4 ≤ x ∧ x < p + n / 4 * 4 + n % 4
    · rw [if_pos h1, if_pos (by omega)]
      congr 1
      omega
    · rw [if_neg h1]
      by_cases h2 : p ≤ x ∧ x < p + n / 4 * 4
      · rw [if_pos h2, if_pos (by omega)]
      · rw [if_neg h2, if_neg (by omega)]

/-- Elsewhere the last byte of the words keeps what it held. -/
theorem rx_unaligned {m : Mem} {p n : Nat} {data : Mem} (hp : p % 4 ≠ 0) (hn : 8 ≤ n) :
    rx m p n data (p + n / 4 * 4 - 1) = m (p + n / 4 * 4 - 1) := by
  rw [rx, if_neg (by omega), Mem.fill_out (by omega), Mem.fill_out (by omega)]

/-- Behind its end a transfer changes nothing. -/
theorem rx_behind {m : Mem} {p n x : Nat} {data : Mem} (hx : p + n ≤ x) : rx m p n data x = m x := by
  unfold rx
  split
  next => exact Mem.fill_out (by omega)
  next => rw [Mem.fill_out (by omega), Mem.fill_out (by omega)]

/-! ## Pieces -/

/-- Every piece of a range meets `P`: source, destination, the part of the 64 bytes (none behind the
first piece) and the length, which `cut` gives for what remains. -/
inductive Pieces (cut : Nat → Nat → Nat → Nat) (P : Nat → Nat → Nat → Nat → Prop) :
    Nat → Nat → Nat → Nat → Prop where
  | done (s d u : Nat) : Pieces cut P s d 0 u
  | piece {s d n u : Nat} : 0 < n → P s d u (cut s n u) →
      Pieces cut P (s + cut s n u) (d + cut s n u) (n - cut s n u) 0 → Pieces cut P s d n u

theorem Pieces.first {cut : Nat → Nat → Nat → Nat} {P : Nat → Nat → Nat → Nat → Prop} {s d n u : Nat}
    (h : Pieces cut P s d n u) (hn : 0 < n) :
    P s d u (cut s n u) ∧ Pieces cut P (s + cut s n u) (d + cut s n u) (n - cut s n u) 0 := by
  cases h with
  | done => exact absurd hn (Nat.lt_irrefl 0)
  | piece _ h1 h2 => exact ⟨h1, h2⟩

/-! ## Geometry -/

namespace Flash

variable (f : Flash)

/-- The size of a chip. -/
def chip : Nat := f.chipSize.toNat

/-- The chips that share a transfer. -/
def width : Nat :=
  match f.connectionMode with
  | .parallel => 2
  | _ => 1

/-- The address in its chip of a byte of the flash. -/
def chipAddr (s : Nat) : Nat :=
  match f.connectionMode with
  | .single => s
  | .stacked => if s < f.chip then s else s - f.chip
  | .parallel => s / 2

/-- What each chip gives of `t` bytes. -/
def perChip (t : Nat) : Nat := (t + f.width - 1) / f.width

/-- Where a transfer for the source `s` really starts. -/
def base (s : Nat) : Nat :=
  match f.connectionMode with
  | .parallel => s / 2 * 2
  | _ => s

/-- The size of the flash. -/
def size : Nat := f.qspiFlashSize.toNat

end Flash

namespace Flash

variable (f : Flash)

theorem chip_cases : f.chip ∈ [0x100000, 0x200000, 0x400000, 0x800000, 0x1000000, 0x2000000, 0x4000000, 0x8000000,
    0x10000000] := by
  have h := List.mem_map_of_mem (f := UInt32.toNat) f.supported
  simpa [flashSizes, Flash.chip] using h

theorem chip_le : f.chip ≤ 2 ^ 28 := by
  have h := f.chip_cases
  simp only [List.mem_cons, List.not_mem_nil, or_false] at h
  omega

/-- The size of the flash from that of its chips. -/
theorem size_eq : f.size = match f.connectionMode with
    | .single => f.chip
    | _ => 2 * f.chip := by
  have h := f.chip_le
  unfold size qspiFlashSize
  cases f.connectionMode
  · rfl
  all_goals
    show (2 * f.chipSize).toNat = 2 * f.chip
    rw [UInt32.toNat_mul]
    exact Nat.mod_eq_of_lt (by simp [chip] at h ⊢; omega)

variable {f}

theorem toNat_half (hm : f.connectionMode = .stacked) : (f.qspiFlashSize / 2).toNat = f.chip := by
  have hs := f.size_eq
  rw [hm, size] at hs
  rw [UInt32.toNat_div, hs]
  exact Nat.mul_div_cancel_left _ (by decide)

/-- Stacked, the upper chip begins behind the lower one. -/
theorem translate_stacked (hm : f.connectionMode = .stacked) (src : UInt32) :
    f.translate src =
      if src.toNat < f.chip then (.lower, src) else (.upper, src - f.qspiFlashSize / 2) := by
  simp only [translate, hm, ge_iff_le, UInt32.le_iff_toNat_le, toNat_half hm]
  by_cases h : src.toNat < f.chip
  · rw [if_pos h, if_neg (by omega)]
  · rw [if_neg h, if_pos (by omega)]

variable (f)

theorem toNat_translate (src : UInt32) : (f.translate src).2.toNat = f.chipAddr src.toNat := by
  cases hm : f.connectionMode with
  | single => simp only [translate, chipAddr, hm]
  | stacked =>
    rw [translate_stacked hm]
    simp only [chipAddr, hm]
    have hhalf := toNat_half hm
    split
    next h => rfl
    next h =>
      rw [UInt32.toNat_sub_of_le _ _ (UInt32.le_iff_toNat_le.mpr (by omega)), hhalf]
  | parallel =>
    simp only [translate, chipAddr, hm]
    rfl

theorem width_translate (src : UInt32) : (f.translate src).1.width = f.width := by
  unfold translate width
  cases f.connectionMode with
  | single => rfl
  | stacked =>
    simp only
    split <;> rfl
  | parallel => rfl

/-- What the selected chips give, while the transfer is inside them. -/
theorem byte_translate (c : Chips) {src : UInt32} {i t : Nat} (hi : i < t)
    (h : f.chipAddr src.toNat + f.perChip t ≤ f.chip) :
    c.byte (f.translate src).1 (f.chipAddr src.toNat) i = f.logical c (f.base src.toNat + i) := by
  cases hm : f.connectionMode with
  | single => simp only [translate, chipAddr, logical, base, hm, Chips.byte]
  | stacked =>
    rw [translate_stacked hm]
    simp only [chipAddr, perChip, width, hm] at h
    simp only [chipAddr, logical, base, hm]
    by_cases hlow : src.toNat < f.chip
    · rw [if_pos hlow] at h
      simp only [if_pos hlow]
      rw [if_pos (show src.toNat + i < f.chipSize.toNat by simp only [chip] at h; omega)]
      rfl
    · simp only [if_neg hlow]
      rw [if_neg (show ¬ src.toNat + i < f.chipSize.toNat by simp only [chip] at hlow; omega)]
      show c.upper (src.toNat - f.chipSize.toNat + i) = c.upper (src.toNat + i - f.chipSize.toNat)
      congr 1
      simp only [chip] at hlow
      omega
  | parallel =>
    simp only [translate, chipAddr, logical, base, hm, Chips.byte]
    rw [show (src.toNat / 2 * 2 + i) % 2 = i % 2 by omega,
      show (src.toNat / 2 * 2 + i) / 2 = src.toNat / 2 + i / 2 by omega]

end Flash

/-- How a copy splits transfers: the size of a bank or die, whether it is looked at, and whether the bank
is selected (or an address has no bank). -/
structure Banks where
  size : Nat
  splits : Bool
  selected : Bool
  size_eq : size = 2 ^ 24 ∨ size = 2 ^ 26
  split_or : selected = true ∨ size = 2 ^ 24 ∧ splits = true

theorem Banks.pos (b : Banks) : 0 < b.size := by
  rcases b.size_eq with h | h <;> rw [h] <;> decide

theorem Banks.le (b : Banks) : b.size ≤ 2 ^ 26 := by
  rcases b.size_eq with h | h
  · rw [h]
    decide
  · exact Nat.le_of_eq h

/-- The bytes up to the end of the bank. -/
def room (f : Flash) (b : Banks) (s : Nat) : Nat := f.width * (b.size - f.chipAddr s % b.size)

/-- The transfer for `n` bytes to a destination with `u` bytes in its 64. -/
def aligned (n u : Nat) : Nat := if u = 0 then min n (2 ^ 29) else min (64 - u) (min n (2 ^ 29))

def cut (f : Flash) (b : Banks) (s n u : Nat) : Nat :=
  if b.splits then min (aligned n u) (room f b s) else aligned n u

theorem Flash.width_pos (f : Flash) : 0 < f.width := by
  unfold width
  split <;> decide

theorem Flash.width_le (f : Flash) : f.width ≤ 2 := by
  unfold width
  split <;> decide

theorem room_pos (f : Flash) (b : Banks) (s : Nat) : 0 < room f b s :=
  Nat.mul_pos f.width_pos (Nat.sub_pos_of_lt (Nat.mod_lt _ b.pos))

theorem aligned_le (n u : Nat) : aligned n u ≤ n ∧ aligned n u ≤ 2 ^ 29 := by
  unfold aligned
  split <;> omega

theorem aligned_pos {n u : Nat} (hn : 0 < n) (hu : u < 64) : 0 < aligned n u := by
  unfold aligned
  split <;> omega

theorem cut_le (f : Flash) (b : Banks) (s n u : Nat) : cut f b s n u ≤ n := by
  have h := aligned_le n u
  unfold cut
  split <;> omega

theorem cut_pos {f : Flash} {b : Banks} {s n u : Nat} (hn : 0 < n) (hu : u < 64) : 0 < cut f b s n u := by
  have h1 := aligned_pos hn hu
  have h2 := room_pos f b s
  unfold cut
  split <;> omega

theorem perChip_le {f : Flash} {t x : Nat} (h : t ≤ f.width * x) : f.perChip t ≤ x := by
  have hw := f.width_pos
  rw [Flash.perChip, ← Nat.lt_succ_iff, Nat.div_lt_iff_lt_mul hw, Nat.succ_mul, Nat.mul_comm x]
  omega

/-- A transfer that is split stays in its bank. -/
theorem perChip_cut {f : Flash} {b : Banks} (hb : b.splits = true) (s n u : Nat) :
    f.chipAddr s % b.size + f.perChip (cut f b s n u) ≤ b.size := by
  have hlt := Nat.mod_lt (f.chipAddr s) b.pos
  have h : f.perChip (cut f b s n u) ≤ b.size - f.chipAddr s % b.size := by
    refine perChip_le ?_
    rw [cut, if_pos hb]
    exact Nat.min_le_right ..
  omega

theorem share_translate (f : Flash) (src : UInt32) (n : Nat) :
    (f.translate src).1.share n = f.perChip n := by
  rw [Cs.share, f.width_translate, Flash.perChip]

/-- The transfer lies in the chip, in a bank that is selected. -/
def Fits (f : Flash) (b : Banks) (s t : Nat) : Prop :=
  f.chipAddr s + f.perChip t ≤ f.chip ∧ (b.selected = true ∨ f.chipAddr s < 2 ^ 24)

/-- A transfer that brings the right bytes to the right place. -/
def Right (f : Flash) (b : Banks) (s d u t : Nat) : Prop :=
  Fits f b s t ∧ f.base s = s ∧ (u ≠ 0 ∨ d % 4 = 0 ∨ t < 8)

/-! ## Lengths of transfers -/

/-- The transfer before it is split, and the 64-byte part: the same bytes where there is one. -/
theorem toNat_aligned {n u : UInt32} (hn : n ≠ 0) (hu : u.toNat < 64) :
    (alignTransfer u (limitTransfer n)).2.toNat = aligned n.toNat u.toNat ∧
      ((alignTransfer u (limitTransfer n)).1 = 0 ↔ u = 0) ∧
      (u ≠ 0 → (alignTransfer u (limitTransfer n)).1 = (alignTransfer u (limitTransfer n)).2) := by
  have hlimit := toNat_limitTransfer n
  have hpos := Nat.pos_of_ne_zero fun h0 => hn (UInt32.toNat_inj.mp h0)
  by_cases hu0 : u = 0
  · subst hu0
    rw [alignTransfer_zero]
    exact ⟨hlimit, iff_of_true rfl rfl, fun h => absurd rfl h⟩
  · obtain ⟨h, he, hh⟩ := alignTransfer_head (n := limitTransfer n) hu0 hu
    have hune : u.toNat ≠ 0 := fun h0 => hu0 (UInt32.toNat_inj.mp h0)
    rw [he]
    refine ⟨?_, iff_of_false (fun h0 => ?_) hu0, fun _ => rfl⟩
    · rw [hh, hlimit, aligned, if_neg hune]
    · rw [show h = 0 from h0, hlimit, UInt32.toNat_zero] at hh
      omega

/-- Split at the end of a bank or die of `2 ^ k` bytes a chip. -/
theorem toNat_split {f : Flash} {k : Nat} {bankSize bankMask qspiAddr t : UInt32} (hk : k = 24 ∨ k = 26)
    (hsize : bankSize.toNat = 2 ^ k) (hmask : bankMask.toNat = (2 ^ (32 - k) - 1) * 2 ^ k)
    (haddr : f.width * qspiAddr.toNat < 2 ^ 32) (ht : t.toNat ≤ 2 ^ 29) :
    (bankTransfer (f.scaled bankSize) (f.scaled bankMask) (f.scaled qspiAddr) t).toNat =
      min t.toNat (f.width * (2 ^ k - qspiAddr.toNat % 2 ^ k)) := by
  by_cases hm : f.connectionMode = .parallel
  · have hw : f.width = 2 := by simp [Flash.width, hm]
    rw [hw] at haddr ⊢
    simp only [Flash.scaled, hm]
    have htwo (x : UInt32) : (x * 2).toNat = x.toNat * 2 % 2 ^ 32 := UInt32.toNat_mul x 2
    have haddr2 : (qspiAddr * 2).toNat = qspiAddr.toNat * 2 := by
      rw [htwo]
      exact Nat.mod_eq_of_lt (by omega)
    rw [toNat_bankTransfer (k := k + 1) (by rcases hk with rfl | rfl <;> decide)
      (by rw [htwo, hsize]; rcases hk with rfl | rfl <;> rfl)
      (by rw [htwo, hmask]; rcases hk with rfl | rfl <;> rfl) ht, haddr2]
    rcases hk with rfl | rfl <;> omega
  · have hw : f.width = 1 := by
      unfold Flash.width
      split
      next h => exact absurd h hm
      next => rfl
    have hscaled (x : UInt32) : f.scaled x = x := by
      unfold Flash.scaled
      split
      next h => exact absurd h hm
      next => rfl
    rw [hscaled, hscaled, hscaled, hw, Nat.one_mul]
    exact toNat_bankTransfer (by rcases hk with rfl | rfl <;> decide) hsize hmask ht

theorem width_mul_chipAddr (f : Flash) (s : Nat) : f.width * f.chipAddr s ≤ s := by
  unfold Flash.width Flash.chipAddr
  cases f.connectionMode with
  | single => simp
  | stacked =>
    simp only [Nat.one_mul]
    split <;> omega
  | parallel => simp only; omega

/-! ## Rounds -/

/-- How a round ends: with the length `cut` gives, or with an error of the source. -/
structure RoundEnds (f : Flash) (b : Banks) (round : UInt32 → Nat → UInt32 → UInt32 → Spi UInt32) :
    Prop where
  length {src rem u t : UInt32} {dest : Nat} {st st' : QspiState} : rem ≠ 0 → u.toNat < 64 →
    round src dest rem u st = .ok t st' →
    t.toNat = cut f b src.toNat rem.toNat u.toNat ∧ t.toNat ≤ 2 ^ 28
  raises (src rem u : UInt32) (dest : Nat) : Prog.Raises Coded (round src dest rem u)

/-- What a successful round does: it transfers the length `cut` gives, one read for `base s`, directly to the
destination, or through the buffer for the 64-byte part. `inside` says the read kept to its chip and bank. -/
structure RoundSpec (f : Flash) (chips : Chips) (b : Banks) (I : QspiState → Prop)
    (inside : Transfer → Prop) (round : UInt32 → Nat → UInt32 → UInt32 → Spi UInt32) : Prop
    extends RoundEnds f b round where
  ok {src rem u t : UInt32} {dest : Nat} {st st' : QspiState} : I st → rem ≠ 0 → u.toNat < 64 →
    round src dest rem u st = .ok t st' →
    I st' ∧ ∃ read data, st'.transfers = st.transfers ++ [read] ∧ (inside read ↔ Fits f b src.toNat t.toNat) ∧
      (inside read → ∀ i, i < t.toNat → data i = f.logical chips (f.base src.toNat + i)) ∧
      (u = 0 → st'.mem = rx st.mem dest t.toNat data) ∧
      (u ≠ 0 → (∀ i, t.toNat ≤ i → data i = st.tempBuf i) ∧
        ∃ k, t.toNat ≤ k ∧ k ≤ rem.toNat ∧ st'.mem = st.mem.fill dest k data)

/-- A read received in `TempBuf`. -/
theorem received_temp (d : QspiPsu) (chips : Chips) (qspiAddr n : UInt32) (address : List UInt8)
    (s : QspiState) :
    (received d chips qspiAddr address none n s).tempBuf =
      s.tempBuf.fill 0 n.toNat (d.rxBytes chips s.cs s.banks address n.toNat) :=
  rx_aligned (.inl rfl)

/-! ## The loop -/

section Loop

variable {f : Flash} {chips : Chips} {b : Banks} {I : QspiState → Prop} {inside : Transfer → Prop}
  {round : UInt32 → Nat → UInt32 → UInt32 → Spi UInt32} {fuel : Nat} {src rem u : UInt32} {dest : Nat}
  {st st' : QspiState}

theorem copyLoop_done : copyLoop round fuel src dest 0 u st = .ok () st := by
  unfold copyLoop
  rfl

theorem copyLoop_ok (hrem : rem ≠ 0) (h : copyLoop round fuel src dest rem u st = .ok () st') :
    ∃ n t st1, fuel = n + 1 ∧ round src dest rem u st = .ok t st1 ∧
      copyLoop round n (src + t) (dest + t.toNat) (rem - t) 0 st1 = .ok () st' := by
  unfold copyLoop at h
  rw [if_neg hrem] at h
  cases fuel with
  | zero => exact absurd h (by simp)
  | succ n =>
    obtain ⟨t, st1, h1, h2⟩ := Prog.bind_ok.1 h
    exact ⟨n, t, st1, rfl, h1, h2⟩

/-! ### Ends -/

/-- What a transfer that is not split leaves to the next one. -/
def tail (n u : Nat) : Nat := if u = 0 then n else n - min (64 - u) n

/-- No transfer is larger than the driver reads. -/
def Light (b : Banks) (n u : Nat) : Prop := b.splits = true ∨ tail n u ≤ 2 ^ 28

theorem Light.cut_le {n u : Nat} (h : Light b n u) (s : Nat) : cut f b s n u ≤ 2 ^ 28 := by
  have hroom : room f b s ≤ 2 * 2 ^ 26 :=
    Nat.mul_le_mul f.width_le (Nat.le_trans (Nat.sub_le ..) b.le)
  by_cases hb : b.splits = true
  · rw [cut, if_pos hb]
    omega
  · have ht := h.resolve_left hb
    rw [cut, if_neg hb]
    by_cases hu0 : u = 0
    · simp only [tail, aligned, hu0, if_true] at ht ⊢
      omega
    · simp only [tail, aligned, hu0, if_false] at ht ⊢
      omega

/-- What is left to later transfers is what the first one leaves, unless they are split. -/
theorem light_rest {n u s : Nat} (hcut : cut f b s n u ≤ 2 ^ 28) (hu : u < 64) :
    Light b (n - cut f b s n u) 0 ↔ Light b n u := by
  by_cases hb : b.splits = true
  · exact iff_of_true (.inl hb) (.inl hb)
  · unfold Light
    rw [or_iff_right hb, or_iff_right hb]
    rw [cut, if_neg hb] at hcut ⊢
    by_cases hu0 : u = 0
    · simp only [tail, aligned, hu0, if_true] at hcut ⊢
      omega
    · simp only [tail, aligned, hu0, if_false, if_true] at hcut ⊢
      omega

/-- The range behind a first transfer. -/
theorem rest_toNat {t : UInt32} (ht : t.toNat ≤ rem.toNat) (hs : src.toNat + rem.toNat < 2 ^ 32) :
    (src + t).toNat = src.toNat + t.toNat ∧ (rem - t).toNat = rem.toNat - t.toNat :=
  ⟨by rw [UInt32.toNat_add, Nat.mod_eq_of_lt (by omega)],
    UInt32.toNat_sub_of_le _ _ (UInt32.le_iff_toNat_le.mpr ht)⟩

theorem toNat_pos (h : rem ≠ 0) : 0 < rem.toNat :=
  Nat.pos_of_ne_zero fun h0 => h (UInt32.toNat_inj.mp h0)

theorem rest_toNat' {t : UInt32} (ht : t.toNat ≤ rem.toNat) : (rem - t).toNat = rem.toNat - t.toNat :=
  UInt32.toNat_sub_of_le _ _ (UInt32.le_iff_toNat_le.mpr ht)

/-- The loop never runs out of fuel: each round transfers something. -/
theorem copyLoop_ends (hR : RoundEnds f b round) (hu : u.toNat < 64) (hfuel : rem.toNat ≤ fuel) :
    copyLoop round fuel src dest rem u st ≠ .error .outOfFuel st' := by
  induction fuel generalizing src dest rem u st with
  | zero =>
    obtain rfl : rem = 0 := UInt32.toNat_inj.mp (by simpa using hfuel)
    rw [copyLoop_done]
    simp
  | succ n ih =>
    by_cases hz : rem = 0
    · subst hz
      rw [copyLoop_done]
      simp
    unfold copyLoop
    rw [if_neg hz]
    intro h
    rcases Prog.bind_error.1 h with h | ⟨t, st1, h1, h2⟩
    · exact hR.raises src rem u dest _ _ _ h rfl
    · have ht := (hR.length hz hu h1).1
      have hpos : 0 < t.toNat := ht ▸ cut_pos (toNat_pos hz) hu
      have hle : t.toNat ≤ rem.toNat := ht ▸ cut_le ..
      exact ih (by decide) (by rw [rest_toNat' hle]; omega) h2

/-- A loop that succeeds has asked for no larger transfer than the driver reads. -/
theorem copyLoop_light (hR : RoundEnds f b round) (hu : u.toNat < 64)
    (h : copyLoop round fuel src dest rem u st = .ok () st') : Light b rem.toNat u.toNat := by
  induction fuel generalizing src dest rem u st with
  | zero =>
    by_cases hz : rem = 0
    · subst hz
      exact .inr (by simp [tail])
    · obtain ⟨n, t, st1, h0, -⟩ := copyLoop_ok hz h
      cases h0
  | succ n ih =>
    by_cases hz : rem = 0
    · subst hz
      exact .inr (by simp [tail])
    obtain ⟨n', t, st1, hn, h1, h2⟩ := copyLoop_ok hz h
    cases hn
    obtain ⟨ht, hmax⟩ := hR.length hz hu h1
    have hrest := ih (by decide) h2
    rw [rest_toNat' (ht ▸ cut_le ..), ht] at hrest
    exact (light_rest (ht ▸ hmax) hu).mp hrest

/-- Conversely it succeeds, where each round does that asks for no larger one. -/
theorem copyLoop_runs (hR : RoundEnds f b round)
    (hruns : ∀ (src rem u : UInt32) dest st, rem ≠ 0 → u.toNat < 64 →
      cut f b src.toNat rem.toNat u.toNat ≤ 2 ^ 28 → ∃ t st', round src dest rem u st = .ok t st')
    (hu : u.toNat < 64) (hlight : Light b rem.toNat u.toNat) (hfuel : rem.toNat ≤ fuel) :
    ∃ st', copyLoop round fuel src dest rem u st = .ok () st' := by
  induction fuel generalizing src dest rem u st with
  | zero =>
    obtain rfl : rem = 0 := UInt32.toNat_inj.mp (by simpa using hfuel)
    exact ⟨st, copyLoop_done⟩
  | succ n ih =>
    by_cases hz : rem = 0
    · subst hz
      exact ⟨st, copyLoop_done⟩
    have hcut := hlight.cut_le (f := f) src.toNat
    obtain ⟨t, st1, h1⟩ := hruns src rem u dest st hz hu hcut
    have ht := (hR.length hz hu h1).1
    have hpos : 0 < t.toNat := ht ▸ cut_pos (toNat_pos hz) hu
    have hle : t.toNat ≤ rem.toNat := ht ▸ cut_le ..
    have hrest : Light b (rem - t).toNat 0 := by
      rw [rest_toNat' hle, ht]
      exact (light_rest hcut hu).mpr hlight
    obtain ⟨st', h2⟩ : ∃ st', copyLoop round n (src + t) (dest + t.toNat) (rem - t) 0 st1 = .ok () st' :=
      ih (by decide) hrest (by rw [rest_toNat' hle]; omega)
    refine ⟨st', ?_⟩
    unfold copyLoop
    rw [if_neg hz]
    exact Prog.bind_ok.2 ⟨t, st1, h1, h2⟩

/-- **A loop whose pieces are all right copies the flash.** -/
theorem copyLoop_right (hR : RoundSpec f chips b I inside round)
    (hp : Pieces (cut f b) (Right f b) src.toNat dest rem.toNat u.toNat) (hI : I st)
    (hs : src.toNat + rem.toNat < 2 ^ 32) (hu : u.toNat < 64)
    (h : copyLoop round fuel src dest rem u st = .ok () st') :
    st'.mem = st.mem.fill dest rem.toNat (fun i => f.logical chips (src.toNat + i)) ∧
      ((∀ r ∈ st.transfers, inside r) → ∀ r ∈ st'.transfers, inside r) := by
  induction fuel generalizing src dest rem u st with
  | zero =>
    by_cases hz : rem = 0
    · subst hz
      rw [copyLoop_done] at h
      cases h
      exact ⟨(funext fun x => Mem.fill_out (by simp; omega)).symm, id⟩
    · obtain ⟨n, t, st1, h0, -⟩ := copyLoop_ok hz h
      cases h0
  | succ n ih =>
    by_cases hz : rem = 0
    · subst hz
      rw [copyLoop_done] at h
      cases h
      exact ⟨(funext fun x => Mem.fill_out (by simp; omega)).symm, id⟩
    obtain ⟨n', t, st1, hn, h1, h2⟩ := copyLoop_ok hz h
    cases hn
    obtain ⟨hI1, read, data, htr, hin, hdata, hdirect, htemp⟩ := hR.ok hI hz hu h1
    have ht := (hR.length hz hu h1).1
    obtain ⟨⟨hfits, hbase, halign⟩, hrest⟩ := hp.first (toNat_pos hz)
    have hle : t.toNat ≤ rem.toNat := ht ▸ cut_le ..
    obtain ⟨hsrc, hrem⟩ := rest_toNat hle hs
    rw [← ht] at hfits halign hrest
    rw [← hsrc, ← hrem] at hrest
    obtain ⟨hmem, hall⟩ := ih hrest hI1 (by omega) (by decide) h2
    have hread := hin.mpr hfits
    have hlog := hdata hread
    rw [hbase] at hlog
    constructor
    · have hk : ∃ k, t.toNat ≤ k ∧ k ≤ rem.toNat ∧ st1.mem = st.mem.fill dest k data := by
        by_cases hu0 : u = 0
        · refine ⟨t.toNat, Nat.le_refl _, hle, ?_⟩
          rw [hdirect hu0, rx_aligned (halign.resolve_left (by simp [hu0]))]
        · exact (htemp hu0).2
      obtain ⟨k, hk1, hk2, hmem1⟩ := hk
      rw [hmem, hmem1, hsrc, hrem]
      have hfill := Mem.fill_fill (m := st.mem) (a := dest) (g := fun i => f.logical chips (src.toNat + i))
        hk1 hk2 hlog
      rw [← hfill]
      congr 1
      funext i
      rw [Nat.add_assoc]
    · intro hst
      refine hall fun r hr => ?_
      rw [htr, List.mem_append, List.mem_singleton] at hr
      rcases hr with hr | rfl
      · exact hst r hr
      · exact hread

/-- No read is taken back. -/
theorem copyLoop_transfers (hR : RoundSpec f chips b I inside round) (hI : I st)
    (hs : src.toNat + rem.toNat < 2 ^ 32) (hu : u.toNat < 64)
    (h : copyLoop round fuel src dest rem u st = .ok () st') :
    ∀ r ∈ st.transfers, r ∈ st'.transfers := by
  induction fuel generalizing src dest rem u st with
  | zero =>
    by_cases hz : rem = 0
    · subst hz
      rw [copyLoop_done] at h
      cases h
      exact fun _ => id
    · obtain ⟨n, t, st1, h0, -⟩ := copyLoop_ok hz h
      cases h0
  | succ n ih =>
    by_cases hz : rem = 0
    · subst hz
      rw [copyLoop_done] at h
      cases h
      exact fun _ => id
    obtain ⟨n', t, st1, hn, h1, h2⟩ := copyLoop_ok hz h
    cases hn
    obtain ⟨hI1, read, data, htr, -⟩ := hR.ok hI hz hu h1
    have ht := (hR.length hz hu h1).1
    have hle : t.toNat ≤ rem.toNat := ht ▸ cut_le ..
    obtain ⟨hsrc, hrem⟩ := rest_toNat hle hs
    intro r hr
    refine ih hI1 (by omega) (by decide) h2 r ?_
    rw [htr]
    exact List.mem_append_left _ hr

/-- The state of the bank registers is kept. -/
theorem copyLoop_keeps (hR : RoundSpec f chips b I inside round) (hI : I st) (hu : u.toNat < 64)
    (h : copyLoop round fuel src dest rem u st = .ok () st') : I st' := by
  induction fuel generalizing src dest rem u st with
  | zero =>
    by_cases hz : rem = 0
    · subst hz
      rw [copyLoop_done] at h
      cases h
      exact hI
    · obtain ⟨n, t, st1, h0, -⟩ := copyLoop_ok hz h
      cases h0
  | succ n ih =>
    by_cases hz : rem = 0
    · subst hz
      rw [copyLoop_done] at h
      cases h
      exact hI
    obtain ⟨n', t, st1, hn, h1, h2⟩ := copyLoop_ok hz h
    cases hn
    exact ih (hR.ok hI hz hu h1).1 (by decide) h2

/-- **A loop that copies right has cut right pieces**, where the flash tells the two chips apart and the
buffers held none of its bytes before. -/
theorem pieces_of_copyLoop (hR : RoundSpec f chips b I inside round)
    (hchips : ∀ a, f.logical chips a ≠ 0xFF)
    (hparity : ∀ a, f.logical chips (f.base a) = f.logical chips a → f.base a = a) (hI : I st)
    (hs : src.toNat + rem.toNat < 2 ^ 32) (hu : u.toNat < 64)
    (h : copyLoop round fuel src dest rem u st = .ok () st') (hall : ∀ r ∈ st'.transfers, inside r)
    (hmem : ∀ i, i < rem.toNat → st'.mem (dest + i) = f.logical chips (src.toNat + i))
    (hold : ∀ x, dest ≤ x → st.mem x = 0xFF) (htemp : u ≠ 0 → ∀ i, st.tempBuf i = 0xFF) :
    Pieces (cut f b) (Right f b) src.toNat dest rem.toNat u.toNat := by
  induction fuel generalizing src dest rem u st with
  | zero =>
    by_cases hz : rem = 0
    · subst hz
      exact .done ..
    · obtain ⟨n, t, st1, h0, -⟩ := copyLoop_ok hz h
      cases h0
  | succ n ih =>
    by_cases hz : rem = 0
    · subst hz
      exact .done ..
    obtain ⟨n', t, st1, hn, h1, h2⟩ := copyLoop_ok hz h
    cases hn
    obtain ⟨hI1, read, data, htr, hin, hdata, hdirect, hbuf⟩ := hR.ok hI hz hu h1
    have ht := (hR.length hz hu h1).1
    have hpos : 0 < t.toNat := ht ▸ cut_pos (toNat_pos hz) hu
    have hle : t.toNat ≤ rem.toNat := ht ▸ cut_le ..
    obtain ⟨hsrc, hrem⟩ := rest_toNat hle hs
    have hread : inside read := by
      refine hall read (copyLoop_transfers hR hI1 (by omega) (by decide) h2 read ?_)
      rw [htr]
      exact List.mem_append_right _ (List.mem_singleton_self _)
    -- the rest first: it leaves this piece alone
    have hrest : Pieces (cut f b) (Right f b) (src + t).toNat (dest + t.toNat) (rem - t).toNat 0 := by
      refine ih hI1 (by omega) (by decide) h2 (fun i hi => ?_) (fun x hx => ?_) (by simp)
      · rw [Nat.add_assoc, hmem _ (by omega), hsrc, Nat.add_assoc]
      · by_cases hu0 : u = 0
        · rw [hdirect hu0, rx_behind hx, hold x (by omega)]
        · obtain ⟨hjunk, k, -, -, hmem1⟩ := hbuf hu0
          rw [hmem1, Mem.fill_apply]
          split
          · rw [hjunk _ (by omega), htemp hu0]
          · exact hold x (by omega)
    have hkept : ∀ x, x < dest + t.toNat → st'.mem x = st1.mem x := by
      intro x hx
      rw [(copyLoop_right hR hrest hI1 (by omega) (by decide) h2).1, Mem.fill_out (.inl hx)]
    have halign : u.toNat ≠ 0 ∨ dest % 4 = 0 ∨ t.toNat < 8 := by
      by_contra hno
      simp only [not_or, Nat.not_lt, ne_eq, Decidable.not_not] at hno
      have hu0 : u = 0 := UInt32.toNat_inj.mp hno.1
      have hx : dest + t.toNat / 4 * 4 - 1 = dest + (t.toNat / 4 * 4 - 1) := by omega
      have hlast := hmem (t.toNat / 4 * 4 - 1) (by omega)
      rw [hkept _ (by omega), hdirect hu0, ← hx, rx_unaligned hno.2.1 hno.2.2, hold _ (by omega)] at hlast
      exact hchips _ hlast.symm
    have hfirst : st1.mem dest = data 0 := by
      by_cases hu0 : u = 0
      · rw [hdirect hu0, rx_aligned (halign.resolve_left (by simp [hu0])), Mem.fill_apply, if_pos (by omega),
          Nat.sub_self]
      · obtain ⟨-, k, hk, -, hmem1⟩ := hbuf hu0
        rw [hmem1, Mem.fill_apply, if_pos (by omega), Nat.sub_self]
    have hbase : f.base src.toNat = src.toNat := by
      have h0 := hmem 0 (toNat_pos hz)
      rw [Nat.add_zero, Nat.add_zero, hkept _ (by omega), hfirst, hdata hread 0 hpos, Nat.add_zero] at h0
      exact hparity _ h0
    rw [hsrc, hrem, ht] at hrest
    rw [ht] at halign hin
    exact .piece (toNat_pos hz) ⟨hin.mp hread, hbase, halign⟩ hrest

end Loop

end MeasuredBoot.Qspi
