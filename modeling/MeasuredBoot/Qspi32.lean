import MeasuredBoot.QspiRanges

/-!
# The 32-bit QSPI copy (`XFsbl_Qspi32Copy`)

Four address bytes reach the whole chip. A transfer is split at the dies of a chip with several of them,
else only at the 64 bytes of the destination.
-/

namespace MeasuredBoot.Qspi

/-! ## The source -/

def address32 (qspiAddr : UInt32) : List UInt8 :=
  [((qspiAddr &&& 0xFF000000) >>> 24).toUInt8, ((qspiAddr &&& 0xFF0000) >>> 16).toUInt8,
    ((qspiAddr &&& 0xFF00) >>> 8).toUInt8, (qspiAddr &&& 0xFF).toUInt8]

section

variable (d : QspiPsu) (chips : Chips) (f : Flash)

def bankSize32 : UInt32 := f.scaled (if f.multiDie then 0x4000000 else 0x1000000)

def bankMask32 : UInt32 := f.scaled (if f.multiDie then 0xFC000000 else 0xFF000000)

/-- A round of the loop. -/
def qspi32Round (srcAddress : UInt32) (destAddress : Nat) (remainingBytes unalignedBytes : UInt32) :
    Spi UInt32 := do
  let p := alignTransfer unalignedBytes (limitTransfer remainingBytes)
  let qspiAddr ← xfsblGetQspiAddr f srcAddress
  let transferBytes :=
    if f.multiDie then bankTransfer (bankSize32 f) (bankMask32 f) (f.scaled qspiAddr) p.2 else p.2
  readData d chips f qspiAddr (address32 qspiAddr) (destOf p.1 destAddress) transferBytes
  memCpyTemp p.1 destAddress transferBytes
  return transferBytes

def xfsblQspi32Copy (srcAddress : UInt32) (destAddress : Nat) (length : UInt32) : Spi Unit :=
  checkedCopy f (qspi32Round d chips f) srcAddress destAddress length

end

/-! ## The controller -/

/-- A read with four address bytes gives the bytes of the chip, inside it and its die. -/
structure Reads32 (f : Flash) (d : QspiPsu) : Prop where
  read {chips : Chips} {cs : Cs} {banks : UInt8 × UInt8} {address : List UInt8} {n : Nat} :
    address.length = 4 → beNat address + cs.share n ≤ f.chip →
    (f.multiDie → beNat address % 2 ^ 26 + cs.share n ≤ 2 ^ 26) →
    ∀ i, i < n → d.rxBytes chips cs banks address n i = chips.byte cs (beNat address) i

/-- The read stays in its chip and die. -/
def Inside32 (f : Flash) (r : Transfer) : Prop :=
  r.qspiAddr.toNat + r.cs.share r.bytes.toNat ≤ f.chip ∧
    (f.multiDie → r.qspiAddr.toNat % 2 ^ 26 + r.cs.share r.bytes.toNat ≤ 2 ^ 26)

theorem beNat_address32 (a : UInt32) : beNat (address32 a) = a.toNat := by
  have h24 : ((a &&& 0xFF000000) >>> 24).toUInt8.toNat = a.toNat / 2 ^ 24 % 256 :=
    toNat_byte a (k := 24) (by decide) (by decide)
  have h16 : ((a &&& 0xFF0000) >>> 16).toUInt8.toNat = a.toNat / 2 ^ 16 % 256 :=
    toNat_byte a (k := 16) (by decide) (by decide)
  have h8 : ((a &&& 0xFF00) >>> 8).toUInt8.toNat = a.toNat / 2 ^ 8 % 256 :=
    toNat_byte a (k := 8) (by decide) (by decide)
  have ha := a.toNat_lt
  simp only [beNat, address32, List.foldl_cons, List.foldl_nil, h24, h16, h8, toNat_lowByte]
  omega

/-! ## A round -/

/-- Dies are split, chips have no banks. -/
def banks32 (f : Flash) : Banks := ⟨2 ^ 26, f.multiDie, true, .inr rfl, .inl rfl⟩

variable {d : QspiPsu} {chips : Chips} {f : Flash}

theorem toNat_bankSize32 (hm : f.multiDie = true) :
    bankSize32 f = f.scaled 0x4000000 ∧ bankMask32 f = f.scaled 0xFC000000 := by
  simp [bankSize32, bankMask32, hm]

/-- The length of the transfer of a round. -/
def length32 (f : Flash) (src rem u : UInt32) : UInt32 :=
  if f.multiDie then
    bankTransfer (bankSize32 f) (bankMask32 f) (f.scaled (f.translate src).2)
      (alignTransfer u (limitTransfer rem)).2
  else (alignTransfer u (limitTransfer rem)).2

theorem toNat_length32 {src rem u : UInt32} (hrem : rem ≠ 0) (hu : u.toNat < 64) :
    (length32 f src rem u).toNat = cut f (banks32 f) src.toNat rem.toNat u.toNat := by
  have hal := (toNat_aligned hrem hu).1
  have hle := (aligned_le rem.toNat u.toNat).2
  unfold length32 cut
  cases hm : f.multiDie with
  | false => simpa [banks32, hm] using hal
  | true =>
    obtain ⟨hs, hk⟩ := toNat_bankSize32 hm
    have hmul := width_mul_chipAddr f src.toNat
    have hsrc := src.toNat_lt
    simp only [banks32, hm, if_true]
    rw [hs, hk, toNat_split (.inr rfl) rfl rfl (by rw [f.toNat_translate]; omega) (by omega), hal, room,
      f.toNat_translate]

/-- What a round leaves. -/
theorem qspi32Round_ok {src rem u t : UInt32} {dest : Nat} {st st' : QspiState}
    (h : qspi32Round d chips f src dest rem u st = .ok t st') :
    t = length32 f src rem u ∧ length32 f src rem u ≤ xqspipsuDmaBytesMax ∧ ∃ s,
      s = received d chips (f.translate src).2 (address32 (f.translate src).2)
        (destOf (alignTransfer u (limitTransfer rem)).1 dest) (length32 f src rem u)
        { st with cs := (f.translate src).1 } ∧
      st'.transfers = s.transfers ∧ st'.mem =
        if (alignTransfer u (limitTransfer rem)).1 ≠ 0 then s.mem.fill dest (length32 f src rem u).toNat s.tempBuf
        else s.mem := by
  obtain ⟨qspiAddr, s1, h1, h⟩ := Prog.bind_ok.1 h
  obtain ⟨rfl, rfl⟩ := xfsblGetQspiAddr_ok h1
  obtain ⟨_, s2, h2, h⟩ := Prog.bind_ok.1 h
  obtain ⟨hmax, k, rfl⟩ := readData_ok h2
  obtain ⟨_, s3, h3, h⟩ := Prog.bind_ok.1 h
  obtain ⟨rfl, rfl⟩ := Prog.pure_ok.1 h
  rw [memCpyTemp_ok h3]
  refine ⟨rfl, hmax, _, rfl, ?_, ?_⟩ <;> split <;> rfl

/-- Dies are looked at where there are some. -/
theorem inside32_iff {src rem u : UInt32} (hrem : rem ≠ 0) (hu : u.toNat < 64)
    (banks : UInt8 × UInt8) (address : List UInt8) :
    Inside32 f ⟨(f.translate src).1, banks, (f.translate src).2, address, length32 f src rem u⟩ ↔
      Fits f (banks32 f) src.toNat (length32 f src rem u).toNat := by
  unfold Inside32 Fits
  simp only [share_translate, f.toNat_translate]
  refine and_congr_right fun _ => iff_of_true (fun hm => ?_) (.inl rfl)
  rw [toNat_length32 hrem hu]
  exact perChip_cut (f := f) (b := banks32 f) hm ..

theorem roundEnds32 : RoundEnds f (banks32 f) (qspi32Round d chips f) where
  length hrem hu h := by
    obtain ⟨rfl, hmax, -⟩ := qspi32Round_ok h
    exact ⟨toNat_length32 hrem hu, UInt32.le_iff_toNat_le.mp hmax⟩
  raises src rem u dest :=
    Prog.raises_bind (coded_getQspiAddr f src) fun _ => Prog.raises_bind (coded_readData d chips f _ _ _ _) fun _ =>
      Prog.raises_bind Prog.raises_modify fun _ => Prog.raises_pure _

theorem roundSpec32 (hd : Reads32 f d) :
    RoundSpec f chips (banks32 f) (fun _ => True) (Inside32 f) (qspi32Round d chips f) where
  toRoundEnds := roundEnds32
  ok := by
    intro src rem u t dest st st' _ hrem hu h
    obtain ⟨rfl, -, s, rfl, htr, hmem⟩ := qspi32Round_ok h
    obtain ⟨-, hp1, hp2⟩ := toNat_aligned hrem hu
    have hcut : (length32 f src rem u).toNat = cut f (banks32 f) src.toNat rem.toNat u.toNat :=
      toNat_length32 hrem hu
    have hdata : ∀ banks, Inside32 f ⟨(f.translate src).1, banks, (f.translate src).2,
        address32 (f.translate src).2, length32 f src rem u⟩ → ∀ i, i < (length32 f src rem u).toNat →
        d.rxBytes chips (f.translate src).1 banks (address32 (f.translate src).2)
          (length32 f src rem u).toNat i = f.logical chips (f.base src.toNat + i) := by
      rintro banks ⟨hin, hdie⟩ i hi
      rw [share_translate, f.toNat_translate] at hin
      rw [hd.read rfl ?_ ?_ i hi, beNat_address32, f.toNat_translate, f.byte_translate chips hi hin]
      · rw [beNat_address32, share_translate, f.toNat_translate]
        exact hin
      · rw [beNat_address32]
        exact hdie
    refine ⟨trivial, ?_⟩
    by_cases hu0 : u = 0
    · rw [hp1.mpr hu0] at htr hmem
      exact ⟨_, _, htr, inside32_iff hrem hu .., hdata st.banks, fun _ => hmem, fun h => absurd hu0 h⟩
    · have hz := mt hp1.mp hu0
      rw [if_pos hz] at hmem
      rw [destOf, if_pos hz] at htr hmem
      have htemp := received_temp d chips (f.translate src).2 (length32 f src rem u)
        (address32 (f.translate src).2) { st with cs := (f.translate src).1 }
      rw [htemp] at hmem
      refine ⟨_, _, htr, inside32_iff hrem hu .., fun hin i hi => ?_, fun h => absurd h hu0,
        fun _ => ⟨fun i hi => ?_, _, Nat.le_refl _, hcut ▸ cut_le .., hmem⟩⟩
      · rw [Mem.fill_apply, if_pos (by omega)]
        exact hdata st.banks hin i hi
      · exact Mem.fill_out (.inr (by omega))

theorem reads32_chipPsu (f : Flash) : Reads32 f chipPsu where
  read h _ _ i _ := by
    simp only [chipPsu, h, Nat.reduceEqDiff, if_false, Nat.zero_add]

/-- A round that asks for no more than the driver reads. -/
theorem qspi32Round_runs (hd : Willing d) {src rem u : UInt32} (dest : Nat) (st : QspiState) (hrem : rem ≠ 0)
    (hu : u.toNat < 64) (hcut : cut f (banks32 f) src.toNat rem.toNat u.toNat ≤ 2 ^ 28) :
    ∃ t st', qspi32Round d chips f src dest rem u st = .ok t st' := by
  rw [← toNat_length32 hrem hu] at hcut
  obtain ⟨s, hs⟩ := @Willing.readData d chips f hd _ (UInt32.le_iff_toNat_le.mpr hcut)
    (f.translate src).2 (address32 (f.translate src).2)
    (destOf (alignTransfer u (limitTransfer rem)).1 dest) { st with cs := (f.translate src).1 }
  exact ⟨_, _, Prog.bind_ok.2 ⟨_, _, rfl, Prog.bind_ok.2 ⟨_, _, hs, Prog.bind_ok.2 ⟨_, _, rfl, rfl⟩⟩⟩⟩

/-! ## The copy -/

theorem xfsblQspi32Copy_ends {srcAddress length : UInt32} {destAddress : Nat} {st st' : QspiState} :
    xfsblQspi32Copy d chips f srcAddress destAddress length st ≠ .error .outOfFuel st' :=
  checkedCopy_ends roundEnds32

/-- Whatever the controller answers, a copy that succeeds is right. -/
def Copies32 (f : Flash) (srcAddress : UInt32) (destAddress : Nat) (length : UInt32) : Prop :=
  ∀ d chips st st', Reads32 f d → st.transfers = [] →
    xfsblQspi32Copy d chips f srcAddress destAddress length st = .ok () st' →
    Copied f chips (Inside32 f) srcAddress destAddress length st st'

theorem checkedCopy32_iff {srcAddress length : UInt32} {destAddress : Nat} :
    (∀ d chips st st', Reads32 f d → True → st.transfers = [] →
      checkedCopy f (qspi32Round d chips f) srcAddress destAddress length st = .ok () st' →
      Copied f chips (Inside32 f) srcAddress destAddress length st st') ↔
      CopyRange f (banks32 f) srcAddress destAddress length :=
  checkedCopy_iff (I := fun _ => True) (fun _ _ => roundSpec32)
    ⟨chipPsu, reads32_chipPsu f, fun _ _ _ _ dest st => qspi32Round_runs willing_chipPsu dest st⟩
    ⟨.lower, (0, 0), trivial⟩

/-- For every flash, source, destination and length. -/
theorem copies32_iff (f : Flash) (srcAddress : UInt32) (destAddress : Nat) (length : UInt32) :
    Copies32 f srcAddress destAddress length ↔ CopyRange f (banks32 f) srcAddress destAddress length := by
  rw [← checkedCopy32_iff]
  exact ⟨fun h d chips st st' hd _ => h d chips st st' hd, fun h d chips st st' hd => h d chips st st' hd trivial⟩

/-- Two stacked chips of 64 MiB. -/
def stackedFlash : Flash where
  connectionMode := .stacked
  flashMake := .micron
  busWidth := xfsblQspiBusWidthFour
  multiDie := false
  chipSize := 0x4000000
  supported := by decide

/-- 512 bytes over the end of the lower chip are read from it in one transfer. -/
theorem not_copies32 :
    ¬ ∀ (f : Flash) (srcAddress : UInt32) (destAddress : Nat) (length : UInt32),
      Copies32 f srcAddress destAddress length := by
  intro h
  have hrange := checkedCopy32_iff.mp fun d chips st st' hd _ =>
    h stackedFlash 0x3FFFF00 0 0x200 d chips st st' hd
  rcases hrange with hcheck | hlight | ⟨-, hzero | ⟨hchip, -⟩⟩
  · exact absurd hcheck (by decide)
  · exact hlight (.inr (by decide))
  · exact absurd hzero (by decide)
  · rcases hchip with ⟨hsplit, -⟩ | hlow | hup | ⟨hu, -⟩
    · exact absurd hsplit (by decide)
    · exact absurd hlow (by decide)
    · exact absurd hup (by decide)
    · exact absurd rfl hu

end MeasuredBoot.Qspi
