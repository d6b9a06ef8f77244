import MeasuredBoot.QspiRanges

/-!
# The 24-bit QSPI copy (`XFsbl_Qspi24Copy`)

Three address bytes reach 16 MiB, the rest of the address is in the bank register of the chip, which is
written where the flash is larger and the make has a command for it. Every transfer is split at the end of
its bank.
-/

namespace MeasuredBoot.Qspi

/-! ## The source -/

def address24 (qspiAddr : UInt32) : List UInt8 :=
  [((qspiAddr &&& 0xFF0000) >>> 16).toUInt8, ((qspiAddr &&& 0xFF00) >>> 8).toUInt8,
    (qspiAddr &&& 0xFF).toUInt8]

section

variable (d : QspiPsu) (chips : Chips) (f : Flash)

def bankSize24 : UInt32 := f.scaled 0x1000000

def bankMask24 : UInt32 := f.scaled 0xFF000000

/-- The bank, where the flash has more than one. -/
def selectBank (qspiAddr : UInt32) : Spi Unit :=
  if f.qspiFlashSize > bankSize24 f then sendBankSelect d f (qspiAddr / 0x1000000) else pure ()

/-- A round of the loop. It copies the whole 64-byte part from `TempBuf`, also where the bank ends before. -/
def qspi24Round (srcAddress : UInt32) (destAddress : Nat) (remainingBytes unalignedBytes : UInt32) :
    Spi UInt32 := do
  let p := alignTransfer unalignedBytes (limitTransfer remainingBytes)
  let qspiAddr ← xfsblGetQspiAddr f srcAddress
  selectBank d f qspiAddr
  let transferBytes := bankTransfer (bankSize24 f) (bankMask24 f) (f.scaled qspiAddr) p.2
  readData d chips f qspiAddr (address24 qspiAddr) (destOf p.1 destAddress) transferBytes
  memCpyTemp p.1 destAddress p.1
  return transferBytes

-- `BankSwitchFlag` is never set, so no bank is selected behind the loop.
def xfsblQspi24Copy (srcAddress : UInt32) (destAddress : Nat) (length : UInt32) : Spi Unit :=
  checkedCopy f (qspi24Round d chips f) srcAddress destAddress length

end

/-! ## The controller -/

/-- The bank register of each selected chip holds `b`. -/
def Banked (banks : UInt8 × UInt8) (b : Nat) : Cs → Prop
  | .lower => banks.1.toNat = b
  | .upper => banks.2.toNat = b
  | .both => banks.1.toNat = b ∧ banks.2.toNat = b

/-- A read with three address bytes gives the bytes of the selected bank, inside it and the chip. -/
structure Reads24 (f : Flash) (d : QspiPsu) : Prop where
  read {chips : Chips} {cs : Cs} {banks : UInt8 × UInt8} {address : List UInt8} {b n : Nat} :
    address.length = 3 → Banked banks b cs → beNat address + cs.share n ≤ 2 ^ 24 →
    b * 2 ^ 24 + beNat address + cs.share n ≤ f.chip →
    ∀ i, i < n → d.rxBytes chips cs banks address n i = chips.byte cs (b * 2 ^ 24 + beNat address) i

/-- The read stays in its chip and bank, and the bank is selected. -/
def Inside24 (f : Flash) (r : Transfer) : Prop :=
  r.qspiAddr.toNat + r.cs.share r.bytes.toNat ≤ f.chip ∧
    r.qspiAddr.toNat % 2 ^ 24 + r.cs.share r.bytes.toNat ≤ 2 ^ 24 ∧
    Banked r.banks (r.qspiAddr.toNat / 2 ^ 24) r.cs

theorem beNat_address24 (a : UInt32) : beNat (address24 a) = a.toNat % 2 ^ 24 := by
  have h16 : ((a &&& 0xFF0000) >>> 16).toUInt8.toNat = a.toNat / 2 ^ 16 % 256 :=
    toNat_byte a (k := 16) (by decide) (by decide)
  have h8 : ((a &&& 0xFF00) >>> 8).toUInt8.toNat = a.toNat / 2 ^ 8 % 256 :=
    toNat_byte a (k := 8) (by decide) (by decide)
  simp only [beNat, address24, List.foldl_cons, List.foldl_nil, h16, h8, toNat_lowByte]
  omega

theorem reads24_chipPsu (f : Flash) : Reads24 f chipPsu where
  read {chips cs banks address b n} h hb _ _ i _ := by
    simp only [chipPsu, h, if_true]
    cases cs with
    | lower => rw [show banks.1.toNat = b from hb]
    | upper => rw [show banks.2.toNat = b from hb]
    | both => rw [hb.1]

/-! ## A round -/

/-- The bank is selected. -/
def selects (f : Flash) : Bool := decide (f.qspiFlashSize > bankSize24 f) && f.flashMake.banked

/-- Every transfer is split at its bank. -/
def banks24 (f : Flash) : Banks := ⟨2 ^ 24, true, selects f, .inl rfl, .inr ⟨rfl, rfl⟩⟩

/-- The bank registers are as after the reset, unless the copies select banks. -/
def BanksReset (f : Flash) (s : QspiState) : Prop := selects f = true ∨ s.banks = (0, 0)

variable {d : QspiPsu} {chips : Chips} {f : Flash}

theorem selectBank_ok {qspiAddr : UInt32} {s t : QspiState} {u : Unit}
    (h : selectBank d f qspiAddr s = .ok u t) :
    ∃ k, t = (if selects f then writeBank (qspiAddr / 0x1000000).toUInt8 s else s).asked k := by
  unfold selectBank at h
  unfold selects
  split at h
  next hsize =>
    rw [decide_eq_true hsize, Bool.true_and]
    exact sendBankSelect_ok h
  next hsize =>
    rw [decide_eq_false hsize, Bool.false_and]
    exact ⟨s.calls, (Prog.pure_ok.1 h).2.symm⟩

/-- The length of the transfer of a round. -/
def length24 (f : Flash) (src rem u : UInt32) : UInt32 :=
  bankTransfer (bankSize24 f) (bankMask24 f) (f.scaled (f.translate src).2)
    (alignTransfer u (limitTransfer rem)).2

theorem toNat_length24 {src rem u : UInt32} (hrem : rem ≠ 0) (hu : u.toNat < 64) :
    (length24 f src rem u).toNat = cut f (banks24 f) src.toNat rem.toNat u.toNat := by
  have hal := (toNat_aligned hrem hu).1
  have hle := (aligned_le rem.toNat u.toNat).2
  have hmul := width_mul_chipAddr f src.toNat
  have hsrc := src.toNat_lt
  rw [length24, cut, if_pos (show (banks24 f).splits = true from rfl), bankSize24, bankMask24]
  rw [toNat_split (.inl rfl) rfl rfl (by rw [f.toNat_translate]; omega) (by omega), hal, room, f.toNat_translate]
  rfl

/-- The state in which a round reads. -/
def selected (f : Flash) (src : UInt32) (s : QspiState) : QspiState :=
  let s := { s with cs := (f.translate src).1 }
  if selects f then writeBank ((f.translate src).2 / 0x1000000).toUInt8 s else s

/-- What a round leaves. -/
theorem qspi24Round_ok {src rem u t : UInt32} {dest : Nat} {st st' : QspiState}
    (h : qspi24Round d chips f src dest rem u st = .ok t st') :
    t = length24 f src rem u ∧ length24 f src rem u ≤ xqspipsuDmaBytesMax ∧ ∃ s,
      s = received d chips (f.translate src).2 (address24 (f.translate src).2)
        (destOf (alignTransfer u (limitTransfer rem)).1 dest) (length24 f src rem u) (selected f src st) ∧
      st'.transfers = s.transfers ∧ st'.banks = s.banks ∧ st'.mem =
        if (alignTransfer u (limitTransfer rem)).1 ≠ 0 then
          s.mem.fill dest (alignTransfer u (limitTransfer rem)).1.toNat s.tempBuf
        else s.mem := by
  obtain ⟨qspiAddr, s1, h1, h⟩ := Prog.bind_ok.1 h
  obtain ⟨rfl, rfl⟩ := xfsblGetQspiAddr_ok h1
  obtain ⟨_, s2, h2, h⟩ := Prog.bind_ok.1 h
  obtain ⟨k2, rfl⟩ := selectBank_ok h2
  obtain ⟨_, s3, h3, h⟩ := Prog.bind_ok.1 h
  obtain ⟨hmax, k, rfl⟩ := readData_ok h3
  obtain ⟨_, s4, h4, h⟩ := Prog.bind_ok.1 h
  obtain ⟨rfl, rfl⟩ := Prog.pure_ok.1 h
  rw [memCpyTemp_ok h4, received_asked]
  refine ⟨rfl, hmax, _, rfl, ?_, ?_, ?_⟩ <;> split <;> rfl

@[simp] theorem selected_cs (f : Flash) (src : UInt32) (s : QspiState) :
    (selected f src s).cs = (f.translate src).1 := by
  unfold selected writeBank
  split
  · cases (f.translate src).1 <;> rfl
  · rfl

@[simp] theorem selected_buffers (f : Flash) (src : UInt32) (s : QspiState) :
    (selected f src s).mem = s.mem ∧ (selected f src s).tempBuf = s.tempBuf ∧
      (selected f src s).transfers = s.transfers := by
  unfold selected writeBank
  split
  · cases (f.translate src).1 <;> exact ⟨rfl, rfl, rfl⟩
  · exact ⟨rfl, rfl, rfl⟩

theorem banksReset_selected {s : QspiState} (h : BanksReset f s) (src : UInt32) :
    BanksReset f (selected f src s) := by
  by_cases hsel : selects f = true
  · exact .inl hsel
  · refine .inr ?_
    simpa [selected, hsel] using h.resolve_left hsel

/-- A bank that was written is the one selected, else it is the first. -/
theorem banked_selected {s : QspiState} (h : BanksReset f s) (src : UInt32) :
    Banked (selected f src s).banks (f.chipAddr src.toNat / 2 ^ 24) (f.translate src).1 ↔
      selects f = true ∨ f.chipAddr src.toNat < 2 ^ 24 := by
  by_cases hsel : selects f = true
  · refine iff_of_true ?_ (.inl hsel)
    have hlt := (f.translate src).2.toNat_lt
    have hbank : ((f.translate src).2 / 0x1000000).toUInt8.toNat = f.chipAddr src.toNat / 2 ^ 24 := by
      rw [UInt32.toNat_toUInt8, UInt32.toNat_div, f.toNat_translate]
      rw [f.toNat_translate] at hlt
      exact Nat.mod_eq_of_lt (show f.chipAddr src.toNat / 0x1000000 < 2 ^ 8 by omega)
    rw [selected, if_pos hsel, writeBank]
    cases (f.translate src).1 with
    | lower => exact hbank
    | upper => exact hbank
    | both => exact ⟨hbank, hbank⟩
  · rw [or_iff_right hsel, selected, if_neg hsel]
    simp only [h.resolve_left hsel]
    cases (f.translate src).1 <;> simp [Banked] <;> omega

/-- A round that selects its bank stays in it. -/
theorem inside24_iff {src rem u : UInt32} (hrem : rem ≠ 0) (hu : u.toNat < 64) {st : QspiState}
    (hI : BanksReset f st) (address : List UInt8) :
    Inside24 f ⟨(f.translate src).1, (selected f src st).banks, (f.translate src).2, address,
        length24 f src rem u⟩ ↔ Fits f (banks24 f) src.toNat (length24 f src rem u).toNat := by
  unfold Inside24 Fits
  simp only [share_translate, f.toNat_translate, banked_selected hI]
  refine and_congr_right fun _ => and_iff_right ?_
  rw [toNat_length24 hrem hu]
  exact perChip_cut (f := f) (b := banks24 f) rfl ..

theorem received_banks (address : List UInt8) (qspiAddr n : UInt32) (dest : Option Nat) (s : QspiState) :
    (received d chips qspiAddr address dest n s).banks = s.banks := by
  cases dest <;> rfl

/-- No transfer is longer than before it is split. -/
theorem cut_le_aligned (f : Flash) (b : Banks) (s n u : Nat) : cut f b s n u ≤ aligned n u := by
  unfold cut
  split
  · exact Nat.min_le_left ..
  · exact Nat.le_refl _

theorem roundEnds24 : RoundEnds f (banks24 f) (qspi24Round d chips f) where
  length hrem hu h := by
    obtain ⟨rfl, hmax, -⟩ := qspi24Round_ok h
    exact ⟨toNat_length24 hrem hu, UInt32.le_iff_toNat_le.mp hmax⟩
  raises src rem u dest :=
    Prog.raises_bind (coded_getQspiAddr f src) fun _ =>
      Prog.raises_bind (Prog.raises_ite (fun _ => coded_sendBankSelect d f _) fun _ => Prog.raises_pure _)
        fun _ => Prog.raises_bind (coded_readData d chips f _ _ _ _) fun _ =>
          Prog.raises_bind Prog.raises_modify fun _ => Prog.raises_pure _

theorem roundSpec24 (hd : Reads24 f d) :
    RoundSpec f chips (banks24 f) (BanksReset f) (Inside24 f) (qspi24Round d chips f) where
  toRoundEnds := roundEnds24
  ok := by
    intro src rem u t dest st st' hI hrem hu h
    obtain ⟨rfl, -, s, rfl, htr, hbanks, hmem⟩ := qspi24Round_ok h
    obtain ⟨halign, hp1, hp2⟩ := toNat_aligned hrem hu
    have hcut : (length24 f src rem u).toNat = cut f (banks24 f) src.toNat rem.toNat u.toNat :=
      toNat_length24 hrem hu
    obtain ⟨hsmem, hstemp, hstr⟩ := selected_buffers f src st
    have hdata : Inside24 f ⟨(f.translate src).1, (selected f src st).banks, (f.translate src).2,
        address24 (f.translate src).2, length24 f src rem u⟩ → ∀ i, i < (length24 f src rem u).toNat →
        d.rxBytes chips (f.translate src).1 (selected f src st).banks (address24 (f.translate src).2)
          (length24 f src rem u).toNat i = f.logical chips (f.base src.toNat + i) := by
      rintro ⟨hin, hbank, hsel⟩ i hi
      have haddr : f.chipAddr src.toNat / 2 ^ 24 * 2 ^ 24 + f.chipAddr src.toNat % 2 ^ 24 =
          f.chipAddr src.toNat := Nat.div_add_mod' ..
      simp only [share_translate, f.toNat_translate] at hin hbank hsel
      rw [hd.read rfl hsel ?_ ?_ i hi, beNat_address24, f.toNat_translate, haddr,
        f.byte_translate chips hi hin]
      · rw [beNat_address24, share_translate, f.toNat_translate]
        exact hbank
      · rw [beNat_address24, share_translate, f.toNat_translate, haddr]
        exact hin
    have hI' : BanksReset f st' := by
      have hkept : st'.banks = (selected f src st).banks := by
        rw [hbanks, received_banks]
      exact (banksReset_selected hI src).imp_right fun h0 => hkept.trans h0
    refine ⟨hI', ?_⟩
    by_cases hu0 : u = 0
    · rw [hp1.mpr hu0] at htr hmem
      rw [destOf, if_neg (by simp)] at htr hmem
      simp only [received, selected_cs, hsmem, hstr] at htr hmem
      exact ⟨_, _, htr, inside24_iff hrem hu hI _, hdata, fun _ => hmem, fun h => absurd hu0 h⟩
    · have hz := mt hp1.mp hu0
      rw [if_pos hz] at hmem
      rw [destOf, if_pos hz] at htr hmem
      have htemp := received_temp d chips (f.translate src).2 (length24 f src rem u)
        (address24 (f.translate src).2) (selected f src st)
      rw [htemp, selected_cs, hstemp] at hmem
      simp only [received, selected_cs, hsmem, hstr] at htr hmem
      refine ⟨_, _, htr, inside24_iff hrem hu hI _, fun hin i hi => ?_, fun h => absurd h hu0,
        fun _ => ⟨fun i hi => ?_, _, ?_, ?_, hmem⟩⟩
      · rw [Mem.fill_apply, if_pos (by omega)]
        exact hdata hin i hi
      · exact Mem.fill_out (.inr (by omega))
      · rw [hp2 hu0, halign, hcut]
        exact cut_le_aligned ..
      · rw [hp2 hu0, halign]
        exact (aligned_le ..).1

/-- A round that asks for no more than the driver reads. -/
theorem qspi24Round_runs (hd : Willing d) {src rem u : UInt32} (dest : Nat) (st : QspiState) (hrem : rem ≠ 0)
    (hu : u.toNat < 64) (hcut : cut f (banks24 f) src.toNat rem.toNat u.toNat ≤ 2 ^ 28) :
    ∃ t st', qspi24Round d chips f src dest rem u st = .ok t st' := by
  rw [← toNat_length24 hrem hu] at hcut
  have hlt := (f.translate src).2.toNat_lt
  have hbank : ((f.translate src).2 / 0x1000000).toNat < 256 := by
    rw [UInt32.toNat_div]
    exact show (f.translate src).2.toNat / 0x1000000 < 256 by omega
  obtain ⟨s, hs⟩ : ∃ s, selectBank d f (f.translate src).2 { st with cs := (f.translate src).1 } = .ok () s := by
    unfold selectBank
    split
    · exact hd.sendBankSelect hbank _
    · exact ⟨_, rfl⟩
  obtain ⟨s', hs'⟩ := @Willing.readData d chips f hd _ (UInt32.le_iff_toNat_le.mpr hcut)
    (f.translate src).2 (address24 (f.translate src).2)
    (destOf (alignTransfer u (limitTransfer rem)).1 dest) s
  exact ⟨_, _, Prog.bind_ok.2 ⟨_, _, rfl, Prog.bind_ok.2 ⟨_, _, hs, Prog.bind_ok.2 ⟨_, _, hs',
    Prog.bind_ok.2 ⟨_, _, rfl, rfl⟩⟩⟩⟩⟩

/-! ## The copy -/

/-- The next copy finds the banks as this one did. -/
theorem xfsblQspi24Copy_keeps {srcAddress length : UInt32} {destAddress : Nat} {st st' : QspiState}
    (hd : Reads24 f d) (hI : BanksReset f st)
    (h : xfsblQspi24Copy d chips f srcAddress destAddress length st = .ok () st') : BanksReset f st' :=
  checkedCopy_keeps (roundSpec24 hd) hI h

/-- Whatever the controller answers, a copy ends, and one that succeeds is right. -/
def Copies24 (f : Flash) (srcAddress : UInt32) (destAddress : Nat) (length : UInt32) : Prop :=
  ∀ d chips st, Reads24 f d → BanksReset f st → st.transfers = [] →
    (∀ st', xfsblQspi24Copy d chips f srcAddress destAddress length st ≠ .error .outOfFuel st') ∧
      ∀ st', xfsblQspi24Copy d chips f srcAddress destAddress length st = .ok () st' →
        Copied f chips (Inside24 f) srcAddress destAddress length st st'

theorem checkedCopy24_iff {srcAddress length : UInt32} {destAddress : Nat} :
    (∀ d chips st st', Reads24 f d → BanksReset f st → st.transfers = [] →
      checkedCopy f (qspi24Round d chips f) srcAddress destAddress length st = .ok () st' →
      Copied f chips (Inside24 f) srcAddress destAddress length st st') ↔
      CopyRange f (banks24 f) srcAddress destAddress length :=
  checkedCopy_iff (fun _ _ => roundSpec24)
    ⟨chipPsu, reads24_chipPsu f, fun _ _ _ _ dest st => qspi24Round_runs willing_chipPsu dest st⟩
    ⟨.lower, (0, 0), .inr rfl⟩

/-- For every flash, source, destination and length. -/
theorem copies24_iff (f : Flash) (srcAddress : UInt32) (destAddress : Nat) (length : UInt32) :
    Copies24 f srcAddress destAddress length ↔ CopyRange f (banks24 f) srcAddress destAddress length := by
  rw [← checkedCopy24_iff]
  exact ⟨fun h d chips st st' hd hI hst => (h d chips st hd hI hst).2 st',
    fun h d chips st hd hI hst => ⟨fun _ => checkedCopy_ends roundEnds24, fun st' => h d chips st st' hd hI hst⟩⟩

/-- One chip of 32 MiB. -/
def twoBankFlash : Flash where
  connectionMode := .single
  flashMake := .micron
  busWidth := xfsblQspiBusWidthFour
  multiDie := false
  chipSize := 0x2000000
  supported := by decide

/-- 16 bytes over the end of the first bank: behind its two last bytes the destination is not at a word. -/
theorem not_copies24 :
    ¬ ∀ (f : Flash) (srcAddress : UInt32) (destAddress : Nat) (length : UInt32),
      Copies24 f srcAddress destAddress length := by
  intro h
  have hrange := checkedCopy24_iff.mp fun d chips st st' hd hI hst =>
    (h twoBankFlash 0xFFFFFE 0 16 d chips st hd hI hst).2 st'
  rcases hrange with hcheck | hlight | ⟨-, hzero | ⟨-, hword, -⟩⟩
  · exact absurd hcheck (by decide)
  · exact hlight (.inl rfl)
  · exact absurd hzero (by decide)
  · exact absurd (hword rfl) (by decide)

end MeasuredBoot.Qspi
