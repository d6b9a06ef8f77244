import MeasuredBoot.PartitionActs
import MeasuredBoot.Lib.Polls
import MeasuredBoot.Lib.Regions
import Mathlib.Data.UInt
import Mathlib.Logic.Function.Basic

/-!
# `XFsbl_EccInit` at the registers

The loop programs a channel of the DMA engine with the address and the length of a transfer and waits until
it is done. The address of a destination has 49 bits in the registers of the channel: `eccInit_tiles`
says which transfers are started for any address and length, and when they are the bytes asked for.
-/

namespace MeasuredBoot.Zdma

open Prog

/-! ## The channel -/

def status : UInt32 := 0xFFA8011C
def statusStateMask : UInt32 := 0x00000003
def statusStateDone : UInt32 := 0x00000000
def statusStateErr : UInt32 := 0x00000003
def ctrl0 : UInt32 := 0xFFA80110
def ctrl0PointTypeMask : UInt32 := 0x00000040
def ctrl0PointTypeNormal : UInt32 := 0x00000000
def ctrl0ModeMask : UInt32 := 0x00000030
def ctrl0ModeWrOnly : UInt32 := 0x00000010
def ctrl0TotalByteCount : UInt32 := 0xFFA80188
def wrOnlyWord0 : UInt32 := 0xFFA80148
def wrOnlyWord1 : UInt32 := 0xFFA8014C
def wrOnlyWord2 : UInt32 := 0xFFA80150
def wrOnlyWord3 : UInt32 := 0xFFA80154
def dstDscrWord0 : UInt32 := 0xFFA80138
def dstDscrWord0LsbMask : UInt64 := 0xFFFFFFFF
def dstDscrWord1 : UInt32 := 0xFFA8013C
def dstDscrWord1MsbMask : UInt64 := 0x0001FFFF
def srcDscrWord2 : UInt32 := 0xFFA80130
def dstDscrWord2 : UInt32 := 0xFFA80140
def ctrl2 : UInt32 := 0xFFA80200
def ctrl2EnMask : UInt32 := 0x00000001
def isr : UInt32 := 0xFFA80100
def isrDmaDoneMask : UInt32 := 0x00000400

/-- `ADMA_CH0`: how often it was read, what was written to its registers, and the transfers it was started
with, each an address and a length. -/
structure Channel where
  reads : Nat
  regs : UInt32 → UInt32
  started : List (Nat × Nat)

/-- The transfer the descriptor registers describe. -/
def Channel.transfer (c : Channel) : Nat × Nat :=
  ((c.regs dstDscrWord1).toNat * 2 ^ 32 + (c.regs dstDscrWord0).toNat, (c.regs dstDscrWord2).toNat)

/-- A write; the one that enables the channel starts a transfer. -/
def Channel.write (c : Channel) (reg value : UInt32) : Channel :=
  let c' := { c with regs := Function.update c.regs reg value }
  if reg = ctrl2 ∧ value &&& ctrl2EnMask ≠ 0 then { c' with started := c.started ++ [c'.transfer] } else c'

/-- What the engine answers to the `n`-th read, by the register. -/
structure Engine where
  answer : Nat → UInt32 → UInt32

inductive Stop where
  | status (code : UInt32)
  | outOfPolls

abbrev Dma := EStateM Stop Channel

section Source

variable (hw : Engine)

def in32 (reg : UInt32) : Dma UInt32 := fun c =>
  .ok (hw.answer c.reads reg) { c with reads := c.reads + 1 }

def out32 (reg value : UInt32) : Dma Unit := modify fun c => c.write reg value

/-! ## Source -/

def zdmaTransferMaxLen : UInt32 := 0x3FFFFFFF - 7

def xfsblEccInitValWord : UInt32 := 0xDEADBEEF

/-- The states the channel is taken to be idle in. -/
def idle (regVal : UInt32) : Bool :=
  let state := regVal &&& statusStateMask
  state == statusStateDone || state == statusStateErr

def dmaDone (regVal : UInt32) : Bool := regVal &&& isrDmaDoneMask == isrDmaDoneMask

def transferLength (numBytes : UInt64) : UInt32 :=
  if numBytes > zdmaTransferMaxLen.toUInt64 then zdmaTransferMaxLen else numBytes.toUInt32

/-- The registers of one transfer, up to the one that enables the channel. -/
def startTransfer (startAddr : UInt64) (length : UInt32) : Dma Unit := do
  let regVal ← in32 hw ctrl0
  out32 ctrl0
    (regVal &&& (ctrl0PointTypeMask ||| ctrl0ModeMask) ||| (ctrl0PointTypeNormal ||| ctrl0ModeWrOnly))
  out32 wrOnlyWord0 xfsblEccInitValWord
  out32 wrOnlyWord1 xfsblEccInitValWord
  out32 wrOnlyWord2 xfsblEccInitValWord
  out32 wrOnlyWord3 xfsblEccInitValWord
  out32 dstDscrWord0 (startAddr &&& dstDscrWord0LsbMask).toUInt32
  out32 dstDscrWord1 (startAddr >>> 32 &&& dstDscrWord1MsbMask).toUInt32
  out32 srcDscrWord2 length
  out32 dstDscrWord2 length
  let regVal ← in32 hw ctrl2
  out32 ctrl2 (regVal ||| ctrl2EnMask)

/-- One pass of the loop. -/
def transferBlock (polls : Nat) (startAddr : UInt64) (length : UInt32) : Dma Unit := do
  pollUntil .outOfPolls (in32 hw status) idle polls
  startTransfer hw startAddr length
  pollUntil .outOfPolls (in32 hw isr) dmaDone polls
  let _ ← in32 hw isr
  out32 isr isrDmaDoneMask
  let regVal ← in32 hw status
  if regVal = statusStateErr then throw (.status xfsblFailure) else pure ()

theorem toNat_transferLength (n : UInt64) :
    (transferLength n).toUInt64.toNat = min n.toNat zdmaTransferMaxLen.toNat := by
  have hmax : zdmaTransferMaxLen.toUInt64.toNat = zdmaTransferMaxLen.toNat := rfl
  have hlt : zdmaTransferMaxLen.toNat < 2 ^ 32 := by decide
  unfold transferLength
  split
  next h =>
    have := UInt64.lt_iff_toNat_lt.mp h
    omega
  next h =>
    have := UInt64.le_iff_toNat_le.mp (UInt64.not_lt.mp h)
    rw [UInt32.toNat_toUInt64, UInt64.toNat_toUInt32]
    omega

def eccInitLoop (polls : Nat) (startAddr numBytes : UInt64) : Dma Unit :=
  if numBytes > 0 then do
    let length := transferLength numBytes
    transferBlock hw polls startAddr length
    eccInitLoop polls (startAddr + length.toUInt64) (numBytes - length.toUInt64)
  else pure ()
termination_by numBytes.toNat
decreasing_by
  rename_i h
  have hpos := UInt64.lt_iff_toNat_lt.mp h
  have hmax : 0 < zdmaTransferMaxLen.toNat := by decide
  have hlen := toNat_transferLength numBytes
  have hle : (transferLength numBytes).toUInt64 ≤ numBytes := UInt64.le_iff_toNat_le.mpr (by omega)
  rw [UInt64.toNat_sub_of_le _ _ hle]
  simp at hpos
  omega

/-- `Restore reset values for the DMA registers used`. -/
def restoreRegisters : Dma Unit := do
  out32 ctrl0 0x00000080
  out32 wrOnlyWord0 0
  out32 wrOnlyWord1 0
  out32 wrOnlyWord2 0
  out32 wrOnlyWord3 0
  out32 dstDscrWord0 0
  out32 dstDscrWord1 0
  out32 srcDscrWord2 0
  out32 dstDscrWord2 0
  out32 ctrl0TotalByteCount 0

/-- `XFsbl_EccInit`, each of its waits at most `polls` reads long. -/
def eccInit (polls : Nat) (destAddr lengthBytes : UInt64) : Dma Unit := do
  eccInitLoop hw polls destAddr lengthBytes
  restoreRegisters

end Source

/-! ## A transfer -/

section Writes

variable {c : Channel} {reg value : UInt32}

@[simp] theorem write_regs : (c.write reg value).regs = Function.update c.regs reg value := by
  unfold Channel.write
  dsimp only
  split <;> rfl

theorem write_started (h : reg ≠ ctrl2) : (c.write reg value).started = c.started := by
  unfold Channel.write
  dsimp only
  rw [if_neg (fun e => h e.1)]

@[simp] theorem write_reads : (c.write reg value).reads = c.reads := by
  unfold Channel.write
  dsimp only
  split <;> rfl

theorem enabled (v : UInt32) : (v ||| ctrl2EnMask) &&& ctrl2EnMask = ctrl2EnMask := by
  apply UInt32.toBitVec_inj.mp
  ext i
  simp only [UInt32.toBitVec_and, UInt32.toBitVec_or, BitVec.getElem_and, BitVec.getElem_or]
  cases v.toBitVec[i] <;> cases ctrl2EnMask.toBitVec[i] <;> rfl

/-- The enabling write leaves the descriptor registers as they are. -/
theorem write_enable (v : UInt32) :
    (c.write ctrl2 (v ||| ctrl2EnMask)).started = c.started ++ [c.transfer] := by
  have hne : (v ||| ctrl2EnMask) &&& ctrl2EnMask ≠ 0 := by
    rw [enabled]
    decide
  unfold Channel.write
  dsimp only
  rw [if_pos ⟨rfl, hne⟩]
  rfl

end Writes

/-- The two address words hold 49 bits. -/
theorem address_words (a : UInt64) :
    (a >>> 32 &&& dstDscrWord1MsbMask).toUInt32.toNat * 2 ^ 32 +
      (a &&& dstDscrWord0LsbMask).toUInt32.toNat = a.toNat % 2 ^ 49 := by
  have h0 : (a &&& dstDscrWord0LsbMask).toNat = a.toNat % 2 ^ 32 := by
    rw [UInt64.toNat_and]
    exact Nat.and_two_pow_sub_one_eq_mod _ 32
  have h1 : (a >>> 32 &&& dstDscrWord1MsbMask).toNat = a.toNat / 2 ^ 32 % 2 ^ 17 := by
    rw [UInt64.toNat_and, UInt64.toNat_shiftRight, Nat.shiftRight_eq_div_pow]
    exact Nat.and_two_pow_sub_one_eq_mod _ 17
  rw [UInt64.toNat_toUInt32, UInt64.toNat_toUInt32, h0, h1]
  omega

variable {hw : Engine} {c c' : Channel} {polls : Nat} {u : Unit}

/-- A transfer is the write that enables the channel, behind the ones that describe it. -/
theorem startTransfer_run (hw : Engine) (a : UInt64) (length : UInt32) (c : Channel) :
    ∃ (d : Channel) (v : UInt32),
      startTransfer hw a length c = .ok () (d.write ctrl2 (v ||| ctrl2EnMask)) ∧
      d.started = c.started ∧ d.transfer = (a.toNat % 2 ^ 49, length.toNat) := by
  refine ⟨_, _, rfl, ?_, ?_⟩
  · simp (disch := decide) only [write_started]
  · rw [← address_words]
    simp [Channel.transfer, Function.update, ctrl0, wrOnlyWord0, wrOnlyWord1, wrOnlyWord2,
      wrOnlyWord3, dstDscrWord0, dstDscrWord1, srcDscrWord2, dstDscrWord2]

theorem startTransfer_ok {a : UInt64} {length : UInt32}
    (h : startTransfer hw a length c = .ok u c') :
    c'.started = c.started ++ [(a.toNat % 2 ^ 49, length.toNat)] := by
  obtain ⟨d, v, hrun, hd, ht⟩ := startTransfer_run hw a length c
  rw [hrun] at h
  injection h with _ h
  rw [← h, write_enable, hd, ht]

/-- Reading starts nothing. -/
def Quiet (c c' : Channel) : Prop := c'.started = c.started

instance : IsPreorder Channel Quiet where
  refl _ := rfl
  trans _ _ _ h h' := h'.trans h

theorem lands_in32 (reg : UInt32) : Lands Quiet (in32 hw reg) := by
  rintro c v _ ⟨⟩
  rfl

theorem lands_out32 {reg value : UInt32} (h : reg ≠ ctrl2) : Lands Quiet (out32 reg value) := by
  rintro c v _ ⟨⟩
  exact write_started h

theorem lands_wait (reg : UInt32) (stop : UInt32 → Bool) :
    Lands Quiet (pollUntil .outOfPolls (in32 hw reg) stop polls) :=
  lands_pollUntil (lands_in32 reg) polls

theorem transferBlock_ok {a : UInt64} {length : UInt32}
    (h : transferBlock hw polls a length c = .ok u c') :
    c'.started = c.started ++ [(a.toNat % 2 ^ 49, length.toNat)] := by
  obtain ⟨_, c1, h1, h⟩ := bind_ok.1 h
  obtain ⟨_, c2, h2, h⟩ := bind_ok.1 h
  have hpre : Quiet c c1 := lands_wait _ _ _ _ _ h1
  have hpost : Quiet c2 c' := by
    refine lands_bind (lands_wait isr dmaDone) (fun _ => lands_bind (lands_in32 isr) fun _ =>
      lands_bind (lands_out32 (by decide)) fun _ => lands_bind (lands_in32 status) fun v =>
        lands_ite (fun _ => ?_) fun _ => (frame_pure ()).lands) _ _ _ h
    exact (frame_throw _).lands
  rw [hpost, startTransfer_ok h2, hpre]

/-! ## The transfers of a range -/

/-- The `n` bytes from `start` on, in blocks of the greatest length. -/
def blocks (start n : Nat) : List (Nat × Nat) :=
  if 0 < n then
    let length := min n zdmaTransferMaxLen.toNat
    (start, length) :: blocks (start + length) (n - length)
  else []
termination_by n
decreasing_by
  have hmax : 0 < zdmaTransferMaxLen.toNat := by decide
  omega

/-- A transfer as it is in the registers of the channel. -/
def inRegisters (r : Nat × Nat) : Nat × Nat := (r.1 % 2 ^ 49, r.2)

theorem blocks_zero (start : Nat) : blocks start 0 = [] := by
  rw [blocks, if_neg (Nat.lt_irrefl 0)]

theorem eccInitLoop_ok {startAddr numBytes : UInt64} {start : Nat}
    (hs : startAddr.toNat % 2 ^ 49 = start % 2 ^ 49)
    (h : eccInitLoop hw polls startAddr numBytes c = .ok u c') :
    c'.started = c.started ++ (blocks start numBytes.toNat).map inRegisters := by
  induction startAddr, numBytes using eccInitLoop.induct generalizing c start with
  | case1 startAddr numBytes hpos length =>
    rename_i ih
    have hn : 0 < numBytes.toNat := by simpa using UInt64.lt_iff_toNat_lt.mp hpos
    have hlen : length.toUInt64.toNat = min numBytes.toNat zdmaTransferMaxLen.toNat :=
      toNat_transferLength numBytes
    have hlen' : length.toNat = min numBytes.toNat zdmaTransferMaxLen.toNat := by
      rw [← hlen, UInt32.toNat_toUInt64]
    have hle : length.toUInt64 ≤ numBytes := UInt64.le_iff_toNat_le.mpr (by omega)
    rw [eccInitLoop, if_pos hpos] at h
    obtain ⟨_, c1, h1, h⟩ := bind_ok.1 h
    have hstart : (startAddr + length.toUInt64).toNat % 2 ^ 49 =
        (start + min numBytes.toNat zdmaTransferMaxLen.toNat) % 2 ^ 49 := by
      rw [UInt64.toNat_add, hlen]
      omega
    rw [ih hstart h, transferBlock_ok h1, UInt64.toNat_sub_of_le _ _ hle, hlen]
    conv_rhs => rw [blocks, if_pos hn]
    rw [List.map_cons, List.append_assoc, List.singleton_append, inRegisters, hlen', hs]
  | case2 startAddr numBytes hpos =>
    have hn : numBytes.toNat = 0 := by
      have := UInt64.le_iff_toNat_le.mp (UInt64.not_lt.mp hpos)
      simpa using this
    rw [eccInitLoop, if_neg hpos] at h
    obtain ⟨-, rfl⟩ := pure_ok.1 h
    rw [hn, blocks_zero, List.map_nil, List.append_nil]

/-- What `XFsbl_EccInit` starts. -/
theorem eccInit_started {destAddr lengthBytes : UInt64}
    (h : eccInit hw polls destAddr lengthBytes c = .ok u c') :
    c'.started = c.started ++ (blocks destAddr.toNat lengthBytes.toNat).map inRegisters := by
  obtain ⟨_, c1, h1, h⟩ := bind_ok.1 h
  have hquiet : Quiet c1 c' := by
    refine lands_bind (lands_out32 (by decide)) (fun _ => ?_) _ _ _ h
    iterate 8 refine lands_bind (lands_out32 (by decide)) fun _ => ?_
    exact lands_out32 (by decide)
  rw [hquiet, eccInitLoop_ok rfl h1]

section Blocks

variable {start n : Nat}

theorem blocks_tiles (start n : Nat) : Tiles start (blocks start n) (start + n) := by
  induction start, n using blocks.induct with
  | case1 start n hn length ih =>
    rw [blocks, if_pos hn]
    refine ⟨rfl, ?_⟩
    have hle : length ≤ n := Nat.min_le_left _ _
    rwa [show start + length + (n - length) = start + n by omega] at ih
  | case2 start n hn =>
    obtain rfl : n = 0 := by omega
    rw [blocks_zero]
    rfl

theorem blocks_length {r : Nat × Nat} (h : r ∈ blocks start n) :
    0 < r.2 ∧ r.2 ≤ zdmaTransferMaxLen.toNat := by
  induction start, n using blocks.induct with
  | case1 start n hn length ih =>
    rw [blocks, if_pos hn] at h
    rcases List.mem_cons.1 h with rfl | h
    · have hmax : 0 < zdmaTransferMaxLen.toNat := by decide
      exact ⟨Nat.lt_min.2 ⟨hn, hmax⟩, Nat.min_le_right _ _⟩
    · exact ih h
  | case2 start n hn =>
    rw [blocks, if_neg hn] at h
    cases h

/-- The last block starts below a bound exactly if all of them do. -/
theorem blocks_below (bound : Nat) :
    (∀ r ∈ blocks start n, r.1 < bound) ↔
      n = 0 ∨ start + (n - 1) / zdmaTransferMaxLen.toNat * zdmaTransferMaxLen.toNat < bound := by
  have hmax : zdmaTransferMaxLen.toNat = 1073741816 := rfl
  induction start, n using blocks.induct with
  | case1 start n hn length ih =>
    have hlen : length = min n zdmaTransferMaxLen.toNat := rfl
    rw [blocks, if_pos hn]
    show (∀ r ∈ (start, length) :: blocks (start + length) (n - length), r.1 < bound) ↔ _
    rw [List.forall_mem_cons]
    refine (and_congr_right' ih).trans ?_
    clear_value length
    rw [hmax] at hlen ⊢
    omega
  | case2 start n hn =>
    obtain rfl : n = 0 := by omega
    rw [blocks_zero]
    simp

end Blocks

/-- Accesses in a row, with their addresses in the registers, are in a row exactly if the
registers hold their addresses. -/
theorem tiles_inRegisters {a b : Nat} {rs : List (Nat × Nat)} (h : Tiles a rs b) :
    Tiles a (rs.map inRegisters) b ↔ ∀ r ∈ rs, r.1 < 2 ^ 49 := by
  induction rs generalizing a with
  | nil => exact ⟨fun _ _ hr => (List.not_mem_nil hr).elim, fun _ => h⟩
  | cons r rs ih =>
    obtain ⟨rfl, htail⟩ := h
    rw [List.map_cons, List.forall_mem_cons, ← ih htail]
    show r.1 % 2 ^ 49 = r.1 ∧ Tiles (r.1 + r.2) (rs.map inRegisters) b ↔ _
    have hmod : r.1 % 2 ^ 49 = r.1 ↔ r.1 < 2 ^ 49 := by omega
    rw [hmod]

/-! ## The waits -/

/-- Whenever it is asked, the channel comes to be idle, and to be done. -/
structure Engine.Answers (hw : Engine) : Prop where
  idle : ∀ n, ∃ k, Zdma.idle (hw.answer (n + k) status) = true
  done : ∀ n, ∃ k, dmaDone (hw.answer (n + k) isr) = true

theorem stops_of {reg : UInt32} {stop : UInt32 → Bool} {k : Nat}
    (h : stop (hw.answer (c.reads + k) reg) = true) : Stops (in32 hw reg) stop c := by
  induction k generalizing c with
  | zero => exact .now rfl h
  | succ k ih =>
    cases hnow : stop (hw.answer c.reads reg) with
    | true => exact .now rfl hnow
    | false =>
      refine .later rfl hnow (ih ?_)
      show stop (hw.answer (c.reads + 1 + k) reg) = true
      rwa [Nat.add_assoc, Nat.add_comm 1 k]

theorem settles_wait {reg : UInt32} {stop : UInt32 → Bool}
    (h : ∀ n, ∃ k, stop (hw.answer (n + k) reg) = true) (c : Channel) :
    Settles .outOfPolls (pollUntil .outOfPolls (in32 hw reg) stop) c := by
  obtain ⟨k, hk⟩ := h c.reads
  exact (stops_of hk).settles

theorem settles_transferBlock (h : hw.Answers) (a : UInt64) (length : UInt32) (c : Channel) :
    Settles .outOfPolls (fun polls => transferBlock hw polls a length) c := by
  refine (settles_wait h.idle c).bind fun _ _ c1 _ => ?_
  refine (settles_const (c := startTransfer hw a length) ?_).bind fun _ _ c2 _ => ?_
  · exact nofun
  refine (settles_wait h.done c2).bind fun _ _ c3 _ => settles_const fun t ht => ?_
  obtain ⟨_, c4, -, ht⟩ := (bind_error.1 ht).resolve_left nofun
  obtain ⟨_, c5, -, ht⟩ := (bind_error.1 ht).resolve_left nofun
  obtain ⟨_, c6, -, ht⟩ := (bind_error.1 ht).resolve_left nofun
  split at ht <;> cases ht

theorem settles_eccInitLoop (h : hw.Answers) (startAddr numBytes : UInt64) (c : Channel) :
    Settles .outOfPolls (fun polls => eccInitLoop hw polls startAddr numBytes) c := by
  induction startAddr, numBytes using eccInitLoop.induct generalizing c with
  | case1 startAddr numBytes hpos length =>
    rename_i ih
    simp only [eccInitLoop.eq_def hw _ startAddr, if_pos hpos]
    exact (settles_transferBlock h startAddr length c).bind fun _ _ c' _ => ih c'
  | case2 startAddr numBytes hpos =>
    simp only [eccInitLoop.eq_def hw _ startAddr, if_neg hpos]
    exact settles_const nofun

theorem settles_eccInit (h : hw.Answers) (destAddr lengthBytes : UInt64) (c : Channel) :
    Settles .outOfPolls (fun polls => eccInit hw polls destAddr lengthBytes) c :=
  (settles_eccInitLoop h destAddr lengthBytes c).bind fun _ _ _ _ => settles_const nofun

/-! ## The theorem -/

/-- The transfers follow each other, and together they are the `n` bytes from `a` on. -/
def Exactly (ts : List (Nat × Nat)) (a n : Nat) : Prop :=
  Tiles a ts (a + n) ∧ ∀ x, (∃ t ∈ ts, t.1 ≤ x ∧ x < t.1 + t.2) ↔ a ≤ x ∧ x < a + n

theorem exactly_iff {ts : List (Nat × Nat)} {a n : Nat} : Exactly ts a n ↔ Tiles a ts (a + n) :=
  ⟨fun h => h.1, fun h => ⟨h, fun _ => h.mem_iff⟩⟩

theorem exactly_blocks (a n : Nat) : Exactly ((blocks a n).map inRegisters) a n ↔
    n = 0 ∨ a + (n - 1) / zdmaTransferMaxLen.toNat * zdmaTransferMaxLen.toNat < 2 ^ 49 := by
  rw [exactly_iff, tiles_inRegisters (blocks_tiles a n), blocks_below]

theorem eccInit_tiles (hw : Engine) (destAddr lengthBytes : UInt64) (c : Channel) :
    (hw.Answers → Settles .outOfPolls (fun polls => eccInit hw polls destAddr lengthBytes) c) ∧
    ∀ polls c', eccInit hw polls destAddr lengthBytes c = .ok () c' →
      ∃ ts, c'.started = c.started ++ ts ∧
        (∀ t ∈ ts, 0 < t.2 ∧ t.2 ≤ zdmaTransferMaxLen.toNat) ∧
        (∃ rs, Tiles destAddr.toNat rs (destAddr.toNat + lengthBytes.toNat) ∧
          ts = rs.map inRegisters) ∧
        (Exactly ts destAddr.toNat lengthBytes.toNat ↔
          lengthBytes.toNat = 0 ∨
            destAddr.toNat + (lengthBytes.toNat - 1) / zdmaTransferMaxLen.toNat *
              zdmaTransferMaxLen.toNat < 2 ^ 49) := by
  refine ⟨fun h => settles_eccInit h destAddr lengthBytes c, fun polls c' h => ?_⟩
  refine ⟨_, eccInit_started h, fun t ht => ?_, ⟨_, blocks_tiles _ _, rfl⟩, exactly_blocks _ _⟩
  obtain ⟨r, hr, rfl⟩ := List.mem_map.1 ht
  show 0 < r.2 ∧ r.2 ≤ _
  exact blocks_length hr

/-- An engine that is idle, or done, as soon as it is asked. -/
def ready : Engine := ⟨fun _ reg => if reg = isr then isrDmaDoneMask else 0⟩

theorem ready_idle (n : Nat) : idle (ready.answer n status) = true := by
  show idle 0 = true
  decide

theorem ready_done (n : Nat) : dmaDone (ready.answer n isr) = true := by
  show dmaDone isrDmaDoneMask = true
  decide

theorem ready_answers : ready.Answers := ⟨fun n => ⟨0, ready_idle n⟩, fun n => ⟨0, ready_done n⟩⟩

theorem wait_ready {reg : UInt32} {stop : UInt32 → Bool} (c : Channel)
    (h : stop (ready.answer c.reads reg) = true) :
    pollUntil .outOfPolls (in32 ready reg) stop 1 c = .ok () { c with reads := c.reads + 1 } := by
  refine bind_ok.2 ⟨_, _, rfl, ?_⟩
  rw [if_pos h]
  rfl

/-- The channel after reset. -/
def afterReset : Channel := ⟨0, fun _ => 0, []⟩

theorem eccInit_ready (destAddr : UInt64) :
    ∃ c', eccInit ready 1 destAddr 32 afterReset = .ok () c' := by
  have hblock (a : UInt64) (length : UInt32) (c : Channel) :
      ∃ c', transferBlock ready 1 a length c = .ok () c' := by
    obtain ⟨d, v, hrun, -, -⟩ := startTransfer_run ready a length { c with reads := c.reads + 1 }
    exact ⟨_, bind_ok.2 ⟨(), _, wait_ready c (ready_idle _), bind_ok.2 ⟨(), _, hrun,
      bind_ok.2 ⟨(), _, wait_ready _ (ready_done _), rfl⟩⟩⟩⟩
  obtain ⟨c', h⟩ := hblock destAddr (transferLength 32) afterReset
  have hloop : eccInitLoop ready 1 destAddr 32 afterReset = .ok () c' := by
    rw [eccInitLoop, if_pos (by decide)]
    refine bind_ok.2 ⟨(), c', h, ?_⟩
    rw [eccInitLoop, if_neg (by decide)]
    rfl
  exact ⟨_, bind_ok.2 ⟨(), c', hloop, rfl⟩⟩

/-- The tightly coupled memory of an R5, behind its vectors. -/
theorem eccInit_tiles_tcm :
    Settles .outOfPolls (fun polls => eccInit ready polls 0xFFE00020 32) afterReset ∧
      ∃ c', eccInit ready 1 0xFFE00020 32 afterReset = .ok () c' ∧
        Exactly c'.started 0xFFE00020 32 := by
  obtain ⟨hsettles, htiles⟩ := eccInit_tiles ready 0xFFE00020 32 afterReset
  obtain ⟨c', h⟩ := eccInit_ready 0xFFE00020
  obtain ⟨ts, hts, -, -, hex⟩ := htiles 1 c' h
  refine ⟨hsettles ready_answers, c', h, ?_⟩
  rw [hts]
  exact hex.2 (.inr (by decide))

/-- At the first address the registers do not hold, the transfer is somewhere else. -/
theorem not_eccInit_exactly : ¬ ∀ (hw : Engine) (destAddr lengthBytes : UInt64) (c c' : Channel) (polls : Nat),
    eccInit hw polls destAddr lengthBytes c = .ok () c' →
      ∃ ts, c'.started = c.started ++ ts ∧ Exactly ts destAddr.toNat lengthBytes.toNat := by
  intro hall
  obtain ⟨c', h⟩ := eccInit_ready 0x2000000000000
  obtain ⟨ts, hts, hex⟩ := hall ready 0x2000000000000 32 afterReset c' 1 h
  have hstarted := eccInit_started h
  rw [hts, List.append_cancel_left_eq] at hstarted
  rw [hstarted, exactly_blocks] at hex
  revert hex
  decide

/-! ## The loader -/

/-- The acts of the loader's own model of the loop are the same blocks. -/
theorem moves_eccInitLoop {hw : Hw} {fuel start n : Nat} {w w' : World}
    (hfuel : n ≤ fuel * zdmaTransferMaxLen.toNat)
    (h : MeasuredBoot.eccInitLoop hw fuel start n w = .ok u w') :
    Moves ((blocks start n).map fun r => .eccInit r.1 r.2) w w' := by
  induction fuel generalizing start n w with
  | zero =>
    obtain rfl : n = 0 := by omega
    obtain ⟨-, rfl⟩ := pure_ok.1 h
    rw [blocks_zero]
    exact .refl w
  | succ fuel ih =>
    rw [MeasuredBoot.eccInitLoop] at h
    split at h
    next h0 =>
      obtain ⟨-, rfl⟩ := pure_ok.1 h
      rw [h0, blocks_zero]
      exact .refl w
    next h0 =>
      obtain ⟨_, w1, h1, h⟩ := bind_ok.1 h
      obtain ⟨_, w2, h2, h⟩ := bind_ok.1 h
      obtain ⟨_, w3, h3, h⟩ := bind_ok.1 h
      obtain ⟨_, w4, h4, h⟩ := bind_ok.1 h
      obtain ⟨_, w5, h5, h⟩ := bind_ok.1 h
      have hact := act_ok.1 h2
      have h13 : Moves [] w w1 := ((frame_wait (R := Ticks) hw _).ok h1).moves
      have h23 : Moves [] w2 w3 := ((frame_wait (R := Ticks) hw _).ok h3).moves
      have h34 : Moves [] w3 w4 := ((frame_call (R := Ticks) hw _).ok h4).moves
      obtain ⟨-, rfl⟩ := ensure_ok.1 h5
      have hmax : zdmaTransferMaxLen.toNat = MeasuredBoot.zdmaTransferMaxLen := rfl
      rw [Nat.succ_mul, hmax] at hfuel
      have hleft : n - min n MeasuredBoot.zdmaTransferMaxLen ≤ fuel * zdmaTransferMaxLen.toNat := by
        rw [hmax]
        omega
      have hrest := ih hleft h
      subst hact
      rw [blocks, if_pos (Nat.pos_of_ne_zero h0)]
      exact h13.trans ((Moves.act w1 _).trans (h23.trans (h34.trans hrest)))

/-- `XFsbl_EccInit` as the loader calls it. -/
theorem moves_eccInit {hw : Hw} {start n : Nat} {w w' : World}
    (h : MeasuredBoot.eccInit hw start n w = .ok u w') :
    Moves ((blocks start n).map fun r => .eccInit r.1 r.2) w w' := by
  have hloop : MeasuredBoot.eccInitLoop hw (n / MeasuredBoot.zdmaTransferMaxLen + 1) start n w =
      .ok u w' := h
  refine moves_eccInitLoop ?_ hloop
  have hmax : zdmaTransferMaxLen.toNat = MeasuredBoot.zdmaTransferMaxLen := rfl
  rw [hmax, Nat.succ_mul]
  have := Nat.div_add_mod n MeasuredBoot.zdmaTransferMaxLen
  have := Nat.mod_lt n (show 0 < MeasuredBoot.zdmaTransferMaxLen by decide)
  rw [Nat.mul_comm]
  omega

end MeasuredBoot.Zdma
