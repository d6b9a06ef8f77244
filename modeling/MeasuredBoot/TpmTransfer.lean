import MeasuredBoot.Lib.Bytes
import MeasuredBoot.Lib.Polls
import MeasuredBoot.Platform

/-!
# The TPM on the SPI bus (`xfsbl_tpm_util.c`)

A transfer is cut into chunks of 64 bytes, each with a header of its own. What is read lies in the buffer in one
piece; what is written is taken from the start of the buffer for every chunk, so the device gets byte `i % 64` in
place of byte `i`. `tpmTransfer_fifo` says when that is the buffer, `tpmDataTransfer_executes` what a command
becomes, whatever the bus and the device do.
-/

namespace MeasuredBoot.Tpm

open Prog

/-! ## Source -/

def xfsblTpmDataSizeIndex : Nat := 5
def xfsblTpmStsValid : UInt8 := 0x80
def xfsblTpmStsCmdReady : UInt8 := 0x40
def xfsblTpmStsGo : UInt8 := 0x20
def xfsblTpmStsDataAvail : UInt8 := 0x10
def xfsblTpmTxHeadSize : Nat := 4
def xfsblTpmRxHeadSize : Nat := 10
def xfsblTpmSpiMaxSize : Nat := 64
def xfsblTpmReqMaxSize : Nat := 1024
def xfsblTpmRespMaxSize : Nat := 4096
def xfsblTpmAccess : UInt16 := 0x00
def xfsblTpmSts : UInt16 := 0x18
def xfsblTpmDataFifo : UInt16 := 0x24
def xstFailure : UInt32 := 1

/-- `XSpiPs_PolledTransfer`: its status, the bytes received, and the device behind the exchange. -/
structure Spi (δ : Type) where
  polledTransfer : List UInt8 → δ → UInt32 × List UInt8 × δ

abbrev TpmM (δ : Type) := EStateM Halt δ

section Source

variable {δ : Type} (spi : Spi δ)

def xspiPsPolledTransfer (tx : List UInt8) : TpmM δ (UInt32 × List UInt8) := fun d =>
  .ok ((spi.polledTransfer tx d).1, (spi.polledTransfer tx d).2.1) (spi.polledTransfer tx d).2.2

def txHead (reads : Bool) (tranLen : Nat) : UInt8 := (if reads then 0x80 else 0) ||| (.ofNat tranLen - 1)

/-- The first bytes of `TpmTxBuffer`. -/
def txHeader (address : UInt16) (reads : Bool) (tranLen : Nat) : List UInt8 :=
  [txHead reads tranLen, 0xD4, (address >>> 8).toUInt8, address.toUInt8]

/-- `while (Length)`. `rxBuf` is the place of the receive buffer in `mem`, if there is one. -/
def tpmTransferLoop (address : UInt16) (txBuf : Option Mem) (rxBuf : Option Nat) :
    Nat → Nat → Nat → Mem → Mem → TpmM δ Mem
  | 0, _, _, _, _ => throw .hang
  | fuel + 1, length, rxOffset, tpmTxBuffer, mem =>
    if length = 0 then pure mem
    else
      let tranLen := if length ≤ xfsblTpmSpiMaxSize then length else xfsblTpmSpiMaxSize
      let tpmTxBuffer := tpmTxBuffer.store 0 (txHeader address rxBuf.isSome tranLen)
      let tpmTxBuffer := (txBuf.map fun tx => tpmTxBuffer.store xfsblTpmTxHeadSize (tx.load 0 tranLen)).getD tpmTxBuffer
      do
        let r ← xspiPsPolledTransfer spi (tpmTxBuffer.load 0 (xfsblTpmTxHeadSize + tranLen))
        if r.1 ≠ xfsblSuccess then throw (.status r.1)
        else
          let data := (r.2.drop xfsblTpmTxHeadSize).take tranLen
          tpmTransferLoop address txBuf rxBuf fuel (length - tranLen) (rxOffset + tranLen) tpmTxBuffer
            ((rxBuf.map fun rx => mem.store (rx + rxOffset) data).getD mem)

/-- `goto END` is `throw`, with the status. -/
def xfsblTpmTransfer (address : UInt16) (txBuf : Option Mem) (rxBuf : Option Nat) (length : Nat) (mem : Mem) :
    TpmM δ Mem :=
  if length > xfsblTpmReqMaxSize ∨ length > xfsblTpmRespMaxSize then throw (.status xstFailure)
  else tpmTransferLoop spi address txBuf rxBuf (length + 1) length 0 (fun _ => 0) mem

def registerGet (address : UInt16) : TpmM δ UInt8 := do
  let value ← xfsblTpmTransfer spi address none (some 0) 1 fun _ => 0
  pure (value 0)

def registerSet (address : UInt16) (value : UInt8) : TpmM δ Unit := do
  let _ ← xfsblTpmTransfer spi address (some fun _ => value) none 1 fun _ => 0

def xfsblTpmStatusGet : TpmM δ UInt8 := registerGet spi xfsblTpmSts

def xfsblTpmStatusSet (statusVal : UInt8) : TpmM δ Unit := registerSet spi xfsblTpmSts statusVal

def xfsblTpmAccessGet : TpmM δ UInt8 := registerGet spi xfsblTpmAccess

def xfsblTpmAccessSet (access : UInt8) : TpmM δ Unit := registerSet spi xfsblTpmAccess access

def xfsblTpmFifoRead (data : Nat) (byteCount : UInt8) (mem : Mem) : TpmM δ Mem :=
  xfsblTpmTransfer spi xfsblTpmDataFifo none (some data) byteCount.toNat mem

def xfsblTpmFifoWrite (data : Mem) (byteCount : UInt8) : TpmM δ Unit := do
  let _ ← xfsblTpmTransfer spi xfsblTpmDataFifo (some data) none byteCount.toNat fun _ => 0

/-- The two waits end after so many polls at most. -/
def xfsblTpmDataTransfer (polls : Nat) (txBuf : Mem) (txlen : UInt16) (rxBuf : Mem) : TpmM δ Mem := do
  xfsblTpmStatusSet spi xfsblTpmStsCmdReady
  pollUntil .hang (xfsblTpmStatusGet spi) (fun v => v &&& xfsblTpmStsCmdReady != 0) polls
  xfsblTpmFifoWrite spi txBuf txlen.toUInt8
  xfsblTpmStatusSet spi xfsblTpmStsGo
  pollUntil .hang (xfsblTpmStatusGet spi)
    (fun v => v &&& (xfsblTpmStsValid ||| xfsblTpmStsDataAvail) == xfsblTpmStsValid ||| xfsblTpmStsDataAvail) polls
  let rxBuf ← xfsblTpmFifoRead spi 0 (.ofNat xfsblTpmRxHeadSize) rxBuf
  let rxLen := rxBuf xfsblTpmDataSizeIndex
  if rxLen.toNat > xfsblTpmRespMaxSize then throw (.status xstFailure)
  else if rxLen.toNat > xfsblTpmRxHeadSize then
    xfsblTpmFifoRead spi xfsblTpmRxHeadSize (rxLen - .ofNat xfsblTpmRxHeadSize) rxBuf
  else pure rxBuf

end Source

/-! ## The device -/

inductive Register where
  | access
  | sts
  | dataFifo
  deriving DecidableEq

def Register.address : Register → UInt16
  | .access => xfsblTpmAccess
  | .sts => xfsblTpmSts
  | .dataFifo => xfsblTpmDataFifo

/-- The register that two bytes of a header name. -/
def Register.ofBytes (hi lo : UInt8) : Option Register :=
  if hi = 0 ∧ lo = 0x00 then some .access
  else if hi = 0 ∧ lo = 0x18 then some .sts
  else if hi = 0 ∧ lo = 0x24 then some .dataFifo
  else none

inductive Phase where
  | idle
  | ready
  | done
  deriving DecidableEq

/-- A TPM, and the bus to it: the status of each exchange, how many reads each answer takes to show, and the
response to a command, which may depend on all the commands before it. -/
structure Chip where
  spiStatus : Nat → UInt32
  readyLag : Nat → Nat
  goLag : Nat → Nat
  accessLag : Nat → Nat
  answer : List (List UInt8) → List UInt8

structure ChipState where
  tick : Nat
  phase : Phase
  lag : Nat
  /-- The reads left, once the access is requested. -/
  access : Option Nat
  command : List UInt8
  response : List UInt8
  executed : List (List UInt8)
  deriving DecidableEq

def ChipState.status (s : ChipState) : UInt8 :=
  if s.lag ≠ 0 then 0
  else if s.phase = .ready then xfsblTpmStsValid ||| xfsblTpmStsCmdReady
  else if s.phase = .done then xfsblTpmStsValid ||| xfsblTpmStsDataAvail
  else xfsblTpmStsValid

/-- The first `n` bytes of a response, and ones behind its end. -/
def out (response : List UInt8) (n : Nat) : List UInt8 := (List.range n).map fun i => response.getD i 0xFF

section Chip

variable (chip : Chip)

def Chip.write (s : ChipState) (r : Register) (data : List UInt8) : ChipState :=
  if r = .dataFifo then
    if s.phase = .ready then { s with command := s.command ++ data } else s
  else if r = .access then
    if data.headD 0 &&& 0x02 ≠ 0 then { s with access := some (chip.accessLag s.tick) } else s
  else if data.headD 0 &&& xfsblTpmStsCmdReady ≠ 0 then
    { s with phase := .ready, lag := chip.readyLag s.tick, command := [], response := [] }
  else if data.headD 0 &&& xfsblTpmStsGo ≠ 0 ∧ s.phase = .ready then
    { s with phase := .done, lag := chip.goLag s.tick, response := chip.answer (s.executed ++ [s.command]),
             executed := s.executed ++ [s.command] }
  else s

def ChipState.read (s : ChipState) (r : Register) (n : Nat) : List UInt8 × ChipState :=
  if r = .dataFifo then (out s.response n, { s with response := s.response.drop n })
  else if r = .access then
    (.replicate n (if s.access = some 0 then 0xA0 else 0x80), { s with access := s.access.map (· - 1) })
  else (.replicate n s.status, { s with lag := s.lag - 1 })

/-- The device decodes the header; where the exchange fails nothing reaches it. -/
def Chip.exchange (s : ChipState) : List UInt8 → List UInt8 × ChipState
  | head :: _ :: hi :: lo :: payload =>
    let n := (head &&& 0x3F).toNat + 1
    match Register.ofBytes hi lo with
    | some r =>
      if head &&& 0x80 = 0 then (.replicate (xfsblTpmTxHeadSize + n) 0, chip.write s r (payload.take n))
      else (.replicate xfsblTpmTxHeadSize 0 ++ (s.read r n).1, (s.read r n).2)
    | none => (.replicate (xfsblTpmTxHeadSize + n) 0, s)
  | tx => (.replicate tx.length 0, s)

def ChipState.next (s : ChipState) : ChipState := { s with tick := s.tick + 1 }

def Chip.spi : Spi ChipState where
  polledTransfer tx s :=
    if chip.spiStatus s.tick ≠ xfsblSuccess then (chip.spiStatus s.tick, [], s.next)
    else (xfsblSuccess, chip.exchange s.next tx)

end Chip

/-! ## One exchange -/

theorem header_size : ∀ n < 65, 0 < n →
    ((txHead false n &&& 0x3F).toNat + 1 = n ∧ txHead false n &&& 0x80 = 0) ∧
    ((txHead true n &&& 0x3F).toNat + 1 = n ∧ txHead true n &&& 0x80 ≠ 0) := by
  decide +kernel

theorem ofBytes_address (r : Register) :
    Register.ofBytes (r.address >>> 8).toUInt8 r.address.toUInt8 = some r := by
  cases r <;> decide

section Exchange

variable {chip : Chip} {s t : ChipState} {r : Register} {n : Nat} {data payload : List UInt8} {tx mem buf : Mem}

theorem exchange_write (h0 : 0 < data.length) (h : data.length ≤ 64) :
    chip.exchange s (txHeader r.address false data.length ++ data) =
      (.replicate (xfsblTpmTxHeadSize + data.length) 0, chip.write s r data) := by
  obtain ⟨⟨hsize, hdir⟩, -⟩ := header_size data.length (by omega) h0
  show (match Register.ofBytes (r.address >>> 8).toUInt8 r.address.toUInt8 with
    | some r => if txHead false data.length &&& 0x80 = 0 then _ else _
    | none => _) = _
  rw [ofBytes_address]
  dsimp only
  rw [if_pos hdir, hsize]
  exact Prod.ext rfl (congrArg (chip.write s r) List.take_length)

theorem exchange_read (h0 : 0 < n) (h : n ≤ 64) :
    chip.exchange s (txHeader r.address true n ++ payload) =
      (.replicate xfsblTpmTxHeadSize 0 ++ (s.read r n).1, (s.read r n).2) := by
  obtain ⟨-, hsize, hdir⟩ := header_size n (by omega) h0
  show (match Register.ofBytes (r.address >>> 8).toUInt8 r.address.toUInt8 with
    | some r => if txHead true n &&& 0x80 = 0 then _ else _
    | none => _) = _
  rw [ofBytes_address]
  dsimp only
  rw [if_neg hdir, hsize]

theorem length_read (s : ChipState) (r : Register) (n : Nat) : (s.read r n).1.length = n := by
  unfold ChipState.read
  split
  · simp [out]
  · split <;> simp

/-- What goes over the bus for a chunk. -/
theorem load_txBuffer (hdr : List UInt8) (hlen : hdr.length = xfsblTpmTxHeadSize) :
    ((buf.store 0 hdr).store xfsblTpmTxHeadSize data).load 0 (xfsblTpmTxHeadSize + data.length) = hdr ++ data := by
  rw [Mem.load_add, Mem.load_store_disj (.inl (by omega)), Nat.zero_add, Mem.load_store, ← hlen, Mem.load_store]

/-- A chunk that is written. -/
theorem transferLoop_write (hn : 0 < n) (fuel off : Nat) :
    ∃ buf', tpmTransferLoop chip.spi r.address (some tx) none (fuel + 1) n off buf mem s =
      if chip.spiStatus s.tick ≠ xfsblSuccess then .error (.status (chip.spiStatus s.tick)) s.next
      else tpmTransferLoop chip.spi r.address (some tx) none fuel (n - min n 64) (off + min n 64) buf' mem
        (chip.write s.next r (tx.load 0 (min n 64))) := by
  have hmin : (if n ≤ xfsblTpmSpiMaxSize then n else xfsblTpmSpiMaxSize) = min n 64 := rfl
  have hlen := Mem.length_load tx 0 (min n 64)
  have hbytes := @load_txBuffer (tx.load 0 (min n 64)) buf (txHeader r.address false (min n 64)) rfl
  have hdata := @exchange_write chip s.next r (tx.load 0 (min n 64)) (by omega) (by omega)
  rw [hlen] at hbytes hdata
  refine ⟨(buf.store 0 (txHeader r.address false (min n 64))).store xfsblTpmTxHeadSize (tx.load 0 (min n 64)), ?_⟩
  rw [tpmTransferLoop, if_neg (by omega), hmin]
  dsimp only [Option.map_some, Option.getD_some, Option.isSome_none, Option.map_none, Option.getD_none]
  rw [bind_apply, hbytes]
  unfold xspiPsPolledTransfer Chip.spi
  by_cases hspi : chip.spiStatus s.tick ≠ xfsblSuccess
  · simp only [if_pos hspi]
    rfl
  · simp only [if_neg hspi, hdata]
    rfl

/-- A chunk that is read. -/
theorem transferLoop_read (hn : 0 < n) (fuel rx off : Nat) :
    ∃ buf', tpmTransferLoop chip.spi r.address none (some rx) (fuel + 1) n off buf mem s =
      if chip.spiStatus s.tick ≠ xfsblSuccess then .error (.status (chip.spiStatus s.tick)) s.next
      else tpmTransferLoop chip.spi r.address none (some rx) fuel (n - min n 64) (off + min n 64) buf'
        (mem.store (rx + off) (s.next.read r (min n 64)).1) (s.next.read r (min n 64)).2 := by
  have hmin : (if n ≤ xfsblTpmSpiMaxSize then n else xfsblTpmSpiMaxSize) = min n 64 := rfl
  have hbytes : (buf.store 0 (txHeader r.address true (min n 64))).load 0 (xfsblTpmTxHeadSize + min n 64) =
      txHeader r.address true (min n 64) ++ buf.load xfsblTpmTxHeadSize (min n 64) := by
    have hhead := Mem.load_store buf 0 (txHeader r.address true (min n 64))
    have htail := @Mem.load_store_disj buf xfsblTpmTxHeadSize 0 (min n 64) (txHeader r.address true (min n 64))
      (.inr (Nat.le_refl 4))
    rw [Mem.load_add, Nat.zero_add, htail]
    exact congrArg (· ++ _) hhead
  have hdata := @exchange_read chip s.next r (min n 64) (buf.load xfsblTpmTxHeadSize (min n 64)) (by omega) (by omega)
  have htake : ((List.replicate xfsblTpmTxHeadSize 0 ++ (s.next.read r (min n 64)).1).drop xfsblTpmTxHeadSize).take
      (min n 64) = (s.next.read r (min n 64)).1 := by
    rw [List.drop_left' (List.length_replicate ..)]
    exact List.take_of_length_le (length_read _ _ _).le
  refine ⟨buf.store 0 (txHeader r.address true (min n 64)), ?_⟩
  rw [tpmTransferLoop, if_neg (by omega), hmin]
  dsimp only [Option.map_some, Option.getD_some, Option.isSome_some, Option.map_none, Option.getD_none]
  rw [bind_apply, hbytes]
  unfold xspiPsPolledTransfer Chip.spi
  by_cases hspi : chip.spiStatus s.tick ≠ xfsblSuccess
  · simp only [if_pos hspi]
    rfl
  · simp only [if_neg hspi, hdata, htake]
    rfl

end Exchange

/-! ## Transfers -/

/-- What the device gets of the first `n` bytes of a buffer. -/
def sent (tx : Mem) (n : Nat) : List UInt8 := (List.range n).map fun i => tx (i % 64)

theorem sent_of_le {tx : Mem} {n : Nat} (h : n ≤ 64) : sent tx n = tx.load 0 n := by
  apply List.ext_getElem?
  intro i
  rw [sent, Mem.getElem?_load, List.getElem?_map]
  by_cases hi : i < n
  · rw [if_pos hi, List.getElem?_range hi, Option.map_some, Nat.mod_eq_of_lt (by omega), Nat.zero_add]
  · rw [if_neg hi, List.getElem?_eq_none (by simp; omega), Option.map_none]

theorem sent_split (tx : Mem) (n : Nat) : sent tx n = tx.load 0 (min n 64) ++ sent tx (n - min n 64) := by
  rcases Nat.le_total n 64 with h | h
  · rw [Nat.min_eq_left h, Nat.sub_self, sent_of_le h]
    exact (List.append_nil _).symm
  · obtain ⟨k, rfl⟩ : ∃ k, n = 64 + k := ⟨n - 64, by omega⟩
    rw [Nat.min_eq_right h, Nat.add_sub_cancel_left, ← sent_of_le (Nat.le_refl 64)]
    unfold sent
    rw [List.range_add, List.map_append, List.map_map]
    refine congrArg _ (List.map_congr_left fun i _ => ?_)
    show tx ((64 + i) % 64) = tx (i % 64)
    rw [Nat.add_mod_left]

theorem out_add (response : List UInt8) (k n : Nat) : out response (k + n) = out response k ++ out (response.drop k) n := by
  unfold out
  rw [List.range_add, List.map_append, List.map_map]
  refine congrArg _ (List.map_congr_left fun i _ => ?_)
  show response.getD (k + i) 0xFF = (response.drop k).getD i 0xFF
  rw [List.getD_eq_getElem?_getD, List.getD_eq_getElem?_getD, List.getElem?_drop]

/-- An exchange failed, with the status of the error. -/
def Chip.Breaks (chip : Chip) (e : Halt) : Prop :=
  ∃ k, e = .status (chip.spiStatus k) ∧ chip.spiStatus k ≠ xfsblSuccess

/-- An answer of the device may take longer than the polls there are. -/
def Chip.Slow (chip : Chip) (polls : Nat) : Prop :=
  ∃ k, polls ≤ chip.readyLag k ∨ polls ≤ chip.goLag k ∨ polls ≤ chip.accessLag k

/-- Why a command ends early. -/
def Chip.Fails (chip : Chip) (polls : Nat) (e : Halt) : Prop := chip.Breaks e ∨ e = .hang ∧ chip.Slow polls

section Transfer

variable {chip : Chip} {s : ChipState} {tx mem : Mem} {n : Nat}

theorem ends_fifoWriteLoop (hs : s.phase = .ready) (fuel off : Nat) (buf : Mem) (hf : n < fuel) :
    Ends (tpmTransferLoop chip.spi xfsblTpmDataFifo (some tx) none fuel n off buf mem) s
      (fun m t => m = mem ∧ t = { s with tick := t.tick, command := s.command ++ sent tx n })
      fun e t => chip.Breaks e ∧ t.executed = s.executed := by
  induction fuel generalizing s n off buf with
  | zero => omega
  | succ fuel ih =>
    rcases Nat.eq_zero_or_pos n with rfl | hn
    · show mem = mem ∧ s = { s with tick := s.tick, command := s.command ++ [] }
      rw [List.append_nil]
      exact ⟨rfl, rfl⟩
    obtain ⟨buf', heq⟩ := @transferLoop_write chip s .dataFifo n tx mem buf hn fuel off
    by_cases hspi : chip.spiStatus s.tick ≠ xfsblSuccess
    · rw [if_pos hspi] at heq
      exact ends_error heq ⟨⟨s.tick, rfl, hspi⟩, rfl⟩
    · have hwrite : chip.write s.next .dataFifo (tx.load 0 (min n 64)) =
          { s.next with command := s.command ++ tx.load 0 (min n 64) } := if_pos hs
      rw [if_neg hspi, hwrite] at heq
      have hrest := ih (s := { s.next with command := s.command ++ tx.load 0 (min n 64) }) (n := n - min n 64) hs
        (off + min n 64) buf' (by omega)
      refine (ends_congr heq).2 (hrest.imp ?_ fun e t h => h)
      rintro m t ⟨hm, ht⟩
      refine ⟨hm, ht.trans ?_⟩
      rw [sent_split tx n, ← List.append_assoc]
      rfl

theorem ends_fifoReadLoop (rx fuel off : Nat) (buf mem : Mem) (hf : n < fuel) :
    Ends (tpmTransferLoop chip.spi xfsblTpmDataFifo none (some rx) fuel n off buf mem) s
      (fun m t => m = mem.store (rx + off) (out s.response n) ∧
        t = { s with tick := t.tick, response := s.response.drop n })
      fun e t => chip.Breaks e ∧ t.executed = s.executed := by
  induction fuel generalizing s n off buf mem with
  | zero => omega
  | succ fuel ih =>
    rcases Nat.eq_zero_or_pos n with rfl | hn
    · show mem = mem.store (rx + off) [] ∧ s = { s with tick := s.tick, response := s.response.drop 0 }
      rw [Mem.store_nil]
      exact ⟨rfl, rfl⟩
    obtain ⟨buf', heq⟩ := @transferLoop_read chip s .dataFifo n mem buf hn fuel rx off
    by_cases hspi : chip.spiStatus s.tick ≠ xfsblSuccess
    · rw [if_pos hspi] at heq
      exact ends_error heq ⟨⟨s.tick, rfl, hspi⟩, rfl⟩
    · rw [if_neg hspi] at heq
      have hrest := ih (s := { s.next with response := s.response.drop (min n 64) }) (n := n - min n 64)
        (off + min n 64) buf' (mem.store (rx + off) (out s.response (min n 64))) (by omega)
      refine (ends_congr heq).2 (hrest.imp ?_ fun e t h => h)
      rintro m t ⟨hm, ht⟩
      have hlen : (out s.response (min n 64)).length = min n 64 := by simp [out]
      have hsplit := out_add s.response (min n 64) (n - min n 64)
      rw [Nat.add_sub_cancel' (Nat.min_le_left n 64)] at hsplit
      refine ⟨?_, ht.trans ?_⟩
      · rw [hm, hsplit]
        exact Mem.store_append (by rw [hlen, Nat.add_assoc])
      · dsimp only
        rw [List.drop_drop, Nat.add_sub_cancel' (Nat.min_le_left n 64)]
        rfl

theorem ends_fifoWrite (hs : s.phase = .ready) (byteCount : UInt8) :
    Ends (xfsblTpmFifoWrite chip.spi tx byteCount) s
      (fun _ t => t = { s with tick := t.tick, command := s.command ++ sent tx byteCount.toNat })
      fun e t => chip.Breaks e ∧ t.executed = s.executed := by
  have hlt := byteCount.toNat_lt
  unfold xfsblTpmFifoWrite xfsblTpmTransfer
  rw [if_neg (by unfold xfsblTpmReqMaxSize xfsblTpmRespMaxSize; omega)]
  exact ends_bind ((ends_fifoWriteLoop hs _ _ _ (Nat.lt_succ_self _)).imp (fun _ _ h => h.2) fun _ _ h => h)
    fun _ _ h => h

theorem ends_fifoRead (rx : Nat) (byteCount : UInt8) :
    Ends (xfsblTpmFifoRead chip.spi rx byteCount mem) s
      (fun m t => m = mem.store rx (out s.response byteCount.toNat) ∧
        t = { s with tick := t.tick, response := s.response.drop byteCount.toNat })
      fun e t => chip.Breaks e ∧ t.executed = s.executed := by
  have hlt := byteCount.toNat_lt
  unfold xfsblTpmFifoRead xfsblTpmTransfer
  rw [if_neg (by unfold xfsblTpmReqMaxSize xfsblTpmRespMaxSize; omega)]
  exact ends_fifoReadLoop rx _ 0 _ _ (Nat.lt_succ_self _)

theorem ends_registerSet (r : Register) (v : UInt8) :
    Ends (registerSet chip.spi r.address v) s (fun _ t => t = chip.write s.next r [v])
      fun e t => chip.Breaks e ∧ t.executed = s.executed := by
  obtain ⟨buf', heq⟩ := @transferLoop_write chip s r 1 (fun _ => v) (fun _ => 0) (fun _ => 0) Nat.one_pos 1 0
  refine ends_bind (Q := fun _ t => t = chip.write s.next r [v]) ?_ fun _ _ h => h
  by_cases hspi : chip.spiStatus s.tick ≠ xfsblSuccess
  · rw [if_pos hspi] at heq
    exact ends_error heq ⟨⟨s.tick, rfl, hspi⟩, rfl⟩
  · rw [if_neg hspi] at heq
    exact (ends_congr heq).2 rfl

theorem ends_registerGet (r : Register) :
    Ends (registerGet chip.spi r.address) s (fun v t => (s.next.read r 1).1 = [v] ∧ t = (s.next.read r 1).2)
      fun e t => chip.Breaks e ∧ t.executed = s.executed := by
  obtain ⟨buf', heq⟩ := @transferLoop_read chip s r 1 (fun _ => 0) (fun _ => 0) Nat.one_pos 1 0 0
  obtain ⟨v, hv⟩ := List.length_eq_one_iff.1 (length_read s.next r 1)
  refine ends_bind (Q := fun m t => m 0 = v ∧ t = (s.next.read r 1).2) ?_ fun m t h => ⟨by rw [hv, h.1], h.2⟩
  by_cases hspi : chip.spiStatus s.tick ≠ xfsblSuccess
  · rw [if_pos hspi] at heq
    exact ends_error heq ⟨⟨s.tick, rfl, hspi⟩, rfl⟩
  · rw [if_neg hspi] at heq
    refine (ends_congr heq).2 ⟨?_, rfl⟩
    show (Mem.store (fun _ => 0) 0 (s.next.read r 1).1) 0 = v
    rw [hv]
    rfl

end Transfer

/-! ## A command -/

/-- What the caller gets of a response: its head, and as many bytes as the size byte says. -/
def received (response : List UInt8) : List UInt8 :=
  out response (max xfsblTpmRxHeadSize (response.getD xfsblTpmDataSizeIndex 0xFF).toNat)

/-- The device takes in a command, and has executed what `s` has. -/
structure Ready (chip : Chip) (s : ChipState) (command : List UInt8) (t : ChipState) : Prop where
  phase : t.phase = .ready
  command : t.command = command
  executed : t.executed = s.executed
  access : t.access = s.access
  lag : ∃ k, t.lag ≤ chip.readyLag k

/-- The device has executed a command. -/
structure Done (chip : Chip) (s : ChipState) (command response : List UInt8) (t : ChipState) : Prop where
  phase : t.phase = .done
  response : t.response = response
  executed : t.executed = s.executed ++ [command]
  access : t.access = s.access
  lag : ∃ k, t.lag ≤ chip.goLag k

section Command

variable {chip : Chip} {polls : Nat} {s t : ChipState} {tx rx : Mem} {command response : List UInt8}

theorem ends_setReady : Ends (xfsblTpmStatusSet chip.spi xfsblTpmStsCmdReady) s (fun _ t => Ready chip s [] t)
    fun e t => chip.Fails polls e ∧ t.executed = s.executed := by
  refine (ends_registerSet .sts xfsblTpmStsCmdReady).imp ?_ fun _ _ h => ⟨.inl h.1, h.2⟩
  rintro - t rfl
  exact ⟨rfl, rfl, rfl, rfl, s.next.tick, Nat.le_refl _⟩

theorem ends_setGo (h : Ready chip s command t) : Ends (xfsblTpmStatusSet chip.spi xfsblTpmStsGo) t
    (fun _ u => Done chip s command (chip.answer (s.executed ++ [command])) u)
    fun e u => chip.Fails polls e ∧ u.executed = s.executed := by
  refine (ends_registerSet .sts xfsblTpmStsGo).imp ?_ fun _ _ hf => ⟨.inl hf.1, hf.2.trans h.executed⟩
  rintro - u rfl
  have hgo : xfsblTpmStsGo &&& xfsblTpmStsGo ≠ 0 ∧ t.next.phase = .ready := ⟨by decide, h.phase⟩
  have hwrite : chip.write t.next .sts [xfsblTpmStsGo] = { t.next with
      phase := .done, lag := chip.goLag t.next.tick, response := chip.answer (t.executed ++ [t.command]),
      executed := t.executed ++ [t.command] } := if_pos hgo
  rw [hwrite, h.executed, h.command]
  exact ⟨rfl, rfl, rfl, h.access, t.next.tick, Nat.le_refl _⟩

theorem ends_statusGet : Ends (xfsblTpmStatusGet chip.spi) s
    (fun v t => v = s.status ∧ t = { s.next with lag := s.lag - 1 })
    fun e t => chip.Fails polls e ∧ t.executed = s.executed := by
  refine (ends_registerGet .sts).imp ?_ fun _ _ h => ⟨.inl h.1, h.2⟩
  rintro v t ⟨hv, ht⟩
  exact ⟨(List.cons.inj hv).1.symm, ht⟩

theorem ends_pollReady (h : Ready chip s command t) :
    Ends (pollUntil .hang (xfsblTpmStatusGet chip.spi) (fun v => v &&& xfsblTpmStsCmdReady != 0) polls) t
      (fun _ u => Ready chip s command u) fun e u => chip.Fails polls e ∧ u.executed = s.executed := by
  refine ends_pollUntil (d := ChipState.lag) (fun u hu => ends_statusGet.imp ?_ fun _ _ hf =>
    ⟨hf.1, hf.2.trans hu.executed⟩) polls h fun hle u hu => ⟨?_, hu.executed⟩
  · rintro v w ⟨rfl, rfl⟩
    obtain ⟨k, hk⟩ := hu.lag
    have hready : Ready chip s command { u.next with lag := u.lag - 1 } :=
      ⟨hu.phase, hu.command, hu.executed, hu.access, k, show u.lag - 1 ≤ _ by omega⟩
    refine ⟨fun _ => hready, fun hstop => ⟨hready, ?_⟩⟩
    show u.lag - 1 < u.lag
    by_contra hlag
    rw [ChipState.status, if_neg (by omega), if_pos hu.phase] at hstop
    exact absurd hstop (by decide)
  · obtain ⟨k, hk⟩ := h.lag
    exact .inr ⟨rfl, k, .inl (by omega)⟩

theorem ends_pollDone (h : Done chip s command response t) :
    Ends (pollUntil .hang (xfsblTpmStatusGet chip.spi)
      (fun v => v &&& (xfsblTpmStsValid ||| xfsblTpmStsDataAvail) == xfsblTpmStsValid ||| xfsblTpmStsDataAvail) polls) t
      (fun _ u => Done chip s command response u)
      fun e u => chip.Fails polls e ∧ u.executed = s.executed ++ [command] := by
  refine ends_pollUntil (d := ChipState.lag) (fun u hu => ends_statusGet.imp ?_ fun _ _ hf =>
    ⟨hf.1, hf.2.trans hu.executed⟩) polls h fun hle u hu => ⟨?_, hu.executed⟩
  · rintro v w ⟨rfl, rfl⟩
    obtain ⟨k, hk⟩ := hu.lag
    have hdone : Done chip s command response { u.next with lag := u.lag - 1 } :=
      ⟨hu.phase, hu.response, hu.executed, hu.access, k, show u.lag - 1 ≤ _ by omega⟩
    refine ⟨fun _ => hdone, fun hstop => ⟨hdone, ?_⟩⟩
    show u.lag - 1 < u.lag
    by_contra hlag
    rw [ChipState.status, if_neg (by omega), if_neg (by rw [hu.phase]; decide), if_pos hu.phase] at hstop
    exact absurd hstop (by decide)
  · obtain ⟨k, hk⟩ := h.lag
    exact .inr ⟨rfl, k, .inr (.inl (by omega))⟩

/-- The two reads of a response. -/
theorem ends_response (h : Done chip s command response t) :
    Ends (xfsblTpmFifoRead chip.spi 0 (.ofNat xfsblTpmRxHeadSize) rx >>= fun rxBuf =>
      if (rxBuf xfsblTpmDataSizeIndex).toNat > xfsblTpmRespMaxSize then throw (.status xstFailure)
      else if (rxBuf xfsblTpmDataSizeIndex).toNat > xfsblTpmRxHeadSize then
        xfsblTpmFifoRead chip.spi xfsblTpmRxHeadSize (rxBuf xfsblTpmDataSizeIndex - .ofNat xfsblTpmRxHeadSize) rxBuf
      else pure rxBuf) t
      (fun m u => m = rx.store 0 (received response) ∧ u.executed = s.executed ++ [command])
      fun e u => chip.Fails polls e ∧ u.executed = s.executed ++ [command] := by
  refine ends_bind ((ends_fifoRead 0 _).imp (fun _ _ hu => hu) fun _ _ hf => ⟨.inl hf.1, hf.2.trans h.executed⟩) ?_
  rintro m u ⟨hm, hu⟩
  have hresponse : u.response = response.drop xfsblTpmRxHeadSize :=
    (congrArg ChipState.response hu).trans (congrArg (List.drop xfsblTpmRxHeadSize) h.response)
  have hexecuted : u.executed = s.executed ++ [command] := (congrArg ChipState.executed hu).trans h.executed
  have hhead : m = rx.store 0 (out response xfsblTpmRxHeadSize) := by
    rw [hm, h.response]
    rfl
  have hsize : m xfsblTpmDataSizeIndex = response.getD xfsblTpmDataSizeIndex 0xFF := by
    rw [hhead]
    rfl
  have hlt := (m xfsblTpmDataSizeIndex).toNat_lt
  rw [if_neg (by unfold xfsblTpmRespMaxSize; omega)]
  by_cases hlong : (m xfsblTpmDataSizeIndex).toNat > xfsblTpmRxHeadSize
  · rw [if_pos hlong]
    refine (ends_fifoRead xfsblTpmRxHeadSize _).imp ?_ fun _ _ hf => ⟨.inl hf.1, hf.2.trans hexecuted⟩
    rintro m' v ⟨hm', hv⟩
    refine ⟨?_, (congrArg ChipState.executed hv).trans hexecuted⟩
    have hrest : (m xfsblTpmDataSizeIndex - .ofNat xfsblTpmRxHeadSize).toNat =
        (m xfsblTpmDataSizeIndex).toNat - xfsblTpmRxHeadSize :=
      UInt8.toNat_sub_of_le _ _ (UInt8.le_iff_toNat_le.2 (Nat.le_of_lt hlong))
    have hbytes : received response = out response xfsblTpmRxHeadSize ++
        out (response.drop xfsblTpmRxHeadSize) ((m xfsblTpmDataSizeIndex).toNat - xfsblTpmRxHeadSize) := by
      rw [← out_add, received, ← hsize]
      exact congrArg (out response) (by omega)
    have hlen : (out response xfsblTpmRxHeadSize).length = xfsblTpmRxHeadSize := by simp [out]
    rw [hm', hrest, hresponse, hbytes, hhead]
    exact Mem.store_append (by rw [hlen, Nat.zero_add])
  · rw [if_neg hlong]
    refine ⟨?_, hexecuted⟩
    rw [hhead, received, ← hsize]
    exact congrArg (fun k => rx.store 0 (out response k)) (by omega)

/-- A command, over any bus. -/
theorem ends_dataTransfer (txlen : UInt16) : Ends (xfsblTpmDataTransfer chip.spi polls tx txlen rx) s
    (fun m t => m = rx.store 0 (received (chip.answer (s.executed ++ [sent tx txlen.toUInt8.toNat]))) ∧
      t.executed = s.executed ++ [sent tx txlen.toUInt8.toNat])
    fun e t => chip.Fails polls e ∧ (t.executed = s.executed ∨ t.executed = s.executed ++ [sent tx txlen.toUInt8.toNat]) := by
  unfold xfsblTpmDataTransfer
  refine ends_bind (ends_setReady.imp (fun _ _ h => h) fun _ _ h => ⟨h.1, .inl h.2⟩) fun _ t1 h1 => ?_
  refine ends_bind ((ends_pollReady h1).imp (fun _ _ h => h) fun _ _ h => ⟨h.1, .inl h.2⟩) fun _ t2 h2 => ?_
  refine ends_bind (Q := fun _ t => Ready chip s (sent tx txlen.toUInt8.toNat) t) ((ends_fifoWrite h2.phase _).imp ?_
    fun _ _ h => ⟨.inl h.1, .inl (h.2.trans h2.executed)⟩) fun _ t3 h3 => ?_
  · rintro - t ht
    obtain ⟨k, hk⟩ := h2.lag
    have hcommand := congrArg ChipState.command ht
    rw [h2.command] at hcommand
    exact ⟨(congrArg ChipState.phase ht).trans h2.phase, hcommand, (congrArg ChipState.executed ht).trans h2.executed,
      (congrArg ChipState.access ht).trans h2.access, k, (congrArg ChipState.lag ht).le.trans hk⟩
  refine ends_bind ((ends_setGo h3).imp (fun _ _ h => h) fun _ _ h => ⟨h.1, .inl h.2⟩) fun _ t4 h4 => ?_
  refine ends_bind ((ends_pollDone h4).imp (fun _ _ h => h) fun _ _ h => ⟨h.1, .inr h.2⟩) fun _ t5 h5 => ?_
  exact (ends_response h5).imp (fun _ _ h => h) fun _ _ h => ⟨h.1, .inr h.2⟩

/-- The bytes of a write are those of the buffer where they repeat. -/
theorem sent_eq_load_iff (tx : Mem) (n : Nat) : sent tx n = tx.load 0 n ↔ ∀ i < n, tx i = tx (i % 64) := by
  have hsent (i : Nat) (hi : i < n) : (sent tx n)[i]? = some (tx (i % 64)) := by
    rw [sent, List.getElem?_map, List.getElem?_range hi, Option.map_some]
  have hload (i : Nat) (hi : i < n) : (tx.load 0 n)[i]? = some (tx i) := by
    rw [Mem.getElem?_load, if_pos hi, Nat.zero_add]
  constructor
  · intro h i hi
    have hget := congrArg (·[i]?) h
    rw [hsent i hi, hload i hi] at hget
    exact (Option.some.inj hget).symm
  · intro h
    apply List.ext_getElem?
    intro i
    by_cases hi : i < n
    · rw [hsent i hi, hload i hi, h i hi]
    · rw [List.getElem?_eq_none (by simp [sent]; omega), List.getElem?_eq_none (by simp; omega)]

/-- **The bytes of a write**: over a bus that works, up to 1024 bytes reach the device, and they are those of the
buffer if and only if the bytes of each chunk are those of the first; more are refused, and nothing is sent. -/
theorem tpmTransfer_fifo (hspi : ∀ k, chip.spiStatus k = xfsblSuccess) (hs : s.phase = .ready) (n : Nat) (mem : Mem) :
    (n ≤ xfsblTpmReqMaxSize → ∃ t, xfsblTpmTransfer chip.spi xfsblTpmDataFifo (some tx) none n mem s = .ok mem t ∧
      t.executed = s.executed ∧ (t.command = s.command ++ tx.load 0 n ↔ ∀ i < n, tx i = tx (i % 64))) ∧
    (xfsblTpmReqMaxSize < n →
      xfsblTpmTransfer chip.spi xfsblTpmDataFifo (some tx) none n mem s = .error (.status xstFailure) s) := by
  unfold xfsblTpmTransfer
  refine ⟨fun hn => ?_, fun hn => ?_⟩
  · rw [if_neg (by unfold xfsblTpmReqMaxSize xfsblTpmRespMaxSize at *; omega)]
    obtain ⟨m, t, hrun, hm, ht⟩ := (@ends_fifoWriteLoop chip s tx mem n hs (n + 1) 0 (fun _ => 0)
      (Nat.lt_succ_self n)).ok fun e t hf => by
        obtain ⟨k, -, hk⟩ := hf.1
        exact hk (hspi k)
    have hcommand := congrArg ChipState.command ht
    have hexecuted := congrArg ChipState.executed ht
    refine ⟨t, hm ▸ hrun, hexecuted, ?_⟩
    rw [hcommand, List.append_cancel_left_eq]
    exact sent_eq_load_iff tx n
  · rw [if_pos (.inl hn)]
    rfl

/-- **The bytes of a read**: over a bus that works, for every length up to 1024, the bytes of the response lie one
behind the other in the buffer, whatever the number of chunks, and no other byte of memory changes. -/
theorem tpmTransfer_receives (hspi : ∀ k, chip.spiStatus k = xfsblSuccess) {n : Nat} (hn : n ≤ xfsblTpmReqMaxSize)
    (hlen : n ≤ s.response.length) (p : Nat) (mem : Mem) :
    ∃ m t, xfsblTpmTransfer chip.spi xfsblTpmDataFifo none (some p) n mem s = .ok m t ∧
      m.load p n = s.response.take n ∧ (∀ x, x < p ∨ p + n ≤ x → m x = mem x) ∧
      t.response = s.response.drop n := by
  unfold xfsblTpmTransfer
  rw [if_neg (by unfold xfsblTpmReqMaxSize xfsblTpmRespMaxSize at *; omega)]
  obtain ⟨m, t, hrun, hm, ht⟩ := (@ends_fifoReadLoop chip s n p (n + 1) 0 (fun _ => 0) mem
    (Nat.lt_succ_self n)).ok fun e t hf => by
      obtain ⟨k, -, hk⟩ := hf.1
      exact hk (hspi k)
  have hout : out s.response n = s.response.take n := by
    apply List.ext_getElem?
    intro i
    rw [out, List.getElem?_map, List.getElem?_take]
    by_cases hi : i < n
    · rw [List.getElem?_range hi, if_pos hi, Option.map_some, List.getD_eq_getElem?_getD,
        List.getElem?_eq_getElem (by omega), Option.getD_some]
    · rw [if_neg hi, List.getElem?_eq_none (by simp; omega), Option.map_none]
  have htake : (s.response.take n).length = n := by
    rw [List.length_take, Nat.min_eq_left hlen]
  rw [Nat.add_zero, hout] at hm
  have hresponse := congrArg ChipState.response ht
  refine ⟨m, t, hrun, ?_, fun x hx => ?_, hresponse⟩
  · have hload := Mem.load_store mem p (s.response.take n)
    rwa [htake, ← hm] at hload
  · rw [hm]
    exact Mem.store_out (by omega)

end Command

/-! ### A device -/

/-- A device that answers at once, and accepts everything. -/
def promptChip : Chip where
  spiStatus _ := xfsblSuccess
  readyLag _ := 0
  goLag _ := 0
  accessLag _ := 0
  answer _ := [0x80, 0x01, 0x00, 0x00, 0x00, 0x0A, 0x00, 0x00, 0x00, 0x00]

def idleChip : ChipState := ⟨0, .idle, 0, none, [], [], []⟩

def readyChip : ChipState := { idleChip with phase := .ready }

def sevenBytes : ChipState := { idleChip with response := .replicate 70 7 }

/-- Byte 64 of a buffer of 65 different bytes is lost. -/
theorem tpmTransfer_fifo_readyChip :
    ∃ t, xfsblTpmTransfer promptChip.spi xfsblTpmDataFifo (some UInt8.ofNat) none 65 (fun _ => 0) readyChip =
        .ok (fun _ => 0) t ∧ t.command ≠ Mem.load UInt8.ofNat 0 65 := by
  obtain ⟨t, hrun, -, hiff⟩ := (@tpmTransfer_fifo promptChip readyChip UInt8.ofNat (fun _ => rfl) rfl 65
    fun _ => 0).1 (by decide)
  refine ⟨t, hrun, fun hload => ?_⟩
  have hbyte := hiff.1 hload 64 (by decide)
  exact absurd hbyte (by decide)

theorem tpmTransfer_receives_sevenBytes :
    ∃ m t, xfsblTpmTransfer promptChip.spi xfsblTpmDataFifo none (some 4) 70 (fun _ => 0) sevenBytes = .ok m t ∧
      m.load 4 70 = .replicate 70 7 ∧ m 3 = 0 := by
  obtain ⟨m, t, hrun, hload, hrest, -⟩ := @tpmTransfer_receives promptChip sevenBytes (fun _ => rfl) 70 (by decide)
    (by decide) 4 fun _ => 0
  exact ⟨m, t, hrun, hload.trans (by decide), hrest 3 (.inl (by decide))⟩

end MeasuredBoot.Tpm
