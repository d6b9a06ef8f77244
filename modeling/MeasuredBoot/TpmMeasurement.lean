import MeasuredBoot.Lib.Run
import MeasuredBoot.TpmTransfer

/-!
# Measurements over the SPI bus (`xfsbl_tpm.c`)

The command that extends a PCR has 65 bytes, one more than a chunk, so the device executes it with the first byte of
the command in place of the last byte of the digest. `measured_executed`: in any run, whatever fails, each accepted
measurement is executed once and in its order. `pcr_measured`: the value of each PCR behind a run without failures;
`measurePartition_iff`: when the digest that is extended is the one that was given.
-/

namespace MeasuredBoot.Tpm

open Prog TransSys

/-! ## Source -/

def xfsblTpmPcrExtendIndex : Nat := 13
def xfsblTpmPcrExtCmdSize : Nat := 33
def xfsblTpmDigestSize : Nat := 32
def xfsblTpmAccessValid : UInt8 := 0x80
def xfsblTpmAccessActLocal : UInt8 := 0x20
def xfsblTpmAccessReqUse : UInt8 := 0x02

def tpmStartup : List UInt8 := [0x80, 0x01, 0x00, 0x00, 0x00, 0x0C, 0x00, 0x00, 0x01, 0x44, 0x00, 0x00]

def tpmSelfTest : List UInt8 := [0x80, 0x01, 0x00, 0x00, 0x00, 0x0C, 0x00, 0x00, 0x01, 0x43, 0x00, 0x00]

def tpmPcrExtend : List UInt8 :=
  [0x80, 0x02, 0x00, 0x00, 0x00, 0x00, 0x00, 0x00, 0x01, 0x82, 0x00, 0x00, 0x00, 0x00, 0x00, 0x00, 0x00, 0x09,
   0x40, 0x00, 0x00, 0x09, 0x00, 0x00, 0x01, 0x00, 0x00, 0x00, 0x00, 0x00, 0x01, 0x00, 0x0B]

/-- An array with the first bytes given. -/
def array (bytes : List UInt8) : Mem := Mem.store (fun _ => 0) 0 bytes

/-- `ShaData`: the words of the digest registers, the last one first. -/
def shaData (csuRomDigest : Nat → UInt32) : Mem :=
  array ((List.range 12).flatMap fun i => leBytes 4 (csuRomDigest (11 - i)).toNat)

section Source

variable {δ : Type} (spi : Spi δ) (polls : Nat)

def xfsblTpmStartUp : TpmM δ Unit := do
  let _ ← xfsblTpmDataTransfer spi polls (array tpmStartup) (array tpmStartup xfsblTpmDataSizeIndex).toUInt16 fun _ => 0

def xfsblTpmSelfTest : TpmM δ Unit := do
  let _ ← xfsblTpmDataTransfer spi polls (array tpmSelfTest) (array tpmSelfTest xfsblTpmDataSizeIndex).toUInt16 fun _ => 0

/-- `spiInit` is the status of `XFsbl_SpiInit`. -/
def xfsblTpmInit (spiInit : UInt32) : TpmM δ Unit := do
  if spiInit ≠ xfsblSuccess then throw (.status spiInit)
  else do
    xfsblTpmStartUp spi polls
    xfsblTpmSelfTest spi polls
    xfsblTpmAccessSet spi xfsblTpmAccessReqUse
    pollUntil .hang (xfsblTpmAccessGet spi)
      (fun access => access &&& xfsblTpmAccessValid != 0 && access &&& xfsblTpmAccessActLocal != 0) polls

/-- The end of both measurements: the transfer of the command, and the response code. -/
def extendPcr (tpmPcrExtend : Mem) : TpmM δ Unit := do
  let tpmRespBuffer ← xfsblTpmDataTransfer spi polls tpmPcrExtend (tpmPcrExtend xfsblTpmDataSizeIndex).toUInt16 fun _ => 0
  if tpmRespBuffer 6 ≠ 0 ∨ tpmRespBuffer 7 ≠ 0 ∨ tpmRespBuffer 8 ≠ 0 ∨ tpmRespBuffer 9 ≠ 0 then
    throw (.status xfsblFailure)
  else pure ()

def xfsblTpmMeasureRom (csuRomDigest : Nat → UInt32) : TpmM δ Unit :=
  let buffer := (array tpmPcrExtend).store xfsblTpmDataSizeIndex [.ofNat (xfsblTpmPcrExtCmdSize + xfsblTpmDigestSize)]
  let buffer := buffer.store xfsblTpmPcrExtCmdSize ((shaData csuRomDigest).load 0 xfsblTpmDigestSize)
  extendPcr spi polls buffer

def xfsblTpmMeasurePartition (pcrIndex : UInt8) (partitionHash : Mem) : TpmM δ Unit :=
  let buffer := (array tpmPcrExtend).store xfsblTpmDataSizeIndex [.ofNat (xfsblTpmPcrExtCmdSize + xfsblTpmDigestSize)]
  let buffer := buffer.store xfsblTpmPcrExtendIndex [pcrIndex]
  let buffer := buffer.store xfsblTpmPcrExtCmdSize (partitionHash.load 0 xfsblTpmDigestSize)
  extendPcr spi polls buffer

end Source

/-! ## The command -/

/-- The command that extends a PCR with a digest. -/
def extendCommand (pcrIndex : UInt8) (digest : List UInt8) : List UInt8 :=
  (tpmPcrExtend.set xfsblTpmDataSizeIndex 65).set xfsblTpmPcrExtendIndex pcrIndex ++ digest

/-- The digest that the device gets: the last byte is the first of the command. -/
def sentDigest (hash : Mem) : List UInt8 := hash.load 0 31 ++ [0x80]

section Command

variable {chip : Chip} {polls : Nat} {s : ChipState} {pcrIndex : UInt8} {buffer hash : Mem}

theorem sent_extend (hhead : buffer.load 0 33 = extendCommand pcrIndex []) (hdigest : buffer.load 33 31 = hash.load 0 31) :
    sent buffer 65 = extendCommand pcrIndex (sentDigest hash) := by
  have hfirst : buffer 0 = 0x80 := (List.cons.inj hhead).1
  have hlast : sent buffer (65 - min 65 64) = [buffer 0] := rfl
  rw [sent_split, hlast, hfirst]
  show buffer.load 0 (33 + 31) ++ [0x80] = _
  rw [Mem.load_add, hhead, Nat.zero_add, hdigest]
  unfold extendCommand sentDigest
  rw [List.append_nil, List.append_assoc]

/-- What is stored behind the command. -/
theorem load_digest (buffer : Mem) : (buffer.store 33 (hash.load 0 32)).load 33 31 = hash.load 0 31 := by
  have hholds := Mem.holds_store buffer 33 (hash.load 0 32)
  have hpart := hholds.part (i := 0) (n := 31) (by rw [Mem.length_load]; decide)
  rw [List.drop_zero] at hpart
  refine hpart.trans ?_
  rw [show 32 = 31 + 1 from rfl, Mem.load_add]
  exact List.take_left' (Mem.length_load ..)

theorem load_command (buffer : Mem) (bytes : List UInt8) : (buffer.store 33 bytes).load 0 33 = buffer.load 0 33 :=
  Mem.load_store_disj (.inl (Nat.le_refl 33))

/-- The response code is zero, as far as it is received. -/
def Accepts (response : List UInt8) : Prop :=
  (received response).getD 6 0 = 0 ∧ (received response).getD 7 0 = 0 ∧ (received response).getD 8 0 = 0 ∧
    (received response).getD 9 0 = 0

theorem length_received (response : List UInt8) : 10 ≤ (received response).length := by
  unfold received out
  rw [List.length_map, List.length_range]
  exact Nat.le_max_left _ _

theorem ends_extendPcr (hsize : buffer xfsblTpmDataSizeIndex = 65) : Ends (extendPcr chip.spi polls buffer) s
    (fun _ t => Accepts (chip.answer (s.executed ++ [sent buffer 65])) ∧ t.executed = s.executed ++ [sent buffer 65])
    fun e t => (chip.Fails polls e ∨
        e = .status xfsblFailure ∧ ¬ Accepts (chip.answer (s.executed ++ [sent buffer 65]))) ∧
      (t.executed = s.executed ∨ t.executed = s.executed ++ [sent buffer 65]) := by
  have hlen : (buffer xfsblTpmDataSizeIndex).toUInt16.toUInt8.toNat = 65 := by rw [hsize]; decide
  have hrun := @ends_dataTransfer chip polls s buffer (fun _ => 0) (buffer xfsblTpmDataSizeIndex).toUInt16
  rw [hlen] at hrun
  refine ends_bind (hrun.imp (fun _ _ h => h) fun _ _ h => ⟨.inl h.1, h.2⟩) ?_
  rintro m t ⟨hm, ht⟩
  have hbyte (i : Nat) (hi : i < 10) :
      m i = (received (chip.answer (s.executed ++ [sent buffer 65]))).getD i 0 := by
    have hin : i < (received (chip.answer (s.executed ++ [sent buffer 65]))).length :=
      Nat.lt_of_lt_of_le hi (length_received _)
    have hstore := @Mem.store_in (fun _ => 0) 0 i _ hin
    rw [Nat.zero_add] at hstore
    rw [hm, hstore, List.getD_eq_getElem?_getD, List.getElem?_eq_getElem hin, Option.getD_some]
  have haccepts : Accepts (chip.answer (s.executed ++ [sent buffer 65])) ↔
      ¬ (m 6 ≠ 0 ∨ m 7 ≠ 0 ∨ m 8 ≠ 0 ∨ m 9 ≠ 0) := by
    rw [Accepts, ← hbyte 6 (by decide), ← hbyte 7 (by decide), ← hbyte 8 (by decide), ← hbyte 9 (by decide)]
    simp only [not_or, not_not]
  by_cases hcode : m 6 ≠ 0 ∨ m 7 ≠ 0 ∨ m 8 ≠ 0 ∨ m 9 ≠ 0
  · rw [if_pos hcode]
    exact ⟨.inr ⟨rfl, fun h => haccepts.1 h hcode⟩, .inr ht⟩
  · rw [if_neg hcode]
    exact ⟨haccepts.2 hcode, ht⟩

theorem sent_partition : sent ((((array tpmPcrExtend).store xfsblTpmDataSizeIndex
      [.ofNat (xfsblTpmPcrExtCmdSize + xfsblTpmDigestSize)]).store xfsblTpmPcrExtendIndex [pcrIndex]).store
      xfsblTpmPcrExtCmdSize (hash.load 0 xfsblTpmDigestSize)) 65 = extendCommand pcrIndex (sentDigest hash) :=
  sent_extend ((load_command _ _).trans rfl) (load_digest _)

/-- The ROM is measured as a partition is, into PCR 0. -/
theorem measureRom_eq {δ : Type} (spi : Spi δ) (csuRomDigest : Nat → UInt32) :
    xfsblTpmMeasureRom spi polls csuRomDigest = xfsblTpmMeasurePartition spi polls 0 (shaData csuRomDigest) := by
  have hzero : ((array tpmPcrExtend).store xfsblTpmDataSizeIndex
      [.ofNat (xfsblTpmPcrExtCmdSize + xfsblTpmDigestSize)]).Holds xfsblTpmPcrExtendIndex [0] := rfl
  unfold xfsblTpmMeasureRom xfsblTpmMeasurePartition
  dsimp only
  rw [Mem.store_of_holds hzero]

/-- A measurement, over any bus. -/
theorem ends_measurePartition : Ends (xfsblTpmMeasurePartition chip.spi polls pcrIndex hash) s
    (fun _ t => Accepts (chip.answer (s.executed ++ [extendCommand pcrIndex (sentDigest hash)])) ∧
      t.executed = s.executed ++ [extendCommand pcrIndex (sentDigest hash)])
    fun e t => (chip.Fails polls e ∨ e = .status xfsblFailure ∧
        ¬ Accepts (chip.answer (s.executed ++ [extendCommand pcrIndex (sentDigest hash)]))) ∧
      (t.executed = s.executed ∨ t.executed = s.executed ++ [extendCommand pcrIndex (sentDigest hash)]) := by
  have h := @ends_extendPcr chip polls s _ (show ((((array tpmPcrExtend).store xfsblTpmDataSizeIndex
      [.ofNat (xfsblTpmPcrExtCmdSize + xfsblTpmDigestSize)]).store xfsblTpmPcrExtendIndex [pcrIndex]).store
      xfsblTpmPcrExtCmdSize (hash.load 0 xfsblTpmDigestSize)) xfsblTpmDataSizeIndex = 65 from rfl)
  rwa [sent_partition] at h

/-- **What is measured**: an accepted measurement extends the PCR with the first 32 bytes of the hash if and only if
byte 31 is `0x80`. -/
theorem measurePartition_iff {t : ChipState}
    (h : xfsblTpmMeasurePartition chip.spi polls pcrIndex hash s = .ok () t) :
    t.executed = s.executed ++ [extendCommand pcrIndex (hash.load 0 32)] ↔ hash 31 = 0x80 := by
  obtain ⟨-, hexec⟩ := (ends_iff.1 (@ends_measurePartition chip polls s pcrIndex hash)).1 () t h
  have hload : hash.load 0 32 = hash.load 0 31 ++ [hash 31] := hash.load_add 0 31 1
  rw [hexec, List.append_cancel_left_eq, hload]
  unfold extendCommand sentDigest
  constructor
  · intro heq
    have htail := List.append_cancel_left (List.append_cancel_left (List.cons.inj heq).1)
    exact (List.cons.inj htail).1.symm
  · intro hbyte
    rw [hbyte]

/-- **When a measurement is accepted**: over a bus that works, with a device that answers in time, exactly where the
response code is zero. -/
theorem measurePartition_accepted_iff (hspi : ∀ k, chip.spiStatus k = xfsblSuccess) (hfast : ¬ chip.Slow polls) :
    (∃ t, xfsblTpmMeasurePartition chip.spi polls pcrIndex hash s = .ok () t) ↔
      Accepts (chip.answer (s.executed ++ [extendCommand pcrIndex (sentDigest hash)])) := by
  obtain ⟨hok, herr⟩ := ends_iff.1 (@ends_measurePartition chip polls s pcrIndex hash)
  constructor
  · rintro ⟨t, ht⟩
    exact (hok () t ht).1
  · intro hacc
    cases hrun : xfsblTpmMeasurePartition chip.spi polls pcrIndex hash s with
    | ok u t => exact ⟨t, rfl⟩
    | error e t =>
      rcases (herr e t hrun).1 with (⟨k, -, hk⟩ | ⟨-, hslow⟩) | ⟨-, hrej⟩
      · exact absurd (hspi k) hk
      · exact absurd hslow hfast
      · exact absurd hacc hrej

end Command

/-! ## Start of the device -/

section Init

variable {chip : Chip} {polls : Nat} {s : ChipState} {command : List UInt8}

/-- A command of one chunk, whose response nobody reads. -/
theorem ends_command (txlen : UInt16) (hsent : sent (array command) txlen.toUInt8.toNat = command) :
    Ends (xfsblTpmDataTransfer chip.spi polls (array command) txlen (fun _ => 0) >>= fun _ => pure ()) s
      (fun _ t => t.executed = s.executed ++ [command])
      fun e t => chip.Fails polls e ∧ (t.executed = s.executed ∨ t.executed = s.executed ++ [command]) := by
  have h := @ends_dataTransfer chip polls s (array command) (fun _ => 0) txlen
  rw [hsent] at h
  exact ends_bind (h.imp (fun _ _ h => h) fun _ _ h => h) fun _ _ h => h.2

theorem ends_accessGet : Ends (xfsblTpmAccessGet chip.spi) s
    (fun v t => v = (if s.access = some 0 then 0xA0 else 0x80) ∧ t = { s.next with access := s.access.map (· - 1) })
    fun e t => chip.Breaks e ∧ t.executed = s.executed := by
  refine (ends_registerGet .access).imp ?_ fun _ _ h => h
  rintro v t ⟨hv, ht⟩
  exact ⟨(List.cons.inj hv).1.symm, ht⟩

/-- The wait for the access, once it is requested. -/
theorem ends_pollAccess {j k : Nat} (haccess : s.access = some j) (hj : j ≤ chip.accessLag k) :
    Ends (pollUntil .hang (xfsblTpmAccessGet chip.spi)
      (fun access => access &&& xfsblTpmAccessValid != 0 && access &&& xfsblTpmAccessActLocal != 0) polls) s
      (fun _ t => t.access = some 0 ∧ t.executed = s.executed)
      fun e t => chip.Fails polls e ∧ t.executed = s.executed := by
  refine ends_pollUntil (I := fun t => (∃ j, t.access = some j) ∧ t.executed = s.executed)
    (d := fun t => t.access.getD 0) (fun u hu => ends_accessGet.imp ?_ fun _ _ hf => ⟨.inl hf.1, hf.2.trans hu.2⟩)
    polls ⟨⟨j, haccess⟩, rfl⟩ fun hle t ht => ⟨.inr ⟨rfl, k, .inr (.inr ?_)⟩, ht.2⟩
  · rintro v w ⟨rfl, rfl⟩
    obtain ⟨⟨i, hi⟩, hexec⟩ := hu
    cases i with
    | zero =>
      rw [if_pos hi]
      exact ⟨fun _ => ⟨by rw [hi]; rfl, hexec⟩, fun hstop => absurd hstop (by decide)⟩
    | succ i =>
      rw [if_neg (by rw [hi]; simp)]
      refine ⟨fun hstop => absurd hstop (by decide), fun _ => ⟨⟨⟨i, by rw [hi]; rfl⟩, hexec⟩, ?_⟩⟩
      show (u.access.map (· - 1)).getD 0 < u.access.getD 0
      rw [hi]
      exact Nat.lt_succ_self i
  · rw [haccess] at hle
    exact Nat.le_trans hle hj

end Init

/-! ## Runs -/

structure Measurement where
  pcrIndex : UInt8
  hash : Mem

def Measurement.command (m : Measurement) : List UInt8 := extendCommand m.pcrIndex (sentDigest m.hash)

/-- The device, the measurements that were called for, and those of them that succeeded. -/
structure TpmRun where
  state : ChipState
  attempted : List Measurement
  measured : List Measurement

/-- Any measurements, one behind the other, from a device that has executed `before`. -/
def tpmSystem (chip : Chip) (polls : Nat) (before : List (List UInt8)) : TransSys TpmRun where
  init r := r.attempted = [] ∧ r.measured = [] ∧ r.state.executed = before
  next r r' := ∃ m : Measurement, r'.attempted = r.attempted ++ [m] ∧
    (xfsblTpmMeasurePartition chip.spi polls m.pcrIndex m.hash r.state = .ok () r'.state ∧
        r'.measured = r.measured ++ [m] ∨
      (∃ e, xfsblTpmMeasurePartition chip.spi polls m.pcrIndex m.hash r.state = .error e r'.state) ∧
        r'.measured = r.measured)

/-- What a run has executed, between what succeeded and what was tried. -/
def Recorded (before : List (List UInt8)) (r : TpmRun) : Prop :=
  ∃ commands, r.state.executed = before ++ commands ∧
    (r.measured.map Measurement.command).Sublist commands ∧
    commands.Sublist (r.attempted.map Measurement.command)

section Run

variable {chip : Chip} {polls : Nat} {before : List (List UInt8)}

theorem recorded_step {r r' : TpmRun} (hr : Recorded before r) (h : (tpmSystem chip polls before).next r r') :
    Recorded before r' := by
  obtain ⟨commands, hexec, hmeasured, hattempted⟩ := hr
  obtain ⟨m, hatt, hcase⟩ := h
  obtain ⟨hok, herr⟩ := ends_iff.1 (@ends_measurePartition chip polls r.state m.pcrIndex m.hash)
  have hmap : r'.attempted.map Measurement.command = r.attempted.map Measurement.command ++ [m.command] := by
    rw [hatt, List.map_append]
    rfl
  rcases hcase with ⟨hrun, hmeas⟩ | ⟨⟨e, hrun⟩, hmeas⟩
  · refine ⟨commands ++ [m.command], ?_, ?_, ?_⟩
    · rw [(hok () _ hrun).2, hexec, List.append_assoc]
      rfl
    · rw [hmeas, List.map_append]
      exact hmeasured.append (List.Sublist.refl _)
    · rw [hmap]
      exact hattempted.append (List.Sublist.refl _)
  · rcases (herr e _ hrun).2 with hsame | hmore
    · refine ⟨commands, hsame.trans hexec, by rwa [hmeas], ?_⟩
      rw [hmap]
      exact hattempted.trans (List.sublist_append_left _ _)
    · refine ⟨commands ++ [m.command], ?_, ?_, ?_⟩
      · rw [hmore, hexec, List.append_assoc]
        rfl
      · rw [hmeas]
        exact hmeasured.trans (List.sublist_append_left _ _)
      · rw [hmap]
        exact hattempted.append (List.Sublist.refl _)

theorem recorded_reachable {r : TpmRun} (h : (tpmSystem chip polls before).Reachable r) : Recorded before r := by
  refine h.inv ?_ fun _ _ hr _ hnext => recorded_step hr hnext
  rintro r ⟨hatt, hmeas, hexec⟩
  refine ⟨[], ?_, ?_, ?_⟩
  · rw [hexec, List.append_nil]
  · rw [hmeas]
    exact List.Sublist.refl _
  · rw [hatt]
    exact List.Sublist.refl _

/-- **No measurement is lost or made twice**: in any run, however the bus and the device fail, the commands executed
have each successful measurement once and in order, and nothing that was not called for. -/
theorem measured_executed {r : TpmRun} (h : (tpmSystem chip polls before).Reachable r) :
    ∃ commands, r.state.executed = before ++ commands ∧
      (r.measured.map Measurement.command).Sublist commands ∧
      commands.Sublist (r.attempted.map Measurement.command) :=
  recorded_reachable h

/-! ### PCRs -/

/-- The PCR that a command extends, and with what. -/
def extendOf (c : List UInt8) : Option (UInt8 × List UInt8) :=
  if c = extendCommand (c.getD 13 0) (c.drop 33) then some (c.getD 13 0, c.drop 33) else none

/-- The value of a PCR, from `v` on, with the hash of the device. -/
def pcrValue (sha : List UInt8 → List UInt8) (pcrIndex : UInt8) : List (List UInt8) → List UInt8 → List UInt8
  | [], v => v
  | c :: executed, v => pcrValue sha pcrIndex executed
      ((extendOf c).elim v fun e => if e.1 = pcrIndex then sha (v ++ e.2) else v)

theorem extendOf_command (m : Measurement) : extendOf m.command = some (m.pcrIndex, sentDigest m.hash) := by
  have hindex : m.command.getD 13 0 = m.pcrIndex := rfl
  have hdigest : m.command.drop 33 = sentDigest m.hash := rfl
  unfold extendOf
  rw [hindex, hdigest]
  exact if_pos rfl

theorem pcrValue_append (sha : List UInt8 → List UInt8) (i : UInt8) (xs ys : List (List UInt8)) (v : List UInt8) :
    pcrValue sha i (xs ++ ys) v = pcrValue sha i ys (pcrValue sha i xs v) := by
  induction xs generalizing v with
  | nil => rfl
  | cons c xs ih => exact ih _

theorem pcrValue_measured (sha : List UInt8 → List UInt8) (i : UInt8) (ms : List Measurement) (v : List UInt8) :
    pcrValue sha i (ms.map Measurement.command) v =
      (ms.filter fun m => m.pcrIndex = i).foldl (fun v m => sha (v ++ sentDigest m.hash)) v := by
  induction ms generalizing v with
  | nil => rfl
  | cons m ms ih =>
    rw [List.map_cons, pcrValue, extendOf_command, Option.elim_some, ih, List.filter_cons]
    by_cases hm : m.pcrIndex = i
    · rw [if_pos hm, if_pos (decide_eq_true hm), List.foldl_cons]
    · rw [if_neg hm, if_neg (by simpa using hm)]

/-- **The PCRs**: behind a run in which every measurement succeeds, a PCR is what was in it, extended with each of the
digests measured there, of which the first 31 bytes count. -/
theorem pcr_measured (sha : List UInt8 → List UInt8) (i : UInt8) (v : List UInt8) {r : TpmRun}
    (h : (tpmSystem chip polls before).Reachable r) (hall : r.attempted.length = r.measured.length) :
    pcrValue sha i r.state.executed v = (r.measured.filter fun m => m.pcrIndex = i).foldl
      (fun v m => sha (v ++ (m.hash.load 0 31 ++ [0x80]))) (pcrValue sha i before v) := by
  obtain ⟨commands, hexec, hmeasured, hattempted⟩ := recorded_reachable h
  have hle := hattempted.length_le
  rw [List.length_map, hall, ← List.length_map (f := Measurement.command)] at hle
  have heq : r.measured.map Measurement.command = commands := hmeasured.eq_of_length_le hle
  rw [hexec, pcrValue_append, ← heq]
  exact pcrValue_measured sha i r.measured _

end Run

/-! ### A run -/

theorem not_slow_promptChip : ¬ promptChip.Slow 1 := by
  rintro ⟨k, h | h | h⟩
  all_goals exact Nat.not_succ_le_zero 0 h

theorem measurePartition_promptChip (m : Measurement) (s : ChipState) :
    ∃ t, xfsblTpmMeasurePartition promptChip.spi 1 m.pcrIndex m.hash s = .ok () t ∧
      t.executed = s.executed ++ [m.command] := by
  obtain ⟨_, t, hrun, -, hexec⟩ := (@ends_measurePartition promptChip 1 s m.pcrIndex m.hash).ok fun e t hf => by
    rcases hf.1 with (⟨k, -, hk⟩ | ⟨-, hslow⟩) | ⟨-, hrej⟩
    · exact hk rfl
    · exact not_slow_promptChip hslow
    · exact hrej (show Accepts [0x80, 0x01, 0x00, 0x00, 0x00, 0x0A, 0x00, 0x00, 0x00, 0x00] from
        ⟨by decide, by decide, by decide, by decide⟩)
  exact ⟨t, hrun, hexec⟩

/-- A hash of sevens, for the ATF. -/
def atfMeasurement : Measurement := ⟨2, fun _ => 7⟩

/-- The device does not get the hash. -/
theorem measurePartition_iff_promptChip :
    ∃ t, xfsblTpmMeasurePartition promptChip.spi 1 2 (fun _ => 7) idleChip = .ok () t ∧
      t.executed ≠ [extendCommand 2 (Mem.load (fun _ => 7) 0 32)] := by
  obtain ⟨t, hrun, -⟩ := measurePartition_promptChip atfMeasurement idleChip
  exact ⟨t, hrun, fun hexec => absurd ((measurePartition_iff hrun).1 hexec) (by decide)⟩

theorem measurePartition_accepted_iff_promptChip :
    ∃ t, xfsblTpmMeasurePartition promptChip.spi 1 2 (fun _ => 7) idleChip = .ok () t :=
  (measurePartition_accepted_iff (fun _ => rfl) not_slow_promptChip).2
    (show Accepts [0x80, 0x01, 0x00, 0x00, 0x00, 0x0A, 0x00, 0x00, 0x00, 0x00] from
      ⟨by decide, by decide, by decide, by decide⟩)

theorem reachable_promptChip : ∃ t, (tpmSystem promptChip 1 []).Reachable ⟨t, [atfMeasurement], [atfMeasurement]⟩ := by
  obtain ⟨t, hrun, -⟩ := measurePartition_promptChip atfMeasurement idleChip
  have hinit : (tpmSystem promptChip 1 []).init ⟨idleChip, [], []⟩ := ⟨rfl, rfl, rfl⟩
  exact ⟨t, _, hinit, .snoc (.refl _) trivial ⟨atfMeasurement, rfl, .inl ⟨hrun, rfl⟩⟩⟩

theorem measured_executed_promptChip :
    ∃ t commands, (tpmSystem promptChip 1 []).Reachable ⟨t, [atfMeasurement], [atfMeasurement]⟩ ∧
      t.executed = commands ∧ [atfMeasurement.command].Sublist commands := by
  obtain ⟨t, hr⟩ := reachable_promptChip
  obtain ⟨commands, hexec, hmeasured, -⟩ := measured_executed hr
  exact ⟨t, commands, hr, hexec, hmeasured⟩

theorem pcr_measured_promptChip :
    ∃ t, (tpmSystem promptChip 1 []).Reachable ⟨t, [atfMeasurement], [atfMeasurement]⟩ ∧
      pcrValue id 2 t.executed [] = .replicate 31 7 ++ [0x80] := by
  obtain ⟨t, hr⟩ := reachable_promptChip
  exact ⟨t, hr, (pcr_measured id 2 [] hr rfl).trans rfl⟩

end MeasuredBoot.Tpm
