import MeasuredBoot.Acts
import MeasuredBoot.Measure

/-!
# The acts of the measuring functions

For each measuring function: the kinds of acts of any of its runs, and the exact
acts of a successful one (`tpmMeasurePartition_ok`, `tpmMeasurePl_ok`). `LogAct s A`
are the acts one measurement of `s` may make.
-/

namespace MeasuredBoot

open Prog

/-- Prints and wake-ups: acts without an effect. -/
def Act.Idle : Act → Prop
  | .flushed .. => True
  | .pmuWoken => True
  | _ => False

/-- The longest event: the device tree blob. -/
def maxEventSize : Nat := 83

/-! ## Partitions -/

/-- The event the ladder records. -/
def ladderEvent (partition : Nat) (digest : Digest) : Option Event :=
  if partition = 1 then some ⟨3, evPostCode, digest, some bl31Name⟩
  else if partition = 2 then some ⟨5, evPostCode, digest, some deviceTreeBlobName⟩
  else if partition = 3 then some ⟨4, evPostCode, digest, some uBootName⟩
  else if partition = 4 then some ⟨3, evPostCode, digest, some opTeeName⟩
  else none

/-- What the ladder does with it. -/
def recordActs (n partition : Nat) (digest : Digest) : List Act :=
  match ladderEvent partition digest with
  | some e => [.recorded (.partition n) e, .counted]
  | none => []

theorem ladderEvent_digest {p : Nat} {d : Digest} {e : Event} (h : ladderEvent p d = some e) :
    e.digest = d := by
  unfold ladderEvent at h
  split at h <;> [skip; split at h <;> [skip; split at h <;> [skip; split at h]]] <;>
    cases h <;> rfl

theorem ladderEvent_isSome {p : Nat} (d : Digest) (h1 : 1 ≤ p) (h4 : p ≤ 4) :
    ∃ e, ladderEvent p d = some e := by
  obtain rfl | rfl | rfl | rfl : p = 1 ∨ p = 2 ∨ p = 3 ∨ p = 4 := by omega
  all_goals exact ⟨_, rfl⟩

theorem length_ladderEvent {p : Nat} {d : Digest} {e : Event} (h : ladderEvent p d = some e) :
    e.bytes.length ≤ maxEventSize := by
  rw [e.length_bytes]
  unfold ladderEvent at h
  split at h <;> [skip; split at h <;> [skip; split at h <;> [skip; split at h]]] <;>
    cases h <;> simp only [Event.nameLen] <;> decide

/-- The acts of one measurement of a partition. -/
def MeasureAct (n : Nat) : Act → Prop
  | .hashed (.partition m) _ _ => m = n
  | .hashed (.bitstream m) _ _ => m = n
  | .recorded (.partition m) e => m = n ∧ ∃ p d, ladderEvent p d = some e
  | .recorded (.bitstream m) e => m = n ∧ ∃ d, e = bitstreamEvent d
  | .counted => True
  | .flushed .. => True
  | .pmuWoken => True
  | _ => False

/-- A flush after a print: of nothing, at the start of the log. -/
def Act.Print : Act → Prop
  | .flushed start len => start = eventLogStart ∧ len = 0
  | _ => False

/-- No wake-up of the PMU, and a flush only as the print leaves it. -/
def Act.Inner : Act → Prop
  | .pmuWoken => False
  | .flushed start len => start = eventLogStart ∧ len = 0
  | _ => True

/-- The acts of one measurement, the flush as the print leaves it. -/
def RecordAct (n : Nat) (a : Act) : Prop := MeasureAct n a ∧ a.Inner

theorem recordAct_of_print {n : Nat} (a : Act) (h : a.Print) : RecordAct n a := by
  cases a <;> first | exact ⟨trivial, h⟩ | exact h.elim

instance (n : Nat) (R : World → World → Prop) [Steps (MeasureAct n) R] : Steps (RecordAct n) R :=
  Steps.of_imp (A := RecordAct n) (B := MeasureAct n) fun _ h => h.1

/-- The acts of one measurement of a bitstream. -/
def PlAct (n : Nat) : Act → Prop
  | .hashed (.bitstream m) _ _ => m = n
  | .recorded (.bitstream m) e => m = n ∧ ∃ d, e = bitstreamEvent d
  | _ => False

theorem recordAct_of_plAct {n : Nat} (a : Act) (h : PlAct n a) : RecordAct n a := by
  cases a with
  | hashed s =>
    cases s with
    | bitstream m => exact ⟨h, trivial⟩
    | _ => exact h.elim
  | recorded s =>
    cases s with
    | bitstream m => exact ⟨h, trivial⟩
    | _ => exact h.elim
  | _ => exact h.elim

instance (n : Nat) (R : World → World → Prop) [Steps (RecordAct n) R] : Steps (PlAct n) R :=
  Steps.of_imp (recordAct_of_plAct (n := n))

theorem idle_of_print (a : Act) (h : a.Print) : a.Idle := by
  cases a <;> first | exact h.elim | trivial

theorem measureAct_of_idle {n : Nat} (a : Act) (h : a.Idle) : MeasureAct n a := by
  cases a <;> trivial

theorem measureAct_of_recordActs {n p : Nat} {d : Digest} :
    ∀ a ∈ recordActs n p d, MeasureAct n a := by
  intro a ha
  unfold recordActs at ha
  cases h : ladderEvent p d with
  | none => simp [h] at ha
  | some e =>
    simp only [h, List.mem_cons, List.not_mem_nil, or_false] at ha
    rcases ha with rfl | rfl
    · exact ⟨rfl, _, _, h⟩
    · trivial

section Frames

variable (hw : Hw) (n : Nat)

section Relation

variable {R : World → World → Prop}

theorem frame_flushPrinted [Steps Act.Print R] {run : PrintRun}
    (hrun : run.stop = .done → run.left = 0) : Frame R (flushPrinted run) := by
  unfold flushPrinted
  split
  · exact frame_step (show Act.Print (.flushed _ _) from ⟨rfl, hrun (by assumption)⟩)
  · exact frame_throw _
  · exact frame_throw _

theorem frame_printEventLog [Steps Act.Print R] : Frame R printEventLog :=
  frame_bind frame_get fun _ => frame_flushPrinted PrintRun.left_of_done

variable [Steps (RecordAct n) R]

theorem frame_recordPartition (p : Nat) {d : Digest} {e : Event} {pcr : UInt32} {name : CStr}
    (h : ladderEvent p d = some e) (he : e = ⟨pcr, evPostCode, d, some name⟩) :
    Frame R (recordPartition n d pcr name) := by
  subst he
  have hevent : RecordAct n (.recorded (.partition n) ⟨pcr, evPostCode, d, some name⟩) :=
    ⟨⟨rfl, p, d, h⟩, trivial⟩
  exact frame_bind (frame_step hevent) fun _ =>
    frame_step (show RecordAct n .counted from ⟨trivial, trivial⟩)

theorem frame_recordLadder (p : Nat) (d : Digest) :
    Frame R (recordLadder n p d) := by
  have : Steps Act.Print R := Steps.of_imp (recordAct_of_print (n := n))
  unfold recordLadder
  refine frame_ite (fun h => frame_recordPartition n 1 rfl rfl) fun _ => ?_
  refine frame_ite (fun h => frame_recordPartition n 2 rfl rfl) fun _ => ?_
  refine frame_ite (fun h => frame_recordPartition n 3 rfl rfl) fun _ => ?_
  refine frame_ite (fun h => ?_) fun _ => frame_pure _
  refine frame_bind (frame_recordPartition n 4 rfl rfl) fun _ => ?_
  exact frame_printEventLog

theorem frame_tpmMeasurePartition (loadAddress : UInt64) :
    Frame R (tpmMeasurePartition hw n loadAddress) := by
  refine frame_bind (frame_header n) fun h => ?_
  refine frame_bind (frame_loadMem _ _) fun input => ?_
  refine frame_bind (frame_shaDigest hw input) fun digest => ?_
  refine frame_bind (frame_step (A := RecordAct n) ⟨rfl, trivial⟩) fun _ => ?_
  exact frame_bind frame_get fun w => frame_recordLadder n _ _

end Relation

end Frames

section Success

variable {hw : Hw} {n : Nat} {w w' : World} {u : Unit}

theorem recordPartition_ok {p : Nat} {d : Digest} {pcr : UInt32} {name : CStr}
    (he : ladderEvent p d = some ⟨pcr, evPostCode, d, some name⟩)
    (h : recordPartition n d pcr name w = .ok u w') : Moves (recordActs n p d) w w' := by
  obtain ⟨_, v, h1, h⟩ := bind_ok.1 h
  rw [← act_ok.1 h, ← act_ok.1 h1, recordActs, he]
  exact (Moves.act w _).trans (.act _ _)

theorem flushPrinted_ok {run : PrintRun} (h : flushPrinted run w = .ok u w') :
    ∃ idle, (∀ a ∈ idle, Act.Idle a) ∧ Moves idle w w' := by
  unfold flushPrinted at h
  cases hs : run.stop with
  | done =>
    rw [hs] at h
    rw [← act_ok.1 h]
    exact ⟨_, by simp [Act.Idle], .act w _⟩
  | unset => simp [hs] at h
  | running => simp [hs] at h

theorem printEventLog_ok (h : printEventLog w = .ok u w') :
    ∃ idle, (∀ a ∈ idle, Act.Idle a) ∧ Moves idle w w' := by
  obtain ⟨v, t, h1, h⟩ := bind_ok.1 h
  obtain ⟨rfl, rfl⟩ := get_ok.1 h1
  exact flushPrinted_ok h

theorem recordLadder_ok {p : Nat} {d : Digest} (h : recordLadder n p d w = .ok u w') :
    ∃ idle, (∀ a ∈ idle, Act.Idle a) ∧ Moves (recordActs n p d ++ idle) w w' := by
  have last {q : Nat} (hq : Moves (recordActs n q d) w w') :
      ∃ idle, (∀ a ∈ idle, Act.Idle a) ∧ Moves (recordActs n q d ++ idle) w w' :=
    ⟨[], by simp, by rwa [List.append_nil]⟩
  unfold recordLadder at h
  split at h
  · subst p
    exact last (recordPartition_ok rfl h)
  split at h
  · subst p
    exact last (recordPartition_ok rfl h)
  split at h
  · subst p
    exact last (recordPartition_ok rfl h)
  split at h
  · subst p
    obtain ⟨_, v, h1, h⟩ := bind_ok.1 h
    obtain ⟨idle, hi, h2⟩ := printEventLog_ok h
    exact ⟨idle, hi, (recordPartition_ok (p := 4) rfl h1).trans h2⟩
  · obtain ⟨-, rfl⟩ := pure_ok.1 h
    refine last ?_
    rw [recordActs, ladderEvent]
    simp only [*, if_false]
    exact .refl w

/-- The digest of a measurement: the hash of its input, unless the SHA3 engine timed out. -/
def IsDigest (hw : Hw) (input : List UInt8) (d : Digest) : Prop :=
  d = sha3 hw input ∨ d = zeroDigest ∧ ∃ t, hw.sha t = .timeout

/-- `Tpm_Measure_Partition` hashes `UnEncryptedDataWordLength << 2` bytes from the load address. -/
theorem tpmMeasurePartition_ok {loadAddress : UInt64}
    (h : tpmMeasurePartition hw n loadAddress w = .ok u w') :
    ∃ (_ : n < 32) (d : Digest) (idle : List Act),
      let input := w.mem.load loadAddress.toNat
        (w.inst.imageHeader.partitionHeader[n].unEncryptedDataWordLength <<< 2).toNat
      IsDigest hw input d ∧ (∀ a ∈ idle, Act.Idle a) ∧
        Moves (.hashed (.partition n) loadAddress.toNat input :: recordActs n w.partition d ++ idle)
          w w' := by
  obtain ⟨ph, t, h1, h⟩ := bind_ok.1 h
  obtain ⟨⟨hn, rfl⟩, rfl⟩ := header_ok.1 h1
  obtain ⟨input, t, h2, h⟩ := bind_ok.1 h
  obtain ⟨rfl, rfl⟩ := loadMem_ok.1 h2
  obtain ⟨d, t, h3, h⟩ := bind_ok.1 h
  obtain ⟨ht, hd⟩ := shaDigest_ok h3
  obtain ⟨_, v, h4, h⟩ := bind_ok.1 h
  obtain rfl := act_ok.1 h4
  obtain ⟨v, v', h5, h⟩ := bind_ok.1 h
  obtain ⟨rfl, rfl⟩ := get_ok.1 h5
  obtain ⟨idle, hi, h6⟩ := recordLadder_ok h
  have hp (input : List UInt8) :
      (t.apply (.hashed (.partition n) loadAddress.toNat input)).partition = w.partition :=
    ht.moves.partition
  rw [hp] at h6
  exact ⟨hn, d, idle, hd, hi, (ht.moves.trans (.act t _)).trans h6⟩

end Success

/-! ## Bitstreams -/

theorem length_bitstreamEvent (d : Digest) : (bitstreamEvent d).bytes.length ≤ maxEventSize := by
  rw [(bitstreamEvent d).length_bytes]
  simp only [Event.nameLen, bitstreamEvent]
  decide

section Frames

variable (hw : Hw) (n : Nat)

theorem frame_plMeasureWriteToPcapWithSha3 {R : World → World → Prop} [Silent R] (wrSize : UInt32)
    (wrAddr : Nat) : Frame R (plMeasureWriteToPcapWithSha3 hw wrSize wrAddr) :=
  frame_bind (frame_when fun _ => frame_throw _) fun _ =>
    frame_bind (frame_wait hw _) fun _ => frame_call hw _

section Relation

variable {R : World → World → Prop} [Steps (PlAct n) R]

theorem frame_plMeasureUnencrypted (sizeInWords : UInt32) (source : Nat) :
    Frame R (plMeasureUnencrypted hw n sizeInWords source) := by
  refine frame_bind (frame_loadMem _ _) fun input => ?_
  refine frame_bind (frame_plMeasureWriteToPcapWithSha3 hw _ _) fun status => ?_
  refine frame_bind (frame_shaDigest hw input) fun digest => ?_
  exact frame_bind (frame_step (A := PlAct n) rfl) fun _ => frame_pure _

omit [Steps (PlAct n) R] in
theorem frame_plMeasureEncrypted [Silent R] (size : UInt32) :
    Frame R (plMeasureEncrypted hw size) := by
  refine frame_bind (frame_ask _) fun blocks => ?_
  cases aesBlockLoop size 0 blocks with
  | none => exact frame_throw _
  | some status =>
    refine frame_bind (frame_ask _) fun digest => ?_
    refine frame_bind (frame_ask _) fun finish => ?_
    refine frame_bind (frame_call hw _) fun keyClearStatus => ?_
    cases finish with
    | stuck => exact frame_throw _
    | done => exact frame_pure _
    | timeout => exact frame_pure _

theorem frame_recordBitstream (r : UInt32 × Digest) : Frame R (recordBitstream n r) := by
  refine frame_ite (fun _ => frame_pure _) fun _ => ?_
  exact frame_bind (frame_step (A := PlAct n) ⟨rfl, _, rfl⟩) fun _ => frame_pure _

theorem frame_tpmMeasurePl (source : UInt64) : Frame R (tpmMeasurePl hw n source) := by
  refine frame_bind (frame_header n) fun h => ?_
  refine frame_ite (fun _ => ?_) fun _ => ?_
  · exact frame_bind (frame_plMeasureUnencrypted hw n _ _) fun _ => frame_recordBitstream n _
  · exact frame_bind (frame_plMeasureEncrypted hw _) fun _ => frame_recordBitstream n _

end Relation

end Frames

section Success

variable {hw : Hw} {n : Nat} {w w' : World} {status : UInt32}

/-- The event of a bitstream whose transfer succeeded. -/
def bitstreamActs (n : Nat) (status : UInt32) (digest : Digest) : List Act :=
  if status ≠ xfsblSuccess then [] else [.recorded (.bitstream n) (bitstreamEvent digest)]

theorem recordBitstream_ok {r : UInt32 × Digest} (h : recordBitstream n r w = .ok status w') :
    status = r.1 ∧ Moves (bitstreamActs n r.1 r.2) w w' := by
  unfold recordBitstream at h
  unfold bitstreamActs
  split at h
  · obtain ⟨rfl, rfl⟩ := pure_ok.1 h
    rw [if_pos (by assumption)]
    exact ⟨rfl, .refl w⟩
  · obtain ⟨_, v, h1, h⟩ := bind_ok.1 h
    obtain ⟨rfl, rfl⟩ := pure_ok.1 h
    rw [if_neg (by assumption), ← act_ok.1 h1]
    exact ⟨rfl, .act w _⟩

theorem plMeasureUnencrypted_ok {sizeInWords : UInt32} {source : Nat} {r : UInt32 × Digest}
    (h : plMeasureUnencrypted hw n sizeInWords source w = .ok r w') :
    let input := w.mem.load source (sizeInWords.toNat * 4)
    sizeInWords ≤ xcsudmaSizeMax ∧ (∃ t, r.1 = hw.call t .pcapWaitForDone) ∧
      IsDigest hw input r.2 ∧ Moves [.hashed (.bitstream n) source input] w w' := by
  obtain ⟨input, t, h1, h⟩ := bind_ok.1 h
  obtain ⟨rfl, rfl⟩ := loadMem_ok.1 h1
  obtain ⟨status, v, h2, h⟩ := bind_ok.1 h
  have hv := (frame_plMeasureWriteToPcapWithSha3 (R := Ticks) hw _ _).ok h2
  obtain ⟨d, v', h3, h⟩ := bind_ok.1 h
  obtain ⟨hv', hd⟩ := shaDigest_ok h3
  obtain ⟨_, v'', h4, h⟩ := bind_ok.1 h
  obtain ⟨rfl, rfl⟩ := pure_ok.1 h
  obtain ⟨_, _, hsize, h2⟩ := bind_ok.1 h2
  refine ⟨?_, ?_, hd, ?_⟩
  · rcases when_ok.1 hsize with ⟨-, hsize⟩ | ⟨hsize, -⟩
    · simp at hsize
    · exact (not_not.1 hsize).2
  · obtain ⟨_, _, _, h2⟩ := bind_ok.1 h2
    exact ⟨_, call_ok h2⟩
  · rw [← act_ok.1 h4]
    exact (hv.moves.trans hv'.moves).trans (.act _ _)

/-- `Tpm_Measure_Pl` of an unencrypted bitstream records an event exactly when the transfer
succeeds. -/
theorem tpmMeasurePl_plain {source : UInt64} (hn : n < 32)
    (he : w.inst.imageHeader.partitionHeader[n].encrypted = false)
    (h : tpmMeasurePl hw n source w = .ok status w') :
    ∃ d : Digest,
      let input := w.mem.load source.toNat
        (w.inst.imageHeader.partitionHeader[n].unEncryptedDataWordLength.toNat * 4)
      w.inst.imageHeader.partitionHeader[n].unEncryptedDataWordLength ≤ xcsudmaSizeMax ∧
        (∃ t, status = hw.call t .pcapWaitForDone) ∧ IsDigest hw input d ∧
        Moves (.hashed (.bitstream n) source.toNat input :: bitstreamActs n status d) w w' := by
  obtain ⟨ph, t, h1, h⟩ := bind_ok.1 h
  obtain ⟨⟨_, rfl⟩, rfl⟩ := header_ok.1 h1
  simp only [he, if_true] at h
  obtain ⟨r, v, h2, h⟩ := bind_ok.1 h
  obtain ⟨hsize, ht, hd, hm⟩ := plMeasureUnencrypted_ok h2
  obtain ⟨rfl, hm'⟩ := recordBitstream_ok h
  exact ⟨r.2, hsize, ht, hd, hm.trans hm'⟩

theorem tpmMeasurePl_encrypted {source : UInt64} (hn : n < 32)
    (he : w.inst.imageHeader.partitionHeader[n].encrypted = true)
    (h : tpmMeasurePl hw n source w = .ok status w') :
    ∃ d : Digest, Moves (bitstreamActs n status d) w w' := by
  obtain ⟨ph, t, h1, h⟩ := bind_ok.1 h
  obtain ⟨⟨_, rfl⟩, rfl⟩ := header_ok.1 h1
  simp only [he, Bool.true_eq_false, if_false] at h
  obtain ⟨r, v, h2, h⟩ := bind_ok.1 h
  have hv := (frame_plMeasureEncrypted (R := Ticks) hw _).ok h2
  obtain ⟨rfl, hm⟩ := recordBitstream_ok h
  exact ⟨r.2, hv.moves.trans hm⟩

end Success

end MeasuredBoot
