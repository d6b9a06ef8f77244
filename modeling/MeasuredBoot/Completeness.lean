import Mathlib.Data.List.Forall2
import MeasuredBoot.FsblMeasurement
import MeasuredBoot.HandoffTable
import MeasuredBoot.LogCapacity
import MeasuredBoot.PartitionRange

/-!
# Which partitions the log speaks of

A load logs one event with the hash of what it loaded under the conditions of `LogsPartition`: the
partition is placed clear of the log, it is a plain bitstream, or one of the first four
partitions outside the PL, measured whole. `load_event` and `load_holds` say this of
one load, `loads_logged` of all of them, and `log_complete` of the log at handoff.
-/

namespace MeasuredBoot

open Prog TransSys

/-! ## Partitions and their conditions -/

/-- The partitions really loaded among the first `n`, in load order. -/
def loadedPartitions (inst : XFsblPs) (n : Nat) : List Nat :=
  (List.range' 1 n).filter fun k => ReallyLoaded inst k

/-- Neither the copy nor the decryption touches the recorded log. -/
def ClearOfLog (h : PartitionHeader) (runningCpu : UInt32) (logPtr2 : Nat) : Prop :=
  ∀ len ∈ [(copyLength h).toNat, (imageLength h).toNat],
    len = 0 ∨ placedStart h runningCpu + len ≤ eventLogStart ∨ logPtr2 ≤ placedStart h runningCpu

/-- The hash covers what is loaded, no more and no less. -/
def MeasuredExactly (h : PartitionHeader) : Prop :=
  h.authenticated = true → h.encrypted = false →
    (copyLength h).toNat = (h.unEncryptedDataWordLength <<< 2).toNat

/-- The load of partition `n` logs an event with the hash of what it loads. -/
def LogsPartition (n : Nat) (w : World) : Prop :=
  let h := w.inst.imageHeader.header n
  ReallyLoaded w.inst n → ClearOfLog h w.inst.processorID w.logPtr2 ∧
    if h.toPl then h.authenticated = false ∧ h.encrypted = false
    else w.partition ≤ 4 ∧ MeasuredExactly h

instance (h : PartitionHeader) (runningCpu : UInt32) (logPtr2 : Nat) :
    Decidable (ClearOfLog h runningCpu logPtr2) := inferInstanceAs (Decidable (∀ _ ∈ _, _))

instance (h : PartitionHeader) : Decidable (MeasuredExactly h) :=
  inferInstanceAs (Decidable (_ → _ → _))

instance (n : Nat) (w : World) : Decidable (LogsPartition n w) :=
  inferInstanceAs (Decidable (_ → _ ∧ ite _ _ _))

/-- The engines work: no SHA3 operation times out and the PCAP takes what it is given. -/
structure EnginesWork (hw : Hw) : Prop where
  sha : ∀ t, hw.sha t ≠ .timeout
  pcap : ∀ t, hw.call t .pcapWaitForDone = xfsblSuccess

theorem EnginesWork.digest {hw : Hw} (he : EnginesWork hw) {input : List UInt8} {d : Digest}
    (hd : IsDigest hw input d) : d = sha3 hw input := by
  rcases hd with hd | ⟨-, t, ht⟩
  · exact hd
  · exact absurd ht (he.sha t)

theorem reallyLoaded_of_fixed {i j : XFsblPs} (h : i.fixed = j.fixed) (n : Nat) :
    ReallyLoaded i n ↔ ReallyLoaded j n := by
  unfold ReallyLoaded
  rw [imageHeader_of_fixed h, processorID_of_fixed h, resetReason_of_fixed h]

theorem loadedPartitions_of_fixed {i j : XFsblPs} (h : i.fixed = j.fixed) (n : Nat) :
    loadedPartitions i n = loadedPartitions j n := by
  simp only [loadedPartitions, reallyLoaded_of_fixed h]

theorem loadedPartitions_succ (inst : XFsblPs) (n : Nat) :
    loadedPartitions inst (n + 1) =
      loadedPartitions inst n ++ if ReallyLoaded inst (n + 1) then [n + 1] else [] := by
  have hr : List.range' 1 (n + 1) = List.range' 1 n ++ [n + 1] := by
    rw [List.range'_concat, Nat.one_mul, Nat.add_comm 1 n]
  rw [loadedPartitions, hr, List.filter_append, ← loadedPartitions]
  by_cases h : ReallyLoaded inst (n + 1)
  · simp [h]
  · simp [h]

/-! ## The log over one load -/

/-- The acts of a load up to its measurement. -/
def PlacingAct (h : PartitionHeader) (runningCpu : UInt32) : Act → Prop
  | .placed _ start len _ => start = placedStart h runningCpu ∧
      len ∈ [(copyLength h).toNat, (imageLength h).toNat]
  | .eccInit start _ => tcmBase ≤ start
  | .headerChecked .. => True
  | .handoffEntry .. => True
  | .pmuWoken => True
  | .flushed .. => True
  | _ => False

/-- An act that writes to the log only. -/
def Act.LogOnly (a : Act) : Prop := a ≠ .logHeader ∧ ∀ x, a.Spares x

theorem placingAct_of_idle {h : PartitionHeader} {cpu : UInt32} (a : Act) (ha : a.Idle) :
    PlacingAct h cpu a := by
  cases a <;> trivial

theorem placingAct_of_tcmInit {h : PartitionHeader} {cpu : UInt32} (a : Act) (ha : TcmInit a) :
    PlacingAct h cpu a := by
  cases a <;> first | exact ha | exact ha.elim

theorem logOnly_of_measureAct {n : Nat} (a : Act) (ha : MeasureAct n a) : a.LogOnly := by
  cases a <;> first | exact ha.elim | exact ⟨nofun, fun _ => trivial⟩

section Load

variable {hw : Hw} {n : Nat} {h : PartitionHeader} {w w' v : World}

theorem placingAct_entryActs {cpu : UInt32} (inst : XFsblPs) :
    ∀ a ∈ entryActs n h inst, PlacingAct h cpu a := by
  intro a ha
  unfold entryActs at ha
  dsimp only at ha
  split at ha
  · obtain rfl := List.mem_singleton.1 ha
    trivial
  · cases ha

theorem logOnly_entryActs (inst : XFsblPs) : ∀ a ∈ entryActs n h inst, a.LogOnly := by
  intro a ha
  unfold entryActs at ha
  dsimp only at ha
  split at ha
  · obtain rfl := List.mem_singleton.1 ha
    exact ⟨nofun, fun _ => trivial⟩
  · cases ha

theorem CopyActs.placing {inst : XFsblPs} {copy : List Act} (hc : CopyActs n h inst copy) :
    ∀ a ∈ copy, PlacingAct h inst.processorID a := by
  cases hc with
  | xip _ => exact placingAct_entryActs inst
  | plKept _ _ => nofun
  | @copied la ecc data _ _ hl hecc =>
    refine forall_mem_append (fun a ha => placingAct_of_tcmInit a (hecc a ha)) fun a ha => ?_
    obtain rfl := List.mem_singleton.1 ha
    rw [getLoadAddress_ok hl]
    exact ⟨rfl, List.mem_cons_self⟩

theorem MeasuredActs.logOnly {m : Mem} {la : UInt64} {as : List Act}
    (hm : MeasuredActs hw n h v m la as) : ∀ a ∈ as, a.LogOnly := by
  obtain ⟨he, -, -, hi⟩ := hm
  refine forall_mem_append (fun a ha => ?_) fun a ha => ?_
  · rw [he] at ha
    split at ha
    · exact logOnly_entryActs _ a ha
    · cases ha
  · rcases List.mem_append.1 ha with ha | ha
    · rcases List.mem_cons.1 ha with rfl | ha
      · exact ⟨nofun, fun _ => trivial⟩
      · exact logOnly_of_measureAct (n := n) a (measureAct_of_recordActs a ha)
    · exact logOnly_of_measureAct (n := n) a (measureAct_of_idle a (hi a ha))

theorem logOnly_bitstreamActs {status : UInt32} {d : Digest} :
    ∀ a ∈ bitstreamActs n status d, a.LogOnly := by
  intro a ha
  unfold bitstreamActs at ha
  split at ha
  · cases ha
  · obtain rfl := List.mem_singleton.1 ha
    exact ⟨nofun, fun _ => trivial⟩

/-- The validation places first, then it measures. -/
theorem ValidActs.placing {la : UInt64} {valid : List Act} (hva : ValidActs hw n h v la valid)
    (hl : getLoadAddress (h.effectiveCpu v.inst.processorID) h.destinationLoadAddress
      (h.totalDataWordLength * 4) = .ok la) :
    ∃ placing measuring, valid = placing ++ measuring ∧
      (∀ a ∈ placing, PlacingAct h v.inst.processorID a) ∧ ∀ a ∈ measuring, a.LogOnly := by
  cases hva with
  | signedPl _ _ => exact ⟨[], [], rfl, nofun, nofun⟩
  | plainPl _ _ _ _ _ _ _ _ =>
    refine ⟨[], _, rfl, nofun, fun a ha => ?_⟩
    rcases List.mem_cons.1 ha with rfl | ha
    · exact ⟨nofun, fun _ => trivial⟩
    · exact logOnly_bitstreamActs a ha
  | encryptedPl d _ _ _ =>
    exact ⟨[], bitstreamActs n xfsblSuccess d, rfl, nofun, logOnly_bitstreamActs⟩
  | plain _ _ hma => exact ⟨[], _, rfl, nofun, hma.logOnly⟩
  | decrypted data hpl he hma =>
    refine ⟨[_], _, rfl, fun a ha => ?_, hma.logOnly⟩
    obtain rfl := List.mem_singleton.1 ha
    have hp : plLoadAddress h h.destinationLoadAddress = h.destinationLoadAddress := by
      simp [plLoadAddress, hpl]
    have hi : imageLength h = h.unEncryptedDataWordLength * 4 := by simp [imageLength, he]
    refine ⟨?_, ?_⟩
    · rw [placedStart, hp, getLoadAddress_ok hl]
    · rw [hi]
      simp

/-- A load places first, then it measures. -/
theorem PartitionLoaded.placing (hl : PartitionLoaded hw n h w w') :
    ∃ placing measuring, Moves (placing ++ measuring) w w' ∧
      (∀ a ∈ placing, PlacingAct h w.inst.processorID a) ∧ ∀ a ∈ measuring, a.LogOnly := by
  have checked {as : List Act} (ha : ∀ a ∈ as, PlacingAct h w.inst.processorID a) :
      ∀ a ∈ .headerChecked n true :: as, PlacingAct h w.inst.processorID a :=
    List.forall_mem_cons.2 ⟨trivial, ha⟩
  cases hl with
  | skipped _ hm =>
    exact ⟨[.headerChecked n true], [], by simpa using hm, checked (by simp), nofun⟩
  | plKept _ _ _ hcopy hi hm =>
    refine ⟨_, [], by simpa using hm, checked ?_, nofun⟩
    exact forall_mem_append hcopy.placing fun a ha => placingAct_of_idle a (hi a ha)
  | @loaded copy valid idle v la _ _ _ hcopy hmc hla hva hi hmv =>
    obtain ⟨placing, measuring, rfl, hp, hlog⟩ := hva.placing hla
    rw [hmc.processorID] at hp
    refine ⟨.headerChecked n true :: (copy ++ placing), measuring ++ idle, ?_, ?_, ?_⟩
    · simpa using hmc.trans hmv
    · exact checked (forall_mem_append hcopy.placing hp)
    · refine forall_mem_append hlog fun a ha => ?_
      exact logOnly_of_measureAct (n := n) a (measureAct_of_idle a (hi a ha))

theorem PlacingAct.growth {cpu : UInt32} {a : Act} (ha : PlacingAct h cpu a) :
    a.logGrowth = 0 ∧ a ≠ .logHeader := by
  cases a <;> first | exact ha.elim | exact ⟨rfl, nofun⟩

theorem PlacingAct.spares {cpu : UInt32} {a : Act} {x ptr : Nat} (ha : PlacingAct h cpu a)
    (hc : ClearOfLog h cpu ptr) (h1 : eventLogStart ≤ x) (h2 : x < ptr) (h3 : x < eventLogEnd) :
    a.Spares x := by
  cases a with
  | placed m start len data =>
    obtain ⟨rfl, hlen⟩ := ha
    have hclear := hc len hlen
    show x < placedStart h cpu ∨ placedStart h cpu + len ≤ x
    omega
  | eccInit start len =>
    have hbase : tcmBase ≤ start := ha
    show x < start ∨ start + len ≤ x
    simp only [tcmBase, eventLogEnd] at hbase h3
    omega
  | stored start bytes => exact ha.elim
  | _ => trivial

/-- A load clear of the log adds its events to it. -/
theorem load_holds (hl : PartitionLoaded hw n h w w')
    (hc : ClearOfLog h w.inst.processorID w.logPtr2) (hfit : w.logPtr2 ≤ eventLogEnd)
    {es : List Event} (hlog : LogHolds w es) :
    ∃ as, Moves as w w' ∧ LogHolds w' (es ++ logged as) := by
  obtain ⟨placing, measuring, hm, hp, hmeas⟩ := hl.placing
  have hsize : logSize placing = 0 := logSize_eq_zero fun a ha => (hp a ha).growth.1
  have h1 : LogHolds (w.replay placing) (es ++ logged placing) := by
    refine hlog.replay (fun ha => (hp _ ha).growth.2 rfl) fun a ha x hx1 hx2 => ?_
    rw [hsize] at hx2
    exact (hp a ha).spares hc hx1 hx2 (by omega)
  have h2 := h1.replay (fun ha => (hmeas _ ha).1 rfl) fun a ha x _ _ => (hmeas a ha).2 x
  refine ⟨_, hm, .of_does hm.toDoes ?_⟩
  rwa [World.replay_append, logged_append, ← List.append_assoc]

/-! ## The event of one load -/

theorem imageLength_eq (ha : Accepted h v.inst.processorID v.inst.resetReason)
    (hm : MeasuredExactly h) : (imageLength h).toNat = (h.unEncryptedDataWordLength <<< 2).toNat := by
  have hl : partitionLengthsOk h = true := by simpa using ha.lengths
  cases he : h.encrypted with
  | true => rw [imageLength, he, if_pos rfl, toNat_shiftLeft_two]
  | false =>
    rw [imageLength, he, if_neg (by simp)]
    cases hau : h.authenticated with
    | true => exact hm hau he
    | false =>
      simp only [partitionLengthsOk, hau, he, Bool.and_eq_true, beq_iff_eq] at hl
      have hc : copyLength h = h.unEncryptedDataWordLength * 4 := by
        simp [copyLength, hau, hl.1, hl.2, xihPartitionWordLength]
      rw [hc, toNat_shiftLeft_two]

theorem PartitionLoaded.accepted (hl : PartitionLoaded hw n h w w')
    (ho : ¬ NotOwned h w.inst.processorID w.inst.resetReason) :
    Accepted h w.inst.processorID w.inst.resetReason := by
  cases hl with
  | skipped hno => exact absurd hno ho
  | plKept _ hacc => exact hacc
  | loaded _ hacc => exact hacc

/-- The event of a load that meets the conditions. -/
theorem load_event (he : EnginesWork hw) (hl : PartitionLoaded hw n h w w')
    (hn : w.inst.imageHeader.header n = h) (hr : ReallyLoaded w.inst n) (hlog : LogsPartition n w)
    (hp : 1 ≤ w.partition) :
    ∃ as e, Moves as w w' ∧ logged as = [e] ∧ e.digest = sha3 hw (loadedBytes n as) := by
  obtain ⟨ho, hk⟩ := hr
  have hlog := (hlog ⟨ho, hk⟩).2
  rw [hn] at ho hk hlog
  cases hpl : h.toPl with
  | true =>
    rw [hpl, if_pos rfl] at hlog
    obtain ⟨as, start, d, hm, hd, hrec⟩ := bitstream_measured he.pcap hl ho hk hpl hlog.1 hlog.2
    exact ⟨as, bitstreamEvent d, hm, hrec.logged, he.digest hd⟩
  | false =>
    rw [hpl, if_neg (by simp)] at hlog
    obtain ⟨as, start, input, d, hm, hmeas⟩ := partition_measured hl ho hpl
    obtain ⟨e, hev⟩ := ladderEvent_isSome d hp hlog.1
    have hlen : input.length = (loadedBytes n as).length := by
      rw [hmeas.length, hmeas.loaded, imageLength_eq (hl.accepted ho) hlog.2]
    have hin : input = loadedBytes n as := by
      rcases hmeas.agree with ha | ha
      · exact ha.eq_of_length hlen
      · exact (ha.eq_of_length hlen.symm).symm
    refine ⟨as, e, hm, ?_, ?_⟩
    · rw [hmeas.recorded.logged, hev]
      rfl
    · rw [ladderEvent_digest hev, he.digest hmeas.digest, hin]

/-- A skipped load neither logs nor places anything. -/
theorem load_silent (hl : PartitionLoaded hw n h w w') (hn : w.inst.imageHeader.header n = h)
    (hr : ¬ ReallyLoaded w.inst n) :
    ∃ as, Moves as w w' ∧ logged as = [] ∧ ∀ a ∈ as, a.LogOnly := by
  unfold ReallyLoaded at hr
  rw [hn] at hr
  have hchecked : (Act.headerChecked n true).LogOnly := ⟨nofun, fun _ => trivial⟩
  cases hl with
  | skipped _ hm => exact ⟨_, hm, rfl, by simpa using hchecked⟩
  | @plKept copy idle _ _ hk hcopy hi hm =>
    have hidle := quietActs fun a ha => quiet_idle a (hi a ha)
    have hquiet : logged copy = [] ∧ ∀ a ∈ copy, a.LogOnly := by
      cases hcopy with
      | xip _ => exact ⟨(quietActs (quiet_entryActs n h _)).logged, logOnly_entryActs _⟩
      | plKept _ _ => exact ⟨rfl, nofun⟩
      | copied _ _ hk' => exact absurd hk hk'
    refine ⟨_, hm, ?_, ?_⟩
    · rw [← List.singleton_append, List.append_assoc, logged_append, logged_append, hquiet.1,
        hidle.logged]
      rfl
    · refine forall_mem_append (List.forall_mem_cons.2 ⟨hchecked, hquiet.2⟩) fun a ha => ?_
      exact logOnly_of_measureAct (n := n) a (measureAct_of_idle a (hi a ha))
  | loaded howner hacc hk =>
    refine absurd ⟨?_, hk⟩ hr
    rintro (hno | hno)
    · exact hno howner
    · exact hacc.owned hno

end Load

/-! ## All loads -/

theorem loadedBytes_append_left {n : Nat} {as bs : List Act} (h : ∀ b ∈ bs, placedAt n b = none) :
    loadedBytes n (as ++ bs) = loadedBytes n as := by
  rw [loadedBytes, lastPlaced_append, lastPlaced_eq_none h, Option.none_or, loadedBytes]

theorem loadedBytes_append_right {n : Nat} {as bs : List Act} (h : ∀ a ∈ as, placedAt n a = none) :
    loadedBytes n (as ++ bs) = loadedBytes n bs := by
  rw [loadedBytes, lastPlaced_append, lastPlaced_eq_none h, Option.or_none, loadedBytes]

/-- What the loads of the partitions 1 to `n` logged. -/
structure LoadsLogged (hw : Hw) (w w' : World) (n : Nat) (as : List Act) : Prop where
  does : Does as w w'
  placed : ∀ k, n < k → ∀ a ∈ as, placedAt k a = none
  events : List.Forall₂ (fun k e => e.digest = sha3 hw (loadedBytes k as))
    (loadedPartitions w.inst n) (logged as)
  holds : ∀ es, LogHolds w es → LogHolds w' (es ++ logged as)

section Loads

variable {hw : Hw} {w w' v : World} {n : Nat} {as bs : List Act}

theorem placedAt_loadAct {k : Nat} (hk : k ≠ n) (a : Act) (ha : LoadAct n a) :
    placedAt k a = none := by
  cases a with
  | placed m start len data =>
    obtain rfl : m = n := ha
    exact if_neg hk.symm
  | _ => rfl

/-- The events of one more load. -/
theorem forall₂_next {es : List Event} (hn : ∀ k ∈ loadedPartitions w.inst n, k ≤ n)
    (hplaced : ∀ k, n < k → ∀ a ∈ as, placedAt k a = none)
    (hbs : ∀ k, k ≠ n + 1 → ∀ b ∈ bs, placedAt k b = none)
    (hev : List.Forall₂ (fun k e => e.digest = sha3 hw (loadedBytes k as))
      (loadedPartitions w.inst n) es)
    (hnext : List.Forall₂ (fun k e => e.digest = sha3 hw (loadedBytes k bs))
      (if ReallyLoaded w.inst (n + 1) then [n + 1] else []) (logged bs)) :
    List.Forall₂ (fun k e => e.digest = sha3 hw (loadedBytes k (as ++ bs)))
      (loadedPartitions w.inst (n + 1)) (es ++ logged bs) := by
  rw [loadedPartitions_succ]
  refine List.rel_append ?_ ?_
  · refine ((List.forall₂_and_left _ _).2 ⟨hn, hev⟩).imp fun k e ⟨hk, hd⟩ => ?_
    rw [loadedBytes_append_left (hbs k (by omega))]
    exact hd
  · by_cases hr : ReallyLoaded w.inst (n + 1)
    · rw [if_pos hr] at hnext ⊢
      have hlast : ∀ k ∈ [n + 1], n < k := by simp
      refine ((List.forall₂_and_left _ _).2 ⟨hlast, hnext⟩).imp fun k e ⟨hk, hd⟩ => ?_
      rw [loadedBytes_append_right (hplaced k hk)]
      exact hd
    · rw [if_neg hr] at hnext ⊢
      rwa [List.forall₂_nil_left_iff] at hnext ⊢

theorem le_of_mem_loadedPartitions {inst : XFsblPs} {k : Nat} (h : k ∈ loadedPartitions inst n) :
    k ≤ n := by
  have hk := List.mem_range'_1.1 (List.mem_of_mem_filter h)
  omega

/-- What one load adds to the log. -/
theorem load_logged {h : PartitionHeader} (he : EnginesWork hw) (hl : PartitionLoaded hw n h w w')
    (hn : w.inst.imageHeader.header n = h) (hlog : LogsPartition n w) (hp : 1 ≤ w.partition)
    (hfit : w.logPtr2 ≤ eventLogEnd) :
    ∃ as, Moves as w w' ∧
      List.Forall₂ (fun k e => e.digest = sha3 hw (loadedBytes k as))
        (if ReallyLoaded w.inst n then [n] else []) (logged as) ∧
      ∀ es, LogHolds w es → LogHolds w' (es ++ logged as) := by
  by_cases hr : ReallyLoaded w.inst n
  · obtain ⟨as, e, hm, hev, hd⟩ := load_event he hl hn hr hlog hp
    have hclear := (hlog hr).1
    rw [hn] at hclear
    refine ⟨as, hm, ?_, fun es hes => ?_⟩
    · rw [if_pos hr, hev]
      exact .cons hd .nil
    · obtain ⟨bs, hm', hes'⟩ := load_holds hl hclear hfit hes
      rwa [hm.toDoes.unique hm'.toDoes]
  · obtain ⟨as, hm, hev, ha⟩ := load_silent hl hn hr
    refine ⟨as, hm, ?_, fun es hes => ?_⟩
    · rw [if_neg hr, hev]
      exact .nil
    · exact .of_does hm.toDoes (hes.replay (fun h => (ha _ h).1 rfl) fun a h x _ _ => (ha a h).2 x)

/-- **What all loads log.** -/
theorem loads_logged (he : EnginesWork hw) (h : Loaded hw LogsPartition w n w')
    (hp : 1 ≤ w.partition) (hfit : w'.logPtr2 ≤ eventLogEnd) : ∃ as, LoadsLogged hw w w' n as := by
  induction h with
  | none =>
    refine ⟨[], .refl w, fun _ _ => nofun, .nil, fun es hes => ?_⟩
    rwa [logged, List.filterMap_nil, List.append_nil]
  | @next n v v' mask hld hP hl ih =>
    obtain ⟨hn, -, hload⟩ := partitionLoad_ok hl
    have hstep : v.logPtr2 ≤ v'.logPtr2 := by
      obtain ⟨as, -, hm⟩ := (frame_partitionLoad hw (n + 1)).ok hl
      rw [hm.logPtr2_eq]
      exact Nat.le_add_right _ _
    have hfit' : v'.logPtr2 ≤ eventLogEnd := hfit
    obtain ⟨as, ih⟩ := ih (Nat.le_trans hstep hfit')
    have hpart : 1 ≤ v.partition := by
      rw [ih.does.partition]
      exact Nat.le_trans hp (replay_partition_le w as)
    have hnum : (v.apply (.loadCalled (n + 1))).inst.imageHeader.header (n + 1) =
        v.inst.imageHeader.partitionHeader[n + 1] := header_eq hn
    obtain ⟨bs, hm, hev, hes⟩ := load_logged he hload hnum hP hpart (Nat.le_trans hstep hfit')
    have hbs : ∀ k, k ≠ n + 1 → ∀ b ∈ bs, placedAt k b = none := by
      obtain ⟨bs', hact, hm'⟩ := (frame_partitionLoad hw (n + 1)).ok hl
      intro k hk b hb
      rw [hm.toDoes.unique hm'.toDoes] at hb
      exact placedAt_loadAct hk b (hact b hb)
    let marks : List Act := [.loadReturned (n + 1) xfsblSuccess, .r5Used mask]
    have hquiet : ∀ k, ∀ a ∈ marks, placedAt k a = none := by
      intro k a ha
      simp only [marks, List.mem_cons, List.not_mem_nil, or_false] at ha
      rcases ha with rfl | rfl <;> rfl
    have hcalled : ∀ k, ∀ a ∈ [Act.loadCalled (n + 1)], placedAt k a = none := by
      intro k a ha
      obtain rfl := List.mem_singleton.1 ha
      rfl
    have hbytes (k : Nat) : loadedBytes k ([.loadCalled (n + 1)] ++ (bs ++ marks)) =
        loadedBytes k bs := by
      rw [loadedBytes_append_right (hcalled k), loadedBytes_append_left (hquiet k)]
    have hlogged : logged ([.loadCalled (n + 1)] ++ (bs ++ marks)) =
        logged bs := by
      rw [logged_append, logged_append]
      exact List.append_nil _
    have hreal : ReallyLoaded (v.apply (.loadCalled (n + 1))).inst (n + 1) ↔
        ReallyLoaded w.inst (n + 1) :=
      reallyLoaded_of_fixed ((World.fixed_apply _ _).trans hld.fixed) _
    have hnext : List.Forall₂
        (fun k e => e.digest = sha3 hw (loadedBytes k ([.loadCalled (n + 1)] ++ (bs ++ marks))))
        (if ReallyLoaded w.inst (n + 1) then [n + 1] else [])
        (logged ([.loadCalled (n + 1)] ++ (bs ++ marks))) := by
      simp only [hbytes, hlogged]
      rwa [if_congr hreal rfl rfl] at hev
    have hnone : ∀ k, k ≠ n + 1 → ∀ b ∈ [.loadCalled (n + 1)] ++ (bs ++ marks),
        placedAt k b = none := fun k hk =>
      forall_mem_append (hcalled k) (forall_mem_append (hbs k hk) (hquiet k))
    refine ⟨as ++ ([.loadCalled (n + 1)] ++ (bs ++ marks)), ?_, ?_, ?_, fun es hlog => ?_⟩
    · exact ih.does.trans ((Does.act v _).trans (hm.toDoes.trans ((Does.act v' _).trans (.act _ _))))
    · exact fun k hk => forall_mem_append (ih.placed k (by omega)) (hnone k (by omega))
    · rw [logged_append]
      exact forall₂_next (fun k => le_of_mem_loadedPartitions) ih.placed hnone ih.events hnext
    · rw [logged_append, hlogged, ← List.append_assoc]
      have hv := ih.holds es hlog
      have hv' := hes _ ⟨hv.holds, hv.ptr⟩
      exact ⟨hv'.holds, hv'.ptr⟩

end Loads

/-! ## The log at handoff -/

/-- The log behind stage 1. -/
theorem initialized_holds {hw : Hw} {w₀ w : World} (h₀ : w₀.Initial)
    (h : fsblInitialize hw w₀ = .ok () w) : LogHolds w [romEvent hw] := by
  obtain ⟨-, pre, hpre, hd⟩ := fsblInitialize_ok hw h
  have hptr : (w₀.replay pre).logPtr2 = eventLogStart := by
    rw [replay_logPtr2, h₀.logPtr2, logSize_eq_zero fun a ha => setupAct_growth a (hpre a ha)]
    rfl
  have hrom := (logHolds_header hptr).effect (a := .recorded .rom (romEvent hw)) nofun
    fun _ _ _ => trivial
  refine .of_does hd ?_
  rw [World.replay_append]
  exact hrom

theorem bootAct_logOnly (a : Act) (h : BootAct a) : a.LogOnly := by
  cases a <;> first | exact h.elim | exact ⟨nofun, fun _ => trivial⟩

theorem logged_bootActs {as : List Act} (ha : ∀ a ∈ as, BootAct a) :
    ∀ e ∈ logged as, ∃ d, e = fsblEvent d := by
  intro e he
  obtain ⟨a, hmem, hsome⟩ := List.mem_filterMap.1 he
  have hb := ha a hmem
  cases a with
  | recorded s e' =>
    obtain rfl : e' = e := Option.some.inj hsome
    cases s with
    | fsbl => exact hb
    | _ => exact hb.elim
  | _ => cases hsome

theorem placedAt_early {hw : Hw} {k : Nat} (a : Act) (h : InitAct hw a ∨ BootAct a) :
    placedAt k a = none := by
  cases a with
  | placed n start len data => rcases h with h | h <;> exact h.elim
  | _ => rfl

theorem eventsBytes_singleton (e : Event) : eventsBytes [e] = e.bytes := List.append_nil _

/-- An event takes 66 bytes and its name. -/
theorem length_eventsBytes_le (es : List Event) : 66 * es.length ≤ (eventsBytes es).length := by
  induction es with
  | nil => exact Nat.le_refl 0
  | cons e es ih =>
    have he := e.length_bytes
    rw [← List.singleton_append, eventsBytes_append, List.length_append, List.length_append,
      eventsBytes_singleton, List.length_singleton]
    omega

/-- **The log is complete** in a run whose loads all meet `LogsPartition`: at handoff it is the
header, the ROM event, the FSBL events and one event for each partition really loaded, in
load order, with the hash of its bytes. -/
theorem log_complete {hw : Hw} {s₀ s : MainState} (he : EnginesWork hw) (h₀ : (boot hw).init s₀)
    (h : (boot hw).Run (fun t => t.locals.fsblStage = .stage3 →
      LogsPartition t.locals.partitionNum t.world) s₀ s) (hs : s.locals.fsblStage = .stage4) :
    ∃ fsbls es, (∀ e ∈ fsbls, ∃ d, e = fsblEvent d) ∧
      LogHolds s.world (romEvent hw :: fsbls ++ es) ∧
      List.Forall₂ (fun n e => e.digest = sha3 hw (loadedBytes n s.world.trace))
        (loadedPartitions s.world.inst s.locals.partitionNum) es := by
  have hfit := run_logPtr2 h₀ h
  cases run_guarded (P := LogsPartition) (fun _ hg => hg) h₀ h with
  | @loaded w v n _ hn hi hb _ hl =>
    have hrom := initialized_holds h₀.2 hi
    obtain ⟨⟨ini, hini, hdi⟩, -⟩ := (frame_fsblInitialize hw).ok hi
    obtain ⟨⟨bs, hbs, hdb⟩, -⟩ := (frame_bootDeviceInitAndValidate (f := XFsblPs.reset) hw fun _ _ => rfl).ok hb
    have hlog : LogHolds v ([romEvent hw] ++ logged bs) :=
      .of_does hdb (hrom.replay (fun hh => (bootAct_logOnly _ (hbs _ hh)).1 rfl)
        fun a ha x _ _ => (bootAct_logOnly a (hbs a ha)).2 x)
    have hpart : 1 ≤ v.partition := by
      rw [(hdi.trans hdb).partition, ← h₀.2.partition]
      exact replay_partition_le _ _
    obtain ⟨as, hall⟩ := loads_logged he hl hpart hfit
    have hearly : ∀ k, ∀ a ∈ ini ++ bs ++ [.r5UsageCleared], placedAt k a = none := by
      intro k
      refine forall_mem_append (forall_mem_append (fun a ha => ?_) fun a ha => ?_) (by simp [placedAt])
      · exact placedAt_early a (.inl (hini a ha))
      · exact @placedAt_early hw k a (.inr (hbs a ha))
    have htrace : s.world.trace = ini ++ bs ++ [.r5UsageCleared] ++ as := by
      rw [(((hdi.trans hdb).trans (.act v .r5UsageCleared)).trans hall.does).trace, h₀.2.trace,
        List.nil_append]
    refine ⟨logged bs, logged as, logged_bootActs hbs, hall.holds _ ⟨hlog.holds, hlog.ptr⟩, ?_⟩
    rw [hn, htrace, loadedPartitions_of_fixed hl.fixed]
    refine hall.events.imp fun k e hd => ?_
    rw [loadedBytes_append_right (hearly k)]
    exact hd
  | @jtag _ v mask _ hn hi hb hw' =>
    have hrom := initialized_holds h₀.2 hi
    have hlog : LogHolds v [romEvent hw] := .of_does (bootDevice_jtag hb) hrom
    refine ⟨[], [], by simp, ?_, ?_⟩
    · rw [hw']
      exact ⟨hlog.holds, hlog.ptr⟩
    · rw [hn]
      exact .nil
  | failed ho => simp [MainState.Over, hs] at ho
  | _ hs' => simp [hs] at hs'

theorem enginesWork_board (b : Board) : EnginesWork b.hw := ⟨fun _ => nofun, fun _ => rfl⟩

/-- A boot of one plain partition logs it. -/
theorem log_complete_plainBoard :
    ∃ fsbls es, (∀ e ∈ fsbls, ∃ d, e = fsblEvent d) ∧
      LogHolds (plainBoard.after 3).world (romEvent plainBoard.hw :: fsbls ++ es) ∧
      List.Forall₂
        (fun n e => e.digest = sha3 plainBoard.hw (loadedBytes n (plainBoard.after 3).world.trace))
        (loadedPartitions (plainBoard.after 3).world.inst (plainBoard.after 3).locals.partitionNum)
        es := by
  have hr : (boot plainBoard.hw).Run (fun t => t.locals.fsblStage = .stage3 →
      LogsPartition t.locals.partitionNum t.world) powerOn (plainBoard.after 3) :=
    plainBoard.run 0 3 (by decide +kernel)
  exact log_complete (enginesWork_board _) (init_powerOn _) hr (by decide +kernel)

/-- Six plain partitions for the A53. -/
def sixBoard : Board := qspiBoard [{}, {}, {}, {}, {}, {}]

/-- The log of six partitions is too short for six events. -/
theorem not_log_complete :
    ¬ ∀ (hw : Hw) (s₀ s : MainState), EnginesWork hw → (boot hw).init s₀ →
      (boot hw).Run (fun _ => True) s₀ s → s.locals.fsblStage = .stage4 →
      ∃ fsbls es, (∀ e ∈ fsbls, ∃ d, e = fsblEvent d) ∧
        LogHolds s.world (romEvent hw :: fsbls ++ es) ∧
        List.Forall₂ (fun n e => e.digest = sha3 hw (loadedBytes n s.world.trace))
          (loadedPartitions s.world.inst s.locals.partitionNum) es := by
  intro h
  have hr : (boot sixBoard.hw).Run (fun _ => True) powerOn (sixBoard.after 8) :=
    sixBoard.run 0 8 (by decide +kernel)
  obtain ⟨fsbls, es, -, hlog, hev⟩ := h _ _ _ (enginesWork_board _) (init_powerOn _) hr
    (by decide +kernel)
  have hlen : (loadedPartitions (sixBoard.after 8).world.inst
      (sixBoard.after 8).locals.partitionNum).length = 6 := by decide +kernel
  have hptr : (sixBoard.after 8).world.logPtr2 = eventLogStart + 617 := by decide +kernel
  have hes : es.length = 6 := hev.length_eq.symm.trans hlen
  have hfits := hlog.ptr
  have hrom := length_romEvent sixBoard.hw
  have hleast := length_eventsBytes_le es
  rw [hptr, List.cons_append, ← List.singleton_append, eventsBytes_append, eventsBytes_append,
    List.length_append, List.length_append, List.length_append, eventsBytes_singleton] at hfits
  simp only [initGrowth] at hrom
  omega

end MeasuredBoot
