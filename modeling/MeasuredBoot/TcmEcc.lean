import MeasuredBoot.HandoffRuns
import MeasuredBoot.Lib.Regions
import MeasuredBoot.Lib.Traces
import MeasuredBoot.Lib.Triple
import MeasuredBoot.PartitionRange
import Mathlib.Data.Fintype.Basic

/-!
# TCM initialisation and loaded partitions

`XFsbl_TcmEccInit` overwrites the banks of a CPU before a partition is copied there, and
`TcmEccInitStatus` says which banks need it no more. The status is assigned, not collected, so the
banks of an R5 are initialised again behind a partition for the other one. `tcm_safe`: in a run
whose loads start in `TcmOrder` no bank with bytes of a partition is initialised, and no bank
is written before it is.
-/

namespace MeasuredBoot

open Prog TransSys Trace

/-! ## Banks -/

/-- The TCM banks. -/
inductive TcmBank where
  | r50Atcm
  | r50Btcm
  | r51Atcm
  | r51Btcm
  deriving DecidableEq

namespace TcmBank

instance : Fintype TcmBank :=
  ⟨{r50Atcm, r50Btcm, r51Atcm, r51Btcm}, fun b => by cases b <;> decide⟩

/-- Where a bank is seen: as the R5's own, and for the R5-1's also in the combined TCM. -/
def places : TcmBank → List Region
  | .r50Atcm => [⟨0xFFE00000, 0xFFE10000⟩]
  | .r50Btcm => [⟨0xFFE20000, 0xFFE30000⟩]
  | .r51Atcm => [⟨0xFFE90000, 0xFFEA0000⟩, ⟨0xFFE10000, 0xFFE20000⟩]
  | .r51Btcm => [⟨0xFFEB0000, 0xFFEC0000⟩, ⟨0xFFE30000, 0xFFE40000⟩]

/-- The vectors of an R5 that runs the FSBL are not initialised. -/
def vectors : TcmBank → Nat
  | .r50Atcm => 32
  | _ => 0

/-- The bit of a bank in `TcmEccInitStatus`. -/
def status : TcmBank → UInt32
  | .r50Atcm | .r50Btcm => xfsblR50TcmEccInitStatus
  | .r51Atcm | .r51Btcm => xfsblR51TcmEccInitStatus

/-- One of the bytes is in the bank. -/
def Meets (b : TcmBank) (start len : Nat) : Prop := ∃ r ∈ b.places, r.Meets start len

instance (b : TcmBank) (start len : Nat) : Decidable (b.Meets start len) :=
  inferInstanceAs (Decidable (∃ r ∈ b.places, r.Meets start len))

/-- All of the bank is among the bytes, but the vectors. -/
def CoveredBy (b : TcmBank) (start len : Nat) : Prop :=
  0 < len ∧ ∃ r ∈ b.places, start ≤ r.start + b.vectors ∧ r.stop ≤ start + len

instance (b : TcmBank) (start len : Nat) : Decidable (b.CoveredBy start len) :=
  inferInstanceAs (Decidable (_ ∧ _))

/-- The bank is one of a status. -/
def In (b : TcmBank) (status : UInt32) : Prop := status &&& b.status = b.status

instance (b : TcmBank) (status : UInt32) : Decidable (b.In status) :=
  inferInstanceAs (Decidable (_ = _))

end TcmBank

/-- The act initialises the whole bank. -/
def Act.Covers (b : TcmBank) : Act → Prop
  | .eccInit start len => b.CoveredBy start len
  | _ => False

/-- The act initialises bytes of the bank. -/
def Act.Wipes (b : TcmBank) : Act → Prop
  | .eccInit start len => b.Meets start len
  | _ => False

/-- The act writes bytes of a partition to the bank. -/
def Act.Fills (b : TcmBank) : Act → Prop
  | .placed _ start len _ => b.Meets start len
  | _ => False

/-- The bank was initialised. -/
def Initialised (b : TcmBank) (as : List Act) : Prop := ∃ a ∈ as, a.Covers b

/-- The bank holds bytes of a partition. -/
def Held (b : TcmBank) (as : List Act) : Prop := ∃ a ∈ as, a.Fills b

/-- What the TCM asks of an act behind the acts `pre`. -/
structure TcmStep (pre : List Act) (a : Act) : Prop where
  kept : ∀ b, a.Wipes b → ¬ Held b pre
  ready : ∀ b, a.Fills b → Initialised b pre

/-- No bank is initialised while it holds bytes of a partition, none is written before it was
initialised. -/
abbrev TcmSafe : List Act → Prop := Always TcmStep

section Traces

variable {b : TcmBank} {as bs : List Act} {a : Act}

theorem Initialised.append (h : Initialised b as) : Initialised b (as ++ bs) := by
  obtain ⟨a, ha, hc⟩ := h
  exact ⟨a, List.mem_append_left _ ha, hc⟩

theorem held_append : Held b (as ++ bs) ↔ Held b as ∨ Held b bs := by
  simp only [Held, List.mem_append, or_and_right, exists_or]

/-- An act away from the TCM. -/
def Act.NoTcm (a : Act) : Prop := ∀ b, ¬ a.Wipes b ∧ ¬ a.Fills b

theorem Act.NoTcm.step (h : a.NoTcm) (pre : List Act) : TcmStep pre a :=
  ⟨fun b hw => absurd hw (h b).1, fun b hf => absurd hf (h b).2⟩

theorem noTcm_checkAct {n : Nat} (a : Act) (h : CheckAct n a) : a.NoTcm := by
  intro b
  cases a <;> first | exact ⟨id, id⟩ | exact h.elim

theorem noTcm_measureAct {n : Nat} (a : Act) (h : MeasureAct n a) : a.NoTcm := by
  intro b
  cases a <;> first | exact ⟨id, id⟩ | exact h.elim

theorem not_held (h : ∀ a ∈ as, a.NoTcm) : ¬ Held b as := by
  rintro ⟨a, ha, hf⟩
  exact (h a ha b).2 hf

end Traces

/-! ## What a load asks for -/

/-- The status bits of the banks `XFsbl_ConfigureMemory` looks after for a load address. -/
def tcmMask (destinationCpu : UInt32) (address : UInt64) : UInt32 :=
  if destinationCpu = xihPhAttrbDestCpuR5_0 ∧
      inHighBank xfsblR50HighAtcmStartAddress xfsblR50HighBtcmStartAddress address then
    xfsblR50TcmEccInitStatus
  else if destinationCpu = xihPhAttrbDestCpuR5_1 ∧
      inHighBank xfsblR51HighAtcmStartAddress xfsblR51HighBtcmStartAddress address then
    xfsblR51TcmEccInitStatus
  else if destinationCpu = xihPhAttrbDestCpuR5L ∧ xfsblR50HighAtcmStartAddress ≤ address ∧
      address < xfsblR50HighAtcmStartAddress + xfsblR5TcmBankLength * 4 then
    xfsblR50TcmEccInitStatus ||| xfsblR51TcmEccInitStatus
  else 0

/-- The mask of a partition. -/
def PartitionHeader.tcmMask (h : PartitionHeader) (runningCpu : UInt32) : UInt32 :=
  MeasuredBoot.tcmMask (h.effectiveCpu runningCpu)
    (globalAddress (h.effectiveCpu runningCpu) (plLoadAddress h h.destinationLoadAddress))

/-- A load of partition `n` writes to the bank: by the copy, or by the decryption in place. -/
def WritesTo (inst : XFsblPs) (n : Nat) (b : TcmBank) : Prop :=
  let h := inst.imageHeader.header n
  let start := placedStart h inst.processorID
  ReallyLoaded inst n ∧ (h.unEncryptedDataWordLength ≠ 0 ∧ b.Meets start (copyLength h).toNat ∨
    (h.encrypted && !h.toPl) = true ∧
      b.Meets start (h.unEncryptedDataWordLength * 4).toNat)

instance (inst : XFsblPs) (n : Nat) (b : TcmBank) : Decidable (WritesTo inst n b) :=
  inferInstanceAs (Decidable (_ ∧ _))

/-- No partition below `n` is in the bank. -/
def Clear (inst : XFsblPs) (n : Nat) (b : TcmBank) : Prop :=
  ∀ m, 1 ≤ m → m < n → ¬ WritesTo inst m b

/-- Behind the acts `as`, the banks partition `n` goes to are those of its load address, or were
initialised before; and where its load initialises banks, no partition before it is in one. -/
structure TcmOrder (inst : XFsblPs) (n : Nat) (as : List Act) : Prop where
  own : ∀ b, WritesTo inst n b →
    b.In ((inst.imageHeader.header n).tcmMask inst.processorID) ∨ Initialised b as
  first : ReallyLoaded inst n → (inst.imageHeader.header n).unEncryptedDataWordLength ≠ 0 →
    inst.tcmEccInitStatus &&& (inst.imageHeader.header n).tcmMask inst.processorID ≠
      (inst.imageHeader.header n).tcmMask inst.processorID →
    ∀ b, b.In ((inst.imageHeader.header n).tcmMask inst.processorID) → Clear inst n b

/-! ## The state of the TCM -/

/-- Behind loads of partitions below `n`, with the banks of `S` initialised. -/
structure TcmState (i : XFsblPs) (n : Nat) (S : TcmBank → Prop) (w : World) : Prop where
  fixed : w.inst.fixed = i.fixed
  safe : TcmSafe w.trace
  status : ∀ b : TcmBank, b.In w.inst.tcmEccInitStatus → Initialised b w.trace
  held : ∀ b, Held b w.trace → ∃ m, 1 ≤ m ∧ m < n ∧ WritesTo i m b
  ready : ∀ b, S b → Initialised b w.trace

/-- The fields of the instance the state of the TCM depends on. -/
def XFsblPs.tcm (i : XFsblPs) : XFsblPs × UInt32 := (i.fixed, i.tcmEccInitStatus)

/-- Steps away from the TCM. -/
abbrev Calm : World → World → Prop := Keeps XFsblPs.tcm Act.NoTcm

instance (n : Nat) : Steps (CheckAct n) Calm where
  act _ a h := keeps_act (fun _ _ => rfl) (noTcm_checkAct a h)

instance (n : Nat) : Steps (MeasureAct n) Calm where
  act _ a h := keeps_act (fun _ _ => rfl) (noTcm_measureAct a h)

namespace TcmState

variable {i : XFsblPs} {n k : Nat} {S T : TcmBank → Prop} {w w' : World}

theorem mono (h : TcmState i n S w) (hn : n ≤ k) : TcmState i k S w := by
  refine ⟨h.fixed, h.safe, h.status, fun b hb => ?_, h.ready⟩
  obtain ⟨m, h1, hm, hw⟩ := h.held b hb
  exact ⟨m, h1, by omega, hw⟩

theorem of_ready (h : TcmState i n S w) (hT : ∀ b, T b → Initialised b w.trace) :
    TcmState i n T w := ⟨h.fixed, h.safe, h.status, h.held, hT⟩

theorem calm (h : TcmState i n S w) (hc : Calm w w') : TcmState i n S w' := by
  obtain ⟨⟨as, ha, hd⟩, hf⟩ := hc
  obtain ⟨hfixed, hstatus⟩ := Prod.mk.inj hf
  refine ⟨hfixed.trans h.fixed, ?_, fun b hb => ?_, fun b hb => ?_, fun b hb => ?_⟩
  · rw [hd.trace]
    exact h.safe.append fun a hm pre => (ha a hm).step pre
  · rw [hd.trace]
    exact (h.status b (hstatus ▸ hb)).append
  · rw [hd.trace] at hb
    exact h.held b ((held_append.1 hb).resolve_right (not_held ha))
  · rw [hd.trace]
    exact (h.ready b hb).append

/-- A transfer to banks without bytes of a partition. -/
theorem eccInit {start len : Nat} (h : TcmState i n S w)
    (hw : ∀ b, TcmBank.Meets b start len → ¬ Held b w.trace) :
    TcmState i n S (w.apply (.eccInit start len)) := by
  refine ⟨h.fixed, always_snoc.2 ⟨h.safe, hw, fun b hf => hf.elim⟩,
    fun b hb => (h.status b hb).append, fun b hb => h.held b ?_, fun b hb => (h.ready b hb).append⟩
  refine (held_append.1 hb).resolve_right ?_
  rintro ⟨a, ha, hf⟩
  obtain rfl := List.mem_singleton.1 ha
  exact hf

/-- Bytes of a partition in initialised banks. -/
theorem placed {start len : Nat} {data : Mem} (h : TcmState i k S w) (h1 : 1 ≤ n) (hn : n < k)
    (hS : ∀ b, TcmBank.Meets b start len → S b ∧ WritesTo i n b) :
    TcmState i k S (w.apply (.placed n start len data)) := by
  refine ⟨h.fixed, always_snoc.2 ⟨h.safe, fun b hw => hw.elim, fun b hf => h.ready b (hS b hf).1⟩,
    fun b hb => (h.status b hb).append, fun b hb => ?_, fun b hb => (h.ready b hb).append⟩
  rcases held_append.1 hb with hb | ⟨a, ha, hf⟩
  · exact h.held b hb
  · obtain rfl := List.mem_singleton.1 ha
    exact ⟨n, h1, hn, (hS b hf).2⟩

/-- A status whose banks are initialised. -/
theorem setStatus {status : UInt32} (h : TcmState i n S w)
    (hs : ∀ b : TcmBank, b.In status → Initialised b w.trace) :
    TcmState i n S { w with inst := { w.inst with tcmEccInitStatus := status } } :=
  ⟨h.fixed, h.safe, hs, h.held, h.ready⟩

end TcmState

/-! ## Initialising -/

/-- The ranges of an initialisation are those of the banks in its status. -/
theorem tcmEccRanges_banks (processorID cpuId : UInt32) :
    (∀ r ∈ (tcmEccRanges processorID cpuId).1, r.2 ≤ zdmaTransferMaxLen ∧
        ∀ b : TcmBank, b.Meets r.1 r.2 → b.In (tcmEccRanges processorID cpuId).2) ∧
      ∀ b : TcmBank, b.In (tcmEccRanges processorID cpuId).2 →
        ∃ r ∈ (tcmEccRanges processorID cpuId).1, b.CoveredBy r.1 r.2 := by
  unfold tcmEccRanges
  by_cases hcpu : processorID ≠ xihPhAttrbDestCpuA53_0
  · simp only [if_pos hcpu]
    repeat' split
    all_goals decide
  · simp only [if_neg hcpu]
    repeat' split
    all_goals decide

theorem TcmBank.In.of_mask {b : TcmBank} {status mask : UInt32} (h : b.In mask)
    (hm : status &&& mask = mask) : b.In status := by
  show status &&& b.status = b.status
  calc status &&& b.status = status &&& (mask &&& b.status) := by rw [h]
    _ = mask &&& b.status := by rw [← UInt32.and_assoc, hm]
    _ = b.status := h

theorem TcmBank.not_in_zero (b : TcmBank) : ¬ b.In 0 := by
  cases b <;> decide

section Triples

variable (hw : Hw) {i : XFsblPs} {n k : Nat} {S : TcmBank → Prop} {α : Type}

/-- The state of the TCM where a load fails. -/
abbrev TcmLeft (i : XFsblPs) (n : Nat) : World → Prop := TcmState i n fun _ => False

theorem TcmState.left {w : World} (h : TcmState i n S w) (hk : n ≤ k) : TcmLeft i k w :=
  (h.mono hk).of_ready nofun

theorem calm_then {c : Fsbl α} {β : Type} {f : α → Fsbl β} {Q : β → World → Prop} (hk : n ≤ k)
    (hc : Frame Calm c) (hf : ∀ a, Triple (TcmState i n S) (f a) Q (TcmLeft i k)) :
    Triple (TcmState i n S) (c >>= f) Q (TcmLeft i k) :=
  triple_seq hc (fun _ _ hs h => h.calm hs) (fun _ h => h.left hk) hf

theorem eccInitLoop_zero (fuel start : Nat) : eccInitLoop hw fuel start 0 = pure () := by
  cases fuel <;> rfl

theorem tcm_eccInit {start len : Nat} (hk : n ≤ k) (hmax : len ≤ zdmaTransferMaxLen)
    (hclear : ∀ b : TcmBank, b.Meets start len → Clear i n b) :
    Triple (TcmState i n S) (eccInit hw start len)
      (fun _ => TcmState i n fun b => S b ∨ b.CoveredBy start len) (TcmLeft i k) := by
  refine triple_ite (fun h0 => ?_) fun h0 => ?_
  · refine triple_pure fun w h => h.of_ready ?_
    rintro b (hb | ⟨hpos, -⟩)
    · exact h.ready b hb
    · omega
  rw [Nat.min_eq_left hmax, Nat.sub_self]
  refine calm_then hk (frame_wait hw _) fun _ => ?_
  refine triple_bind (Q := fun _ => TcmState i n fun b => S b ∨ b.CoveredBy start len) ?_ fun _ => ?_
  · refine triple_modify fun w h => ?_
    have hfree (b : TcmBank) (hm : b.Meets start len) : ¬ Held b w.trace := by
      intro hheld
      obtain ⟨m, h1, hlt, hw⟩ := h.held b hheld
      exact hclear b hm m h1 hlt hw
    have he := h.eccInit hfree
    refine he.of_ready ?_
    rintro b (hb | hb)
    · exact he.ready b hb
    · exact ⟨_, List.mem_append_right _ List.mem_cons_self, hb⟩
  refine calm_then hk (frame_wait hw _) fun _ => calm_then hk (frame_call hw _) fun status => ?_
  refine calm_then hk (frame_ensure _ _) fun _ => ?_
  rw [eccInitLoop_zero]
  exact triple_pure fun w h => h

theorem tcm_eccInitRanges {ranges : List (Nat × Nat)} (hk : n ≤ k)
    (hr : ∀ r ∈ ranges, r.2 ≤ zdmaTransferMaxLen ∧ ∀ b : TcmBank, b.Meets r.1 r.2 → Clear i n b) :
    Triple (TcmState i n S) (eccInitRanges hw ranges)
      (fun _ => TcmState i n fun b => S b ∨ ∃ r ∈ ranges, b.CoveredBy r.1 r.2) (TcmLeft i k) := by
  induction ranges generalizing S with
  | nil =>
    refine triple_pure fun w h => h.of_ready ?_
    rintro b (hb | ⟨r, hr, -⟩)
    · exact h.ready b hb
    · cases hr
  | cons r ranges ih =>
    obtain ⟨start, len⟩ := r
    rw [List.forall_mem_cons] at hr
    refine triple_bind (tcm_eccInit hw hk hr.1.1 hr.1.2) fun _ => ?_
    refine (ih hr.2).imp (fun _ h => h) (fun _ w h => h.of_ready ?_) fun _ h => h
    rintro b (hb | ⟨r, hr, hc⟩)
    · exact h.ready b (.inl (.inl hb))
    rcases List.mem_cons.1 hr with rfl | hr
    · exact h.ready b (.inl (.inr hc))
    · exact h.ready b (.inr ⟨r, hr, hc⟩)

theorem tcm_tcmEccInit {cpuId mask : UInt32} (hk : n ≤ k)
    (hmask : ∀ p, (tcmEccRanges p cpuId).2 = mask) (hclear : ∀ b : TcmBank, b.In mask → Clear i n b) :
    Triple (TcmState i n S) (tcmEccInit hw cpuId)
      (fun _ => TcmState i n fun b => S b ∨ b.In mask) (TcmLeft i k) := by
  refine triple_get fun v hv => ?_
  obtain ⟨hranges, hcovered⟩ := tcmEccRanges_banks v.inst.processorID cpuId
  rw [hmask] at hranges hcovered
  have hinit := @tcm_eccInitRanges hw i n k S (tcmEccRanges v.inst.processorID cpuId).1 hk
    fun r hr => ⟨(hranges r hr).1, fun b hb => hclear b ((hranges r hr).2 b hb)⟩
  refine triple_bind (hinit.imp (by rintro t rfl; exact hv) (fun _ _ h => h) fun _ h => h) fun _ => ?_
  refine triple_modify fun w h => ?_
  dsimp only
  rw [hmask]
  have hin (b : TcmBank) (hb : b.In mask) : Initialised b w.trace := h.ready b (.inr (hcovered b hb))
  refine (h.setStatus hin).of_ready ?_
  rintro b (hb | hb)
  · exact h.ready b (.inl hb)
  · exact hin b hb

/-- The state of the TCM with its status word. -/
def TcmAt (i : XFsblPs) (n : Nat) (S : TcmBank → Prop) (status : UInt32) (w : World) : Prop :=
  TcmState i n S w ∧ w.inst.tcmEccInitStatus = status

theorem TcmAt.calm {w w' : World} {status : UInt32} (h : TcmAt i n S status w) (hc : Calm w w') :
    TcmAt i n S status w' := ⟨h.1.calm hc, (Prod.mk.inj hc.2).2.trans h.2⟩

theorem tcmAt_then {c : Fsbl α} {β : Type} {f : α → Fsbl β} {Q : β → World → Prop} {status : UInt32}
    (hk : n ≤ k) (hc : Frame Calm c) (hf : ∀ a, Triple (TcmAt i n S status) (f a) Q (TcmLeft i k)) :
    Triple (TcmAt i n S status) (c >>= f) Q (TcmLeft i k) :=
  triple_seq hc (fun _ _ hs h => h.calm hs) (fun _ h => h.1.left hk) hf

theorem tcm_configureTcm {memory : TcmMemory} {runningCpu destinationCpu mask status : UInt32}
    (hk : n ≤ k) (hmask : ∀ p, (tcmEccRanges p destinationCpu).2 = mask)
    (hclear : status &&& mask ≠ mask → ∀ b : TcmBank, b.In mask → Clear i n b) :
    Triple (TcmAt i n S status) (configureTcm hw memory runningCpu destinationCpu mask)
      (fun _ => TcmState i n fun b => S b ∨ b.In mask) (TcmLeft i k) := by
  refine tcmAt_then hk (frame_when fun _ => frame_powerUpMemory hw memory) fun _ => ?_
  refine triple_get fun v hv => ?_
  rw [hv.2]
  refine triple_ite (fun hne => ?_) fun he => ?_
  · refine (tcm_tcmEccInit hw hk hmask (hclear hne)).imp ?_ (fun _ _ h => h) fun _ h => h
    rintro t rfl
    exact hv.1
  · refine triple_pure ?_
    rintro t rfl
    refine hv.1.of_ready ?_
    rintro b (hb | hb)
    · exact hv.1.ready b hb
    · refine hv.1.status b (hb.of_mask ?_)
      rw [hv.2]
      exact not_not.1 he

theorem tcm_configureMemory {runningCpu destinationCpu status : UInt32} {address : UInt64}
    (hk : n ≤ k) (hclear : status &&& tcmMask destinationCpu address ≠ tcmMask destinationCpu address →
      ∀ b : TcmBank, b.In (tcmMask destinationCpu address) → Clear i n b) :
    Triple (TcmAt i n S status) (configureMemory hw runningCpu destinationCpu address)
      (fun _ => TcmState i n fun b => S b ∨ b.In (tcmMask destinationCpu address)) (TcmLeft i k) := by
  have hmask (p : UInt32) : (tcmEccRanges p xihPhAttrbDestCpuR5_0).2 = xfsblR50TcmEccInitStatus ∧
      (tcmEccRanges p xihPhAttrbDestCpuR5_1).2 = xfsblR51TcmEccInitStatus ∧
      (tcmEccRanges p xihPhAttrbDestCpuR5L).2 =
        xfsblR50TcmEccInitStatus ||| xfsblR51TcmEccInitStatus := ⟨rfl, rfl, rfl⟩
  unfold configureMemory
  unfold tcmMask at hclear ⊢
  split
  · rename_i h0
    rw [if_pos h0] at hclear
    exact tcm_configureTcm hw hk (fun p => h0.1 ▸ (hmask p).1) hclear
  rename_i h0
  rw [if_neg h0] at hclear
  split
  · rename_i h1
    rw [if_pos h1] at hclear
    exact tcm_configureTcm hw hk (fun p => h1.1 ▸ (hmask p).2.1) hclear
  rename_i h1
  rw [if_neg h1] at hclear
  split
  · rename_i hL
    rw [if_pos hL] at hclear
    exact tcm_configureTcm hw hk (fun p => hL.1 ▸ (hmask p).2.2) hclear
  · refine triple_pure fun w h => h.1.of_ready ?_
    rintro b (hb | hb)
    · exact h.1.ready b hb
    · exact absurd hb b.not_in_zero

end Triples

/-! ## Loads -/

section Loads

variable (hw : Hw) {i : XFsblPs} {n : Nat} {as : List Act} {α : Type}

theorem triple_ofExcept {β : Type} {P E : World → Prop} {Q : β → World → Prop} {x : Except UInt32 α}
    {f : α → Fsbl β} (hE : ∀ w, P w → E w) (hf : ∀ a, x = .ok a → Triple P (f a) Q E) :
    Triple P (ofExcept x >>= f) Q E := by
  cases x with
  | error code => exact hE
  | ok a => exact hf a rfl

theorem triple_header {β : Type} {P E : World → Prop} {Q : β → World → Prop}
    {f : PartitionHeader → Fsbl β} (hP : ∀ w, P w → w.inst.fixed = i.fixed)
    (hE : ∀ w, P w → E w) (hf : Triple P (f (i.imageHeader.header n)) Q E) :
    Triple P (header n >>= f) Q E := by
  intro w hw
  have hi := imageHeader_of_fixed (hP w hw)
  rw [bind_apply]
  unfold header
  by_cases hn : n < 32
  · rw [dif_pos hn]
    have hh : w.inst.imageHeader.partitionHeader[n] = i.imageHeader.header n := by
      rw [header_eq hn, hi]
    rw [hh]
    exact hf w hw
  · rw [dif_neg hn]
    exact hE w hw

/-- The instance read is as good as `i`. -/
theorem triple_inst {β : Type} {P E : World → Prop} {Q : β → World → Prop} {f : World → Fsbl β}
    (hP : ∀ w, P w → w.inst.fixed = i.fixed)
    (hf : ∀ w, w.inst.fixed = i.fixed → Triple P (f w) Q E) : Triple P (get >>= f) Q E := by
  refine triple_get fun w hw => (hf w (hP w hw)).imp ?_ (fun _ _ h => h) fun _ h => h
  rintro t rfl
  exact hw

theorem tcm_copyToMemory {inst : XFsblPs} (ho : TcmOrder i n as) (h1 : 1 ≤ n)
    (hload : ReallyLoaded i n)
    (hne : (i.imageHeader.header n).unEncryptedDataWordLength ≠ 0) :
    Triple (TcmAt i n (fun b => Initialised b as) i.tcmEccInitStatus)
      (copyToMemory hw n (i.imageHeader.header n) inst
        ((i.imageHeader.header n).effectiveCpu i.processorID))
      (fun _ => TcmState i (n + 1) (WritesTo i n)) (TcmLeft i (n + 1)) := by
  have hk : n ≤ n + 1 := Nat.le_succ n
  refine tcmAt_then hk (frame_when fun _ => ?_) fun _ => ?_
  · exact frame_bind (frame_deviceRead hw _ _) fun _ => frame_pure _
  refine triple_ofExcept (fun w h => h.1.left hk) fun loadAddress hla => ?_
  obtain rfl := getLoadAddress_ok hla
  refine triple_bind (tcm_configureMemory hw hk (ho.first hload hne)) fun _ => ?_
  refine calm_then hk (frame_when fun _ => frame_wait hw _) fun _ => ?_
  refine calm_then hk (frame_deviceOpsCopy hw _ _) fun r => ?_
  refine triple_bind (Q := fun _ => TcmState i (n + 1) (WritesTo i n)) ?_ fun _ => ?_
  · refine triple_modify fun w h => ?_
    have hin : TcmState i n (WritesTo i n) w := h.of_ready fun b hb => h.ready b (ho.own b hb).symm
    refine (hin.mono hk).placed h1 (Nat.lt_succ_self n) fun b hb => ?_
    have hwrites : WritesTo i n b := ⟨hload, .inl ⟨hne, hb⟩⟩
    exact ⟨hwrites, hwrites⟩
  · exact (triple_of_frame (frame_ensure _ _) fun _ _ hc h => h.calm hc).imp (fun _ h => h)
      (fun _ _ h => h) fun _ h => h.left (Nat.le_refl _)

theorem unEnc_of_writesTo {b : TcmBank} (h : WritesTo i n b) :
    (i.imageHeader.header n).unEncryptedDataWordLength ≠ 0 := by
  intro h0
  rcases h.2 with ⟨hne, -⟩ | ⟨-, r, -, hpos, -⟩
  · exact hne h0
  · rw [h0] at hpos
    exact absurd hpos (by decide)

theorem tcm_partitionCopy (ho : TcmOrder i n as) (h1 : 1 ≤ n)
    (howned : ¬ NotOwned (i.imageHeader.header n) i.processorID i.resetReason) :
    Triple (TcmAt i n (fun b => Initialised b as) i.tcmEccInitStatus) (partitionCopy hw n)
      (fun _ => TcmState i (n + 1) (WritesTo i n)) (TcmLeft i (n + 1)) := by
  have hk : n ≤ n + 1 := Nat.le_succ n
  refine triple_header (fun w h => h.1.fixed) (fun w h => h.1.left hk) ?_
  refine triple_inst (fun w h => h.1.fixed) fun v hv => ?_
  dsimp only
  rw [processorID_of_fixed hv, resetReason_of_fixed hv]
  refine triple_ite (fun h0 => ?_) fun hne => triple_ite (fun hpl => ?_) fun hpl => ?_
  · refine (triple_of_frame (frame_updateHandoff n _ _) fun _ _ hc h => TcmAt.calm h hc).imp
      (fun _ h => h) (fun _ w h => ?_) fun _ h => h.1.left hk
    exact (h.1.mono hk).of_ready fun b hb => absurd h0 (unEnc_of_writesTo hb)
  · refine triple_pure fun w h => (h.1.mono hk).of_ready fun b hb => ?_
    exact absurd hpl hb.1.2
  · exact tcm_copyToMemory hw ho h1 ⟨howned, hpl⟩ hne

theorem tcm_partitionValidation (h1 : 1 ≤ n)
    (howned : ¬ NotOwned (i.imageHeader.header n) i.processorID i.resetReason) :
    Triple (TcmState i (n + 1) (WritesTo i n)) (partitionValidation hw n)
      (fun _ => TcmLeft i (n + 1)) (TcmLeft i (n + 1)) := by
  have hk : n + 1 ≤ n + 1 := Nat.le_refl _
  refine triple_header (fun w h => h.fixed) (fun w h => h.left hk) ?_
  refine triple_inst (fun w h => h.fixed) fun v hv => ?_
  dsimp only
  rw [processorID_of_fixed hv, resetReason_of_fixed hv]
  refine triple_ite (fun hpl => triple_pure fun w h => h.left hk) fun hpl => ?_
  refine triple_ofExcept (fun w h => h.left hk) fun loadAddress hla => ?_
  obtain rfl := getLoadAddress_ok hla
  refine calm_then hk (frame_checkPartition hw n _ _ _) fun _ => ?_
  refine triple_bind (Q := fun _ => TcmState i (n + 1) (WritesTo i n)) ?_ fun _ => ?_
  · refine triple_ite (fun henc => ?_) fun _ => triple_pure fun w h => h
    refine calm_then hk (frame_ask _) fun r => ?_
    refine triple_bind (Q := fun _ => TcmState i (n + 1) (WritesTo i n)) ?_ fun _ => ?_
    · refine triple_modify fun w h => h.placed h1 (Nat.lt_succ_self n) fun b hb => ?_
      have hplace : plLoadAddress (i.imageHeader.header n)
          (globalAddress ((i.imageHeader.header n).effectiveCpu i.processorID)
            (i.imageHeader.header n).destinationLoadAddress) =
          globalAddress ((i.imageHeader.header n).effectiveCpu i.processorID)
            (plLoadAddress (i.imageHeader.header n)
              (i.imageHeader.header n).destinationLoadAddress) := by
        simp only [Bool.and_eq_true, Bool.not_eq_true'] at henc
        simp [plLoadAddress, henc.2]
      rw [hplace] at hb
      have hwrites : WritesTo i n b := ⟨⟨howned, hpl⟩, .inr ⟨henc, hb⟩⟩
      exact ⟨hwrites, hwrites⟩
    · exact (triple_of_frame (frame_ensure _ _) fun _ _ hc h => h.calm hc).imp (fun _ h => h)
        (fun _ _ h => h) fun _ h => h.left hk
  refine calm_then hk (frame_downloadBitstream hw n _ _) fun _ => ?_
  refine calm_then hk (frame_afterBitstream hw _) fun _ => ?_
  refine (triple_of_frame (frame_finishPartition hw n _ _ _) fun _ _ hc h => TcmState.calm h hc).imp
    (fun _ h => h) (fun _ _ h => h.left hk) fun _ h => h.left hk

/-- **What a load does to the TCM**, whether it succeeds or not. -/
theorem tcm_partitionLoad {w : World} {S : TcmBank → Prop} (ho : TcmOrder w.inst n w.trace)
    (h1 : 1 ≤ n) (h : TcmState w.inst n S w) :
    TcmLeft w.inst (n + 1) (final (partitionLoad hw n w)) := by
  have hk : n ≤ n + 1 := Nat.le_succ n
  have hat : TcmAt w.inst n (fun b => Initialised b w.trace) w.inst.tcmEccInitStatus w :=
    ⟨h.of_ready fun _ hb => hb, rfl⟩
  show TcmLeft w.inst (n + 1) (final ((partitionHeaderValidation hw n >>= _) w))
  rw [bind_apply]
  cases hv : partitionHeaderValidation hw n w with
  | error e t => exact (hat.calm ((frame_partitionHeaderValidation hw n).error hv)).1.left hk
  | ok owned t =>
    have hat' := hat.calm ((frame_partitionHeaderValidation hw n).ok hv)
    cases owned with
    | false => exact hat'.1.left hk
    | true =>
      obtain ⟨hn, -, -, hown, hacc⟩ := partitionHeaderValidation_ok hv
      have howned : ¬ NotOwned (w.inst.imageHeader.header n) w.inst.processorID w.inst.resetReason := by
        rw [header_eq hn]
        exact not_or.2 ⟨not_not.2 hown, hacc.owned⟩
      refine (triple_bind (tcm_partitionCopy hw ho h1 howned) fun _ => ?_).final hat'
      refine triple_bind (tcm_partitionValidation hw h1 howned) fun _ => ?_
      exact triple_of_frame (frame_checkPmuFw hw n) fun _ _ hc h => TcmState.calm h hc

end Loads

/-! ## Passes -/

section Passes

variable {hw : Hw} {n : Nat} {w w' : World} {s s₀ : MainState}

theorem writesTo_of_fixed {i j : XFsblPs} {b : TcmBank} (h : i.fixed = j.fixed)
    (hw : WritesTo i n b) : WritesTo j n b := by
  unfold WritesTo ReallyLoaded at *
  rwa [imageHeader_of_fixed h, processorID_of_fixed h, resetReason_of_fixed h] at hw

theorem TcmState.of_fixed {i j : XFsblPs} {S : TcmBank → Prop} (h : TcmState i n S w)
    (hij : i.fixed = j.fixed) : TcmState j n S w := by
  refine ⟨h.fixed.trans hij, h.safe, h.status, fun b hb => ?_, h.ready⟩
  obtain ⟨m, h1, hm, hw⟩ := h.held b hb
  exact ⟨m, h1, hm, writesTo_of_fixed hij hw⟩

/-- The state of the TCM before the first load. -/
def TcmFresh (w : World) : Prop := TcmLeft w.inst 1 w

/-- Behind no load the headers do not matter. -/
theorem tcmFresh_iff : TcmFresh w ↔
    TcmSafe w.trace ∧ (∀ b : TcmBank, b.In w.inst.tcmEccInitStatus → Initialised b w.trace) ∧
      ∀ b, ¬ Held b w.trace := by
  constructor
  · intro h
    refine ⟨h.safe, h.status, fun b hb => ?_⟩
    obtain ⟨m, h1, hm, -⟩ := h.held b hb
    omega
  · rintro ⟨hsafe, hstatus, hheld⟩
    exact ⟨rfl, hsafe, hstatus, fun b hb => absurd hb (hheld b), nofun⟩

/-- Steps away from the TCM that leave its status. -/
abbrev CalmStatus : World → World → Prop := Keeps XFsblPs.tcmEccInitStatus Act.NoTcm

theorem TcmFresh.calm (h : TcmFresh w) (hc : CalmStatus w w') : TcmFresh w' := by
  rw [tcmFresh_iff] at h ⊢
  obtain ⟨hsafe, hstatus, hheld⟩ := h
  obtain ⟨⟨as, ha, hd⟩, hs⟩ := hc
  rw [hs, hd.trace]
  refine ⟨hsafe.append fun a hm pre => (ha a hm).step pre, fun b hb => (hstatus b hb).append, ?_⟩
  exact fun b hb => (held_append.1 hb).elim (hheld b) (not_held ha)

theorem fresh_then {α β : Type} {c : Fsbl α} {f : α → Fsbl β} (hc : Frame CalmStatus c)
    (hf : ∀ a, Triple TcmFresh (f a) (fun _ => TcmFresh) TcmFresh) :
    Triple TcmFresh (c >>= f) (fun _ => TcmFresh) TcmFresh :=
  triple_seq hc (fun _ _ hs h => h.calm hs) (fun _ h => h) hf

theorem fresh_last {α : Type} {c : Fsbl α} (hc : Frame CalmStatus c) :
    Triple TcmFresh c (fun _ => TcmFresh) TcmFresh :=
  triple_of_frame hc fun _ _ hs h => h.calm hs

theorem fresh_tcmEccInit (cpuId : UInt32) :
    Triple TcmFresh (tcmEccInit hw cpuId) (fun _ => TcmFresh) TcmFresh := by
  intro v hv
  have hmask (p q : UInt32) : (tcmEccRanges p cpuId).2 = (tcmEccRanges q cpuId).2 := by
    unfold tcmEccRanges
    repeat' split
    all_goals rfl
  have ht : Triple (TcmState v.inst 1 fun _ => False) (tcmEccInit hw cpuId) (fun _ => TcmLeft v.inst 1)
      (TcmLeft v.inst 1) :=
    (tcm_tcmEccInit hw (Nat.le_refl 1) (hmask · 0) fun _ _ m h1 hm => by omega).imp (fun _ h => h)
      (fun _ _ h => h.left (Nat.le_refl 1)) fun _ h => h
  have fresh {t : World} (h : TcmLeft v.inst 1 t) : TcmFresh t := h.of_fixed h.fixed.symm
  cases hc : tcmEccInit hw cpuId v with
  | ok a t => exact fresh (ht.ok hv hc)
  | error e t => exact fresh (ht.error hv hc)

theorem fresh_fsblInitialize :
    Triple TcmFresh (fsblInitialize hw) (fun _ => TcmFresh) TcmFresh := by
  have noTcm (a : Act) (h : InitAct hw a) (hne : ∀ start len, a ≠ .eccInit start len) : a.NoTcm := by
    intro b
    cases a <;> first | exact ⟨id, id⟩ | exact absurd rfl (hne _ _) | exact h.elim
  have act {a : Act} (h : InitAct hw a) (hne : ∀ start len, a ≠ .eccInit start len) :
      Frame CalmStatus (act a) := frame_act fun _ => keeps_act (fun _ _ => rfl) (noTcm a h hne)
  refine fresh_then (frame_getResetReason hw) fun resetReason => ?_
  refine fresh_then (frame_modifyInst_keeps (fun _ => rfl) fun _ => rfl) fun _ => ?_
  refine fresh_then (frame_when fun _ => frame_systemInit hw _) fun _ => ?_
  refine fresh_then (frame_processorInit hw (fun _ _ _ => rfl) (fun _ _ => rfl) ?_) fun _ => ?_
  · exact noTcm _ ⟨rfl, rfl⟩ nofun
  refine triple_bind (Q := fun _ => TcmFresh) (triple_ite (fun _ => ?_) fun _ => ?_) fun _ => ?_
  · refine triple_bind (Q := fun _ => TcmFresh) (fresh_then frame_get fun v => ?_) fun _ =>
      fresh_last (frame_checked hw _)
    exact triple_ite (fun _ => fresh_tcmEccInit _) fun _ => fresh_last (frame_pure _)
  · exact fresh_last (frame_pure _)
  · exact fresh_then (act trivial nofun) fun _ => fresh_last (act rfl nofun)

theorem noTcm_bootAct (a : Act) (h : BootAct a) : a.NoTcm := by
  intro b
  cases a <;> first | exact ⟨id, id⟩ | exact h.elim

theorem frame_runStage2 : Frame CalmStatus (runStage2 hw) := by
  have calm {a : Act} (h : a.NoTcm) : Frame CalmStatus (act a) :=
    frame_act fun _ => keeps_act (fun _ _ => rfl) h
  refine frame_bind (frame_statusOf ?_) fun status => ?_
  · exact (frame_bootDeviceInitAndValidate hw fun _ _ => rfl).mono fun _ _ => Keeps.mono noTcm_bootAct
  refine frame_ite (fun _ => frame_pure _) fun _ => frame_ite (fun _ => ?_) fun _ => ?_
  · exact frame_bind (calm fun _ => ⟨id, id⟩) fun _ => frame_pure _
  · exact frame_bind (calm fun _ => ⟨id, id⟩) fun _ => frame_pure _

theorem tcm_runStage3 (ho : TcmOrder w.inst n w.trace) (h1 : 1 ≤ n) (h : TcmLeft w.inst n w) :
    TcmLeft w.inst (n + 1) (final (runStage3 hw n w)) := by
  have calm {a : Act} (h : a.NoTcm) : Frame Calm (act a) :=
    frame_act fun _ => keeps_act (fun _ _ => rfl) h
  have hcalled : Calm w (w.apply (.loadCalled n)) := keeps_act (fun _ _ => rfl) fun _ => ⟨id, id⟩
  have ho' : TcmOrder w.inst n (w.apply (.loadCalled n)).trace :=
    ⟨fun b hb => (ho.own b hb).imp_right fun hi => hi.append, ho.first⟩
  have hload : TcmLeft w.inst (n + 1) (final (partitionLoad hw n (w.apply (.loadCalled n)))) :=
    tcm_partitionLoad (w := w.apply (.loadCalled n)) hw ho' h1 (h.calm hcalled)
  rw [final_runStage3]
  show TcmLeft w.inst (n + 1)
    (final ((statusOf (partitionLoad hw n) >>= _) (w.apply (.loadCalled n))))
  rw [← final_statusOf] at hload
  refine hload.calm (final_then (fun status => ?_) _)
  refine frame_bind (calm fun _ => ⟨id, id⟩) fun _ => frame_bind (frame_when fun _ => ?_) fun _ => ?_
  · refine frame_bind (frame_header n) fun h => frame_bind frame_get fun v => ?_
    exact calm fun _ => ⟨id, id⟩
  · exact frame_pure _

/-- A state of a run with its TCM as it has to be. -/
structure TcmRun (s : MainState) : Prop where
  safe : TcmSafe s.world.trace
  fresh : s.locals.fsblStage = .stage1 ∨ s.locals.fsblStage = .stage2 → TcmFresh s.world
  loads : s.locals.fsblStage = .stage3 → TcmLeft s.world.inst s.locals.partitionNum s.world

/-- The order the loads of a run have to keep. -/
def TcmOrdered (s : MainState) : Prop :=
  s.locals.fsblStage = .stage3 → TcmOrder s.world.inst s.locals.partitionNum s.world.trace

/-- A pass that ends in a state with `TcmLeft` of its stage. -/
theorem TcmRun.of_left {i : XFsblPs} {k : Nat} (h : TcmLeft i k s.world)
    (he : s.locals.fsblStage = .stage1 ∨ s.locals.fsblStage = .stage2 → k = 1)
    (hl : s.locals.fsblStage = .stage3 → s.locals.partitionNum = k) : TcmRun s := by
  have hown : TcmLeft s.world.inst k s.world := h.of_fixed h.fixed.symm
  refine ⟨h.safe, fun hs => ?_, fun hs => ?_⟩
  · rw [he hs] at hown
    exact hown
  · rw [hl hs]
    exact hown

theorem TcmRun.step (h : TcmRun s) (hok : PassOk s) (hg : TcmOrdered s) : TcmRun (mainStep hw s) := by
  have hpass : Pass hw s (mainStep hw s) := mainStep_cases hok
  have hworld : (mainStep hw s).world = final (runStage hw s.locals s.world) := mainStep_world hw s
  have hemits := pass_emits hw s
  generalize mainStep hw s = t at hpass hworld hemits ⊢
  obtain ⟨⟨stage, k, status⟩, w⟩ := s
  cases stage with
  | stage1 =>
    have hfresh : TcmFresh t.world := by
      rw [hworld]
      show TcmFresh (final ((statusOf (fsblInitialize hw) >>= _) w))
      have hinit := (@fresh_fsblInitialize hw).final (h.fresh (.inl rfl))
      rw [← final_statusOf] at hinit
      refine hinit.calm (final_then (fun status => ?_) _)
      exact frame_ite (fun _ => frame_pure _) fun _ => frame_pure _
    refine .of_left hfresh (fun _ => rfl) fun hs => ?_
    cases hpass with
    | initialized _ _ ht => rw [ht] at hs; cases hs
    | failed ht => rw [ht] at hs; cases hs
    | ended _ ht => rw [ht] at hs; cases hs
    | _ hs' => cases hs'
  | stage2 =>
    have hfresh : TcmFresh t.world := by
      rw [hworld]
      exact (h.fresh (.inr rfl)).calm (frame_runStage2 _)
    refine .of_left hfresh (fun _ => rfl) fun hs => ?_
    cases hpass with
    | booted _ _ _ ht => rw [ht]
    | jtag _ _ _ ht => rw [ht] at hs; cases hs
    | failed ht => rw [ht] at hs; cases hs
    | ended _ ht => rw [ht] at hs; cases hs
    | _ hs' => cases hs'
  | stage3 =>
    have hk : 1 ≤ k := by
      rcases hok.1 rfl with ⟨-, -, hk, -⟩ | ⟨hk, -⟩
      · exact hk
      · exact Nat.le_of_eq hk.symm
    have hleft : TcmLeft w.inst (k + 1) t.world := by
      rw [hworld]
      exact tcm_runStage3 (hg rfl) hk (h.loads rfl)
    refine .of_left hleft (fun hs => ?_) fun hs => ?_
    · cases hpass with
      | loaded _ _ _ ht => rw [ht] at hs; split at hs <;> simp at hs
      | failed ht => simp [ht] at hs
      | ended _ ht => simp [ht] at hs
      | _ hs' => cases hs'
    · cases hpass with
      | loaded _ _ _ ht =>
        rw [ht] at hs ⊢
        split at hs
        · rename_i hlt
          rw [if_pos hlt]
        · cases hs
      | failed ht => simp [ht] at hs
      | ended _ ht => simp [ht] at hs
      | _ hs' => cases hs'
  | _ =>
    have hover : t.Over := by
      cases hpass with
      | failed ht => exact .inl ht
      | ended _ ht => exact .inr (.inr ⟨_, ht⟩)
      | _ hs' => cases hs'
    refine ⟨?_, fun hs => absurd hover (not_over_of_early hs), fun hs => absurd hover (not_over_of_stage3 hs)⟩
    obtain ⟨as, ha, hd⟩ := hemits
    rw [hd.trace]
    refine h.safe.append fun a hm pre => Act.NoTcm.step (fun b => ?_) pre
    have hact := ha a hm
    first
      | exact hact.elim
      | rcases hact with hact | rfl
        · cases a <;> first | exact ⟨id, id⟩ | exact hact.elim
        · exact ⟨id, id⟩

/-- **No initialisation wipes a partition, and none is copied to a bank before its initialisation**,
in every state of a run whose loads keep the order. -/
theorem tcm_safe (h₀ : (boot hw).init s₀) (h : (boot hw).Run TcmOrdered s₀ s) :
    TcmSafe s.world.trace := by
  have hrun : TcmRun s := by
    induction h with
    | refl =>
      have hfresh : TcmFresh s₀.world := by
        rw [tcmFresh_iff, h₀.2.trace, h₀.2.inst]
        refine ⟨always_nil, fun b hb => absurd hb b.not_in_zero, ?_⟩
        rintro b ⟨a, ha, -⟩
        cases ha
      refine .of_left hfresh (fun _ => rfl) fun hs => ?_
      rw [h₀.1] at hs
      cases hs
    | snoc hr hg hn ih =>
      obtain ⟨-, rfl⟩ := hn
      exact ih.step (run_history h₀ hr).passOk hg
  exact hrun.safe

end Passes

/-- Partitions for the R5-0 and the R5-1, each to its ATCM. -/
def twoRpuBoard : Board :=
  qspiBoard [{ exec := 0, load := 0, attributes := 0x500 }, { exec := 0, load := 0, attributes := 0x600 }]

/-- One after the other each R5 gets its own banks. -/
theorem tcm_safe_twoRpuBoard : TcmSafe (twoRpuBoard.after 4).world.trace := by
  have hr : (boot twoRpuBoard.hw).Run
      (fun s => s.locals.fsblStage = .stage3 →
        (∀ b, WritesTo s.world.inst s.locals.partitionNum b →
          b.In ((s.world.inst.imageHeader.header s.locals.partitionNum).tcmMask
            s.world.inst.processorID)) ∧
        ∀ b, b.In ((s.world.inst.imageHeader.header s.locals.partitionNum).tcmMask
            s.world.inst.processorID) →
          ∀ m ∈ List.range s.locals.partitionNum, ¬ WritesTo s.world.inst m b)
      powerOn (twoRpuBoard.after 4) := twoRpuBoard.run 0 4 (by decide +kernel)
  refine tcm_safe (init_powerOn _) (hr.mono fun s hs h3 => ?_)
  obtain ⟨hown, hfirst⟩ := hs h3
  exact ⟨fun b hb => .inl (hown b hb), fun _ _ _ b hb m _ hm => hfirst b hb m (List.mem_range.2 hm)⟩

/-- The R5-0 gets its BTCM behind the ATCM of the R5-1. -/
def threeRpuBoard : Board :=
  qspiBoard [{ exec := 0, load := 0, attributes := 0x500 }, { exec := 0, load := 0, attributes := 0x600 },
    { exec := 0, load := 0x20000, attributes := 0x500 }]

/-- The third load wipes what the first copied. -/
theorem not_tcm_safe :
    ¬ ∀ (hw : Hw) (s : MainState), (boot hw).Reachable s → TcmSafe s.world.trace := by
  intro h
  have hsafe := h threeRpuBoard.hw (threeRpuBoard.after 5)
    ⟨_, init_powerOn _, threeRpuBoard.run 0 5 (by decide +kernel)⟩
  have hheld : ((threeRpuBoard.after 5).world.trace.take 34).any (fun a =>
      match a with
      | .placed _ start len _ => decide (TcmBank.r50Atcm.Meets start len)
      | _ => false) = true := by decide +kernel
  have hwipe : ((threeRpuBoard.after 5).world.trace.drop 34).head?.any (fun a =>
      match a with
      | .eccInit start len => decide (TcmBank.r50Atcm.Meets start len)
      | _ => false) = true := by decide +kernel
  obtain ⟨a, ha, hfill⟩ := List.any_eq_true.1 hheld
  cases hd : (threeRpuBoard.after 5).world.trace.drop 34 with
  | nil =>
    rw [hd] at hwipe
    cases hwipe
  | cons e post =>
    rw [hd] at hwipe
    have hstep := hsafe.drop hd
    refine hstep.kept .r50Atcm ?_ ⟨a, ha, ?_⟩
    · cases e with
      | eccInit start len => exact of_decide_eq_true (p := TcmBank.r50Atcm.Meets start len) hwipe
      | _ => cases hwipe
    · cases a with
      | placed n start len data => exact of_decide_eq_true (p := TcmBank.r50Atcm.Meets start len) hfill
      | _ => cases hfill

end MeasuredBoot
