import MeasuredBoot.Completeness
import MeasuredBoot.HandoffRuns

/-!
# What is executed and what is measured

The handoff address of an entry is the execution address of its partition, the range hashed is the
one it was placed in, and no step compares the two. `executed_measured`: the address lies in the
range recorded for the partition exactly where its header says so. A partition that executes in
place has an empty range.
-/

namespace MeasuredBoot

open Prog TransSys Firsts

/-! ## Recorded ranges -/

/-- An event was recorded for the subject, with the digest of a range that has the address. -/
def MeasuredFor (hw : Hw) (subject : Subject) (as : List Act) (address : Nat) : Prop :=
  ∃ start input e, .hashed subject start input ∈ as ∧ .recorded subject e ∈ as ∧
    IsDigest hw input e.digest ∧ start ≤ address ∧ address < start + input.length

/-- A hash or an event for the subject. -/
def Act.IsFor (subject : Subject) : Act → Prop
  | .hashed s _ _ => s = subject
  | .recorded s _ => s = subject
  | _ => False

/-- Neither a hash nor an event for a partition, nor counted as one. -/
def Act.Unmeasured : Act → Prop
  | .hashed (.partition _) .. => False
  | .recorded (.partition _) _ => False
  | .counted => False
  | _ => True

/-- The range measured for a partition has the address. -/
def PartitionHeader.MeasuredRange (h : PartitionHeader) (runningCpu : UInt32) (address : Nat) :
    Prop :=
  placedStart h runningCpu ≤ address ∧
    address < placedStart h runningCpu + (h.unEncryptedDataWordLength <<< 2).toNat

/-- A load of partition `n` measures it: it is loaded, and not to the PL. -/
def MeasuresLoad (inst : XFsblPs) (n : Nat) : Prop :=
  ReallyLoaded inst n ∧ (inst.imageHeader.header n).toPl = false

instance (inst : XFsblPs) (n : Nat) : Decidable (MeasuresLoad inst n) :=
  inferInstanceAs (Decidable (_ ∧ _))

/-- The partitions measured among the first `n`. -/
def measuredPartitions (inst : XFsblPs) (n : Nat) : List Nat :=
  (List.range' 1 n).filter fun k => MeasuresLoad inst k

section Acts

variable {hw : Hw} {subject : Subject} {as bs : List Act} {n k p address : Nat}
  {h : PartitionHeader} {w : World}

theorem measuredFor_append_left (hb : ∀ b ∈ bs, ¬ b.IsFor subject) :
    MeasuredFor hw subject (as ++ bs) address ↔ MeasuredFor hw subject as address := by
  have only {a : Act} (ha : a.IsFor subject) : a ∈ as ++ bs ↔ a ∈ as := by
    rw [List.mem_append]
    exact or_iff_left fun hmem => hb a hmem ha
  unfold MeasuredFor
  simp only [only (show Act.IsFor subject (.hashed subject _ _) from rfl),
    only (show Act.IsFor subject (.recorded subject _) from rfl)]

theorem measuredFor_append_right (ha : ∀ a ∈ as, ¬ a.IsFor subject) :
    MeasuredFor hw subject (as ++ bs) address ↔ MeasuredFor hw subject bs address := by
  have only {b : Act} (hb : b.IsFor subject) : b ∈ as ++ bs ↔ b ∈ bs := by
    rw [List.mem_append]
    exact or_iff_right fun hmem => ha b hmem hb
  unfold MeasuredFor
  simp only [only (show Act.IsFor subject (.hashed subject _ _) from rfl),
    only (show Act.IsFor subject (.recorded subject _) from rfl)]

theorem not_measuredFor (ha : ∀ a ∈ as, ¬ a.IsFor subject) : ¬ MeasuredFor hw subject as address :=
  fun ⟨_, _, _, hmem, _⟩ => ha _ hmem rfl

theorem Act.Unmeasured.not_isFor {a : Act} (h : a.Unmeasured) : ¬ a.IsFor (.partition n) := by
  intro hf
  cases a with
  | hashed s => rw [show s = .partition n from hf] at h; exact h
  | recorded s => rw [show s = .partition n from hf] at h; exact h
  | _ => exact hf

theorem replay_unmeasured (w : World) (h : ∀ a ∈ as, a.Unmeasured) :
    (w.replay as).partition = w.partition := by
  induction as generalizing w with
  | nil => rfl
  | cons a as ih =>
    obtain ⟨ha, h⟩ := List.forall_mem_cons.1 h
    rw [World.replay_cons, ih _ h]
    cases a with
    | counted => exact ha.elim
    | _ => rfl

theorem unmeasured_placing {cpu : UInt32} (a : Act) (h' : PlacingAct h cpu a) : a.Unmeasured := by
  cases a <;> trivial

theorem unmeasured_idle (a : Act) (h : a.Idle) : a.Unmeasured := by
  cases a <;> trivial

theorem unmeasured_bitstreamActs {status : UInt32} {d : Digest} :
    ∀ a ∈ bitstreamActs n status d, a.Unmeasured := by
  intro a ha
  unfold bitstreamActs at ha
  split at ha
  · cases ha
  · obtain rfl := List.mem_singleton.1 ha
    trivial

/-- Only the load of a partition measures it. -/
theorem loadAct_isFor {a : Act} (h : LoadAct n a) (hf : a.IsFor (.partition k)) : k = n := by
  cases a with
  | hashed s =>
    rw [show s = .partition k from hf] at h
    exact h
  | recorded s =>
    rw [show s = .partition k from hf] at h
    exact h.1
  | _ => exact hf.elim

end Acts

/-! ## One load -/

/-- The acts of a load that measures, with counter `p`. -/
def LoadMeasures (hw : Hw) (n p : Nat) (h : PartitionHeader) (start : Nat) (as : List Act) : Prop :=
  ∃ pre post input d, as = pre ++ (.hashed (.partition n) start input :: recordActs n p d) ++ post ∧
    (∀ a ∈ pre ++ post, a.Unmeasured) ∧
    input.length = (h.unEncryptedDataWordLength <<< 2).toNat ∧ IsDigest hw input d

section Load

variable {hw : Hw} {n p start address : Nat} {h : PartitionHeader} {w w' v : World}
  {as pre post : List Act}

theorem LoadMeasures.append (hm : LoadMeasures hw n p h start as)
    (ha : ∀ a ∈ pre ++ post, a.Unmeasured) : LoadMeasures hw n p h start (pre ++ as ++ post) := by
  obtain ⟨pre', post', input, d, rfl, ha', hl, hd⟩ := hm
  refine ⟨pre ++ pre', post' ++ post, input, d, by simp only [List.append_assoc], ?_, hl, hd⟩
  simp only [List.mem_append] at ha ha' ⊢
  rintro a ((hmem | hmem) | hmem | hmem)
  · exact ha a (.inl hmem)
  · exact ha' a (.inl hmem)
  · exact ha' a (.inr hmem)
  · exact ha a (.inr hmem)

theorem MeasuredActs.loadMeasures {m : Mem} {la : UInt64} (hm : MeasuredActs hw n h v m la as) :
    LoadMeasures hw n v.partition h la.toNat as := by
  obtain ⟨he, hin, hd, hi⟩ := hm
  rename_i entry idle input d
  refine ⟨entry, idle, input, d, by simp, ?_, by rw [hin, Mem.length_load], hd⟩
  refine forall_mem_append (fun a ha => ?_) fun a ha => unmeasured_idle a (hi a ha)
  rw [he] at ha
  split at ha
  · exact @unmeasured_placing h 0 a (placingAct_entryActs _ a ha)
  · cases ha

theorem ladderEvent_none {p : Nat} (d : Digest) (hp : 4 < p) : ladderEvent p d = none := by
  unfold ladderEvent
  rw [if_neg (by omega), if_neg (by omega), if_neg (by omega), if_neg (by omega)]

/-- **The range recorded by a load**: that of the hash, with a counter of at most four. -/
theorem LoadMeasures.measuredFor_iff (hm : LoadMeasures hw n p h start as) (hp : 1 ≤ p) :
    MeasuredFor hw (.partition n) as address ↔ p ≤ 4 ∧ start ≤ address ∧
      address < start + (h.unEncryptedDataWordLength <<< 2).toNat := by
  obtain ⟨pre, post, input, d, rfl, ha, hl, hd⟩ := hm
  have hpre : ∀ a ∈ pre, ¬ a.IsFor (.partition n) := fun a hmem =>
    (ha a (List.mem_append_left _ hmem)).not_isFor
  have hpost : ∀ a ∈ post, ¬ a.IsFor (.partition n) := fun a hmem =>
    (ha a (List.mem_append_right _ hmem)).not_isFor
  rw [measuredFor_append_left hpost, measuredFor_append_right hpre, ← hl]
  constructor
  · rintro ⟨start', input', e, hhash, hrec, -, h1, h2⟩
    unfold recordActs at hhash hrec
    by_cases hp4 : p ≤ 4
    · obtain ⟨e', he'⟩ := ladderEvent_isSome d hp hp4
      simp only [he', List.mem_cons, Act.hashed.injEq, true_and, List.not_mem_nil, or_false,
        reduceCtorEq] at hhash
      obtain ⟨rfl, rfl⟩ := hhash
      exact ⟨hp4, h1, h2⟩
    · simp [ladderEvent_none d (Nat.lt_of_not_le hp4)] at hrec
  · rintro ⟨hp4, h1, h2⟩
    obtain ⟨e, he⟩ := ladderEvent_isSome d hp hp4
    refine ⟨start, input, e, List.mem_cons_self, ?_, ?_, h1, h2⟩
    · simp [recordActs, he]
    · rwa [ladderEvent_digest he]

/-- The counter behind a load that measures. -/
theorem LoadMeasures.counter (hm : LoadMeasures hw n p h start as) (hp : 1 ≤ p) (w : World) :
    (w.replay as).partition = w.partition + if p ≤ 4 then 1 else 0 := by
  obtain ⟨pre, post, input, d, rfl, ha, -, -⟩ := hm
  have hrecord (v : World) : (v.replay (.hashed (.partition n) start input :: recordActs n p d)).partition
      = v.partition + if p ≤ 4 then 1 else 0 := by
    by_cases hp4 : p ≤ 4
    · obtain ⟨e, he⟩ := ladderEvent_isSome d hp hp4
      rw [recordActs, he, if_pos hp4]
      rfl
    · rw [recordActs, ladderEvent_none d (Nat.lt_of_not_le hp4), if_neg hp4]
      rfl
  rw [World.replay_append, World.replay_append,
    replay_unmeasured _ fun a hmem => ha a (List.mem_append_right _ hmem), hrecord,
    replay_unmeasured _ fun a hmem => ha a (List.mem_append_left _ hmem)]

theorem CopyActs.unmeasured {inst : XFsblPs} (hc : CopyActs n h inst as) :
    ∀ a ∈ as, a.Unmeasured := fun a ha => unmeasured_placing a (hc.placing a ha)

/-- **A load outside the PL measures its range.** -/
theorem PartitionLoaded.measures (hl : PartitionLoaded hw n h w w')
    (ho : ¬ NotOwned h w.inst.processorID w.inst.resetReason) (hpl : h.toPl = false) :
    ∃ as, Moves as w w' ∧
      LoadMeasures hw n w.partition h (placedStart h w.inst.processorID) as := by
  cases hl with
  | skipped hno => exact absurd hno ho
  | plKept _ _ hk => exact absurd hk.1 (by simp [hpl])
  | @loaded copy valid idle v la _ hacc hk hcopy hmc hla hva hi hmv =>
    have hcopy' : ∀ a ∈ .headerChecked n true :: copy, a.Unmeasured :=
      List.forall_mem_cons.2 ⟨trivial, hcopy.unmeasured⟩
    have hidle : ∀ a ∈ idle, a.Unmeasured := fun a ha => unmeasured_idle a (hi a ha)
    have hpart : v.partition = w.partition := by
      rw [hmc.partition, replay_unmeasured w hcopy']
    have hstart : la.toNat = placedStart h w.inst.processorID := by
      rw [hmc.processorID] at hla
      rw [getLoadAddress_ok hla, placedStart]
      simp [plLoadAddress, hpl]
    refine ⟨_, hmc.trans hmv, ?_⟩
    rw [← hpart, ← hstart]
    cases hva with
    | signedPl hpl' => simp [hpl] at hpl'
    | plainPl _ hpl' => simp [hpl] at hpl'
    | encryptedPl _ hpl' => simp [hpl] at hpl'
    | plain _ _ hma =>
      rw [← List.append_assoc]
      exact hma.loadMeasures.append (forall_mem_append hcopy' hidle)
    | @decrypted as data _ _ hma =>
      have hplaced : ∀ a ∈ .headerChecked n true :: copy ++
          [.placed n la.toNat (h.unEncryptedDataWordLength * 4).toNat data], a.Unmeasured :=
        forall_mem_append hcopy' (by simp [Act.Unmeasured])
      have hall := hma.loadMeasures.append (forall_mem_append hplaced hidle)
      simpa using hall

/-- Any other load measures no partition. -/
theorem PartitionLoaded.unmeasured (hl : PartitionLoaded hw n h w w')
    (hno : ¬ ((¬ NotOwned h w.inst.processorID w.inst.resetReason ∧
      ¬ PlKept h w.inst.resetReason) ∧ h.toPl = false)) :
    ∃ as, Moves as w w' ∧ ∀ a ∈ as, a.Unmeasured := by
  have checked {as : List Act} (ha : ∀ a ∈ as, a.Unmeasured) :
      ∀ a ∈ .headerChecked n true :: as, a.Unmeasured := List.forall_mem_cons.2 ⟨trivial, ha⟩
  cases hl with
  | skipped _ hm => exact ⟨_, hm, checked nofun⟩
  | plKept _ _ _ hcopy hi hm =>
    exact ⟨_, hm, forall_mem_append (checked hcopy.unmeasured)
      fun a ha => unmeasured_idle a (hi a ha)⟩
  | @loaded copy valid idle v la howner hacc hk hcopy hmc hla hva hi hmv =>
    have howned : ¬ NotOwned h w.inst.processorID w.inst.resetReason := by
      rintro (hne | hne)
      · exact hne howner
      · exact hacc.owned hne
    have hpl : h.toPl = true := by
      by_contra hpl
      exact hno ⟨⟨howned, hk⟩, by simpa using hpl⟩
    refine ⟨_, hmc.trans hmv, forall_mem_append (checked hcopy.unmeasured) ?_⟩
    refine forall_mem_append ?_ fun a ha => unmeasured_idle a (hi a ha)
    cases hva with
    | signedPl => nofun
    | plainPl => exact List.forall_mem_cons.2 ⟨trivial, unmeasured_bitstreamActs⟩
    | encryptedPl => exact unmeasured_bitstreamActs
    | plain hpl' => simp [hpl] at hpl'
    | decrypted _ hpl' => simp [hpl] at hpl'

end Load

/-! ## All loads -/

theorem measuredPartitions_succ (inst : XFsblPs) (n : Nat) :
    measuredPartitions inst (n + 1) =
      measuredPartitions inst n ++ if MeasuresLoad inst (n + 1) then [n + 1] else [] := by
  have hr : List.range' 1 (n + 1) = List.range' 1 n ++ [n + 1] := by
    rw [List.range'_concat, Nat.one_mul, Nat.add_comm 1 n]
  rw [measuredPartitions, hr, List.filter_append, ← measuredPartitions]
  by_cases h : MeasuresLoad inst (n + 1)
  · simp [h]
  · simp [h]

theorem measuresLoad_of_fixed {i j : XFsblPs} (h : i.fixed = j.fixed) (n : Nat) :
    MeasuresLoad i n ↔ MeasuresLoad j n := by
  unfold MeasuresLoad
  rw [reallyLoaded_of_fixed h, imageHeader_of_fixed h]

theorem measuredPartitions_of_fixed {i j : XFsblPs} (h : i.fixed = j.fixed) (n : Nat) :
    measuredPartitions i n = measuredPartitions j n := by
  simp only [measuredPartitions, measuresLoad_of_fixed h]

/-- What the loads of the partitions 1 to `n` measured: the counter stops at five. -/
structure LoadsMeasured (hw : Hw) (w w' : World) (n : Nat) (as : List Act) : Prop where
  does : Does as w w'
  counter : w'.partition = 1 + min (measuredPartitions w.inst n).length 4
  only : ∀ k, n < k → ∀ a ∈ as, ¬ a.IsFor (.partition k)
  measured : ∀ k < n, (measuredPartitions w.inst k).length < 4 → ∀ address,
    (MeasuredFor hw (.partition (k + 1)) as address ↔ MeasuresLoad w.inst (k + 1) ∧
      (w.inst.imageHeader.header (k + 1)).MeasuredRange w.inst.processorID address)

section Loads

variable {hw : Hw} {P : Nat → World → Prop} {n address : Nat} {w w' v v' : World}

/-- What one more load measures, with the marks around it. -/
theorem load_measured (hld : v.inst.fixed = w.inst.fixed)
    (hp : v.partition = 1 + min (measuredPartitions w.inst n).length 4)
    (hl : partitionLoad hw (n + 1) (v.apply (.loadCalled (n + 1))) = .ok () v') :
    ∃ as, Moves as (v.apply (.loadCalled (n + 1))) v' ∧
      v'.partition = 1 + min (measuredPartitions w.inst (n + 1)).length 4 ∧
      ((measuredPartitions w.inst n).length < 4 → ∀ address,
        (MeasuredFor hw (.partition (n + 1)) as address ↔ MeasuresLoad w.inst (n + 1) ∧
          (w.inst.imageHeader.header (n + 1)).MeasuredRange w.inst.processorID address)) := by
  obtain ⟨hn, -, hload⟩ := partitionLoad_ok hl
  have hnum : v.inst.imageHeader.partitionHeader[n + 1] = w.inst.imageHeader.header (n + 1) := by
    rw [← header_eq hn, imageHeader_of_fixed hld]
  have hcpu : v.inst.processorID = w.inst.processorID := processorID_of_fixed hld
  have hreset : v.inst.resetReason = w.inst.resetReason := resetReason_of_fixed hld
  have hload : PartitionLoaded hw (n + 1) (w.inst.imageHeader.header (n + 1))
      (v.apply (.loadCalled (n + 1))) v' := hnum ▸ hload
  have hcount : (v.apply (.loadCalled (n + 1))).partition =
      1 + min (measuredPartitions w.inst n).length 4 := hp
  by_cases hm : MeasuresLoad w.inst (n + 1)
  · obtain ⟨as, hmoves, hmeasures⟩ := hload.measures (by
      show ¬ NotOwned _ v.inst.processorID v.inst.resetReason
      rw [hcpu, hreset]
      exact hm.1.1) hm.2
    have hpos : 1 ≤ (v.apply (.loadCalled (n + 1))).partition := by omega
    refine ⟨as, hmoves, ?_, fun hlt address => ?_⟩
    · rw [hmoves.partition, hmeasures.counter hpos, hcount, measuredPartitions_succ, if_pos hm,
        List.length_append, List.length_singleton]
      split <;> omega
    · rw [hmeasures.measuredFor_iff hpos]
      show _ ∧ placedStart _ v.inst.processorID ≤ address ∧
        address < placedStart _ v.inst.processorID + _ ↔ _
      rw [hcpu]
      exact and_congr_left fun _ => iff_of_true (by omega) hm
  · obtain ⟨as, hmoves, hnone⟩ := hload.unmeasured (by
      show ¬ ((¬ NotOwned _ v.inst.processorID v.inst.resetReason ∧
        ¬ PlKept _ v.inst.resetReason) ∧ _)
      rw [hcpu, hreset]
      exact hm)
    refine ⟨as, hmoves, ?_, fun hlt address => ?_⟩
    · rw [hmoves.partition, replay_unmeasured _ hnone, hcount, measuredPartitions_succ, if_neg hm,
        List.append_nil]
    · refine iff_of_false (not_measuredFor fun a ha => (hnone a ha).not_isFor) fun h => hm h.1

/-- **What all loads measured.** -/
theorem loads_measured (h : Loaded hw P w n w') (hp : w.partition = 1) :
    ∃ as, LoadsMeasured hw w w' n as := by
  induction h with
  | none =>
    refine ⟨[], .refl w, by rw [hp]; rfl, fun _ _ _ => nofun, fun k hk => absurd hk (Nat.not_lt_zero k)⟩
  | @next n v v' mask hld _ hl ih =>
    obtain ⟨as, ih⟩ := ih
    obtain ⟨bs, hmoves, hcounter, hmeasured⟩ := load_measured hld.fixed ih.counter hl
    have honly : ∀ k, k ≠ n + 1 → ∀ b ∈ bs, ¬ b.IsFor (.partition k) := by
      obtain ⟨bs', hact, hm'⟩ := (frame_partitionLoad hw (n + 1)).ok hl
      intro k hk b hb hf
      rw [hmoves.toDoes.unique hm'.toDoes] at hb
      exact hk (loadAct_isFor (hact b hb) hf)
    let marks : List Act := [.loadReturned (n + 1) xfsblSuccess, .r5Used mask]
    have hmarks : ∀ k, ∀ a ∈ marks, ¬ a.IsFor (.partition k) := by
      intro k a ha
      simp only [marks, List.mem_cons, List.not_mem_nil, or_false] at ha
      rcases ha with rfl | rfl <;> exact id
    have hcalled : ∀ k, ∀ a ∈ [Act.loadCalled (n + 1)], ¬ a.IsFor (.partition k) := by
      intro k a ha
      obtain rfl := List.mem_singleton.1 ha
      exact id
    have hnone : ∀ k, k ≠ n + 1 → ∀ b ∈ [.loadCalled (n + 1)] ++ (bs ++ marks),
        ¬ b.IsFor (.partition k) := fun k hk =>
      forall_mem_append (hcalled k) (forall_mem_append (honly k hk) (hmarks k))
    refine ⟨as ++ ([.loadCalled (n + 1)] ++ (bs ++ marks)), ?_, hcounter, ?_, fun k hk hlt address => ?_⟩
    · exact ih.does.trans ((Does.act v _).trans
        (hmoves.toDoes.trans ((Does.act v' _).trans (.act _ _))))
    · exact fun k hk => forall_mem_append (ih.only k (by omega)) (hnone k (by omega))
    · rcases Nat.lt_or_eq_of_le (Nat.le_of_lt_succ hk) with hk | rfl
      · rw [measuredFor_append_left (hnone _ (by omega))]
        exact ih.measured k hk hlt address
      · rw [measuredFor_append_right (ih.only _ (Nat.lt_succ_self _)),
          measuredFor_append_right (hcalled _), measuredFor_append_left (hmarks _)]
        exact hmeasured hlt address

end Loads

/-! ## Runs -/

section Run

variable {hw : Hw} {s₀ s : MainState} {w v : World} {inst : XFsblPs} {n : Nat}

theorem unmeasured_initAct (a : Act) (h : InitAct hw a) : a.Unmeasured := by
  cases a with
  | recorded s =>
    cases s with
    | partition => exact h.elim
    | _ => trivial
  | hashed => exact h.elim
  | counted => exact h.elim
  | _ => trivial

theorem unmeasured_bootAct (a : Act) (h : BootAct a) : a.Unmeasured := by
  cases a with
  | recorded s =>
    cases s with
    | partition => exact h.elim
    | _ => trivial
  | hashed s =>
    cases s with
    | partition => exact h.elim
    | _ => trivial
  | counted => exact h.elim
  | _ => trivial

/-- What is there before the first load: no measurement of a partition, and an empty table. -/
structure Unloaded (as : List Act) (w : World) : Prop where
  trace : w.trace = as
  unmeasured : ∀ a ∈ as, a.Unmeasured
  partition : w.partition = 1
  table : w.inst.handoffValues = []
  cpu : w.inst.processorID ∈ fsblCpus

/-- Stages 1 and 2 load nothing. -/
theorem unloaded_boot (h₀ : s₀.world.Initial) (hi : fsblInitialize hw s₀.world = .ok () w)
    (hb : bootDeviceInitAndValidate hw w = .ok () v) :
    ∃ as, Unloaded as (v.apply .r5UsageCleared) := by
  obtain ⟨⟨ini, hini, hdi⟩, -⟩ := (frame_fsblInitialize hw).ok hi
  obtain ⟨⟨bs, hbs, hdb⟩, hreset⟩ :=
    (frame_bootDeviceInitAndValidate (f := XFsblPs.reset) hw fun _ _ => rfl).ok hb
  have hdoes : Does (ini ++ bs ++ [.r5UsageCleared]) s₀.world (v.apply .r5UsageCleared) :=
    (hdi.trans hdb).trans (.act v _)
  have hun : ∀ a ∈ ini ++ bs ++ [.r5UsageCleared], a.Unmeasured := by
    refine forall_mem_append (forall_mem_append (fun a ha => ?_) fun a ha => ?_) fun a ha => ?_
    · exact unmeasured_initAct a (hini a ha)
    · exact unmeasured_bootAct a (hbs a ha)
    · obtain rfl := List.mem_singleton.1 ha
      trivial
  have hnone : ∀ a ∈ ini ++ bs ++ [.r5UsageCleared], Act.NoEntry a := by
    rintro a ha m u rfl
    rcases List.mem_append.1 ha with ha | ha
    · rcases List.mem_append.1 ha with ha | ha
      · exact hini _ ha
      · exact hbs _ ha
    · simp at ha
  refine ⟨_, ⟨?_, hun, ?_, ?_, ?_⟩⟩
  · rw [hdoes.trace, h₀.trace, List.nil_append]
  · rw [hdoes.partition, replay_unmeasured _ hun, h₀.partition]
  · exact (hdoes.sameTable hnone).trans (by rw [h₀.inst]; rfl)
  · have hcpu : v.inst.processorID = w.inst.processorID := congrArg Prod.fst hreset
    show v.inst.processorID ∈ fsblCpus
    rw [hcpu]
    exact fsblInitialize_cpu hi

/-- A partition with an entry and a range is measured. -/
theorem Supplies.measuresLoad {address : Nat} (h : Supplies inst n)
    (hr : (inst.imageHeader.header n).MeasuredRange inst.processorID address) :
    MeasuresLoad inst n := by
  -- a range with an address is not of length zero
  have hlen : (inst.imageHeader.header n).unEncryptedDataWordLength ≠ 0 := by
    intro hz
    have hrange := hr.2
    rw [hz, show ((0 : UInt32) <<< 2).toNat = 0 from rfl] at hrange
    exact absurd hr.1 (by omega)
  have hpl := (h.2.resolve_left hlen).1
  refine ⟨⟨h.1, fun hk => ?_⟩, hpl⟩
  exact absurd hk.1 (by simp [hpl])

/-- The entry is that of a loaded partition `n`, and its address is the execution address of the
header. With fewer than four partitions measured before it, an event was recorded for it with the
digest of a range that has the address if and only if the range at its load address has it. -/
def EntryMeasured (hw : Hw) (s : MainState) (v : HandoffValue) : Prop :=
  let inst := s.world.inst
  let address := (globalAddress v.cpu v.handoffAddress).toNat
  ∃ n, 1 ≤ n ∧ n ≤ s.locals.partitionNum ∧ Supplies inst n ∧
    v = (inst.imageHeader.header n).entry inst.processorID ∧
    ((measuredPartitions inst (n - 1)).length < 4 →
      (MeasuredFor hw (.partition n) s.world.trace address ↔
        (inst.imageHeader.header n).MeasuredRange inst.processorID address))

/-- **What is executed against what was measured**, for each entry at handoff. -/
theorem executed_measured (h : (boot hw).Reachable s) (hs : s.locals.fsblStage = .stage4)
    {v : HandoffValue} (hv : v ∈ s.world.inst.handoffValues) : EntryMeasured hw s v := by
  obtain ⟨s₀, h₀, hrun⟩ := h
  cases run_history h₀ hrun with
  | @loaded w u n _ hn hi hb _ hl =>
    obtain ⟨pre, hpre⟩ := unloaded_boot h₀.2 hi hb
    obtain ⟨as, hall⟩ := loads_measured hl hpre.partition
    have htable : TableAt s.world.inst n := hl.tableAt hpre.cpu hpre.table
    obtain ⟨k, h1, hk, hsup, rfl⟩ := htable.source hv
    refine ⟨k, h1, hn ▸ hk, hsup, rfl, fun hlt => ?_⟩
    have hfix : (u.apply .r5UsageCleared).inst.fixed = s.world.inst.fixed := hl.fixed.symm
    obtain ⟨j, rfl⟩ : ∃ j, k = j + 1 := ⟨k - 1, by omega⟩
    have hmeasured := hall.measured j hk (by rwa [measuredPartitions_of_fixed hfix])
    simp only [measuresLoad_of_fixed hfix, imageHeader_of_fixed hfix, processorID_of_fixed hfix]
      at hmeasured
    rw [hall.does.trace, hpre.trace,
      measuredFor_append_right fun a ha => (hpre.unmeasured a ha).not_isFor, hmeasured]
    exact and_iff_right_of_imp hsup.measuresLoad
  | @jtag w u mask _ _ hi hb hw' =>
    have hnil : u.inst.handoffValues = [] := by
      rw [(bootDevice_jtag hb).handoffValues]
      have hnone : SameTable s₀.world w := (frame_fsblInitialize hw).ok hi |>.1.sameTable <| by
        rintro a ha m x rfl
        exact ha
      exact hnone.trans (by rw [h₀.2.inst]; rfl)
    have hmem : v ∈ u.inst.handoffValues := by
      rw [hw'] at hv
      exact hv
    rw [hnil] at hmem
    exact absurd hmem List.not_mem_nil
  | failed ho => simp [MainState.Over, hs] at ho
  | _ hs' => simp [hs] at hs'

/-- The entry of one partition, which executes what was measured. -/
theorem executed_measured_plainBoard :
    (plainBoard.after 3).world.inst.handoffValues.length = 1 ∧
      ∀ v ∈ (plainBoard.after 3).world.inst.handoffValues,
        EntryMeasured plainBoard.hw (plainBoard.after 3) v := by
  have hr : (boot plainBoard.hw).Reachable (plainBoard.after 3) :=
    ⟨_, init_powerOn _, plainBoard.run 0 3 (by decide +kernel)⟩
  have hs : (plainBoard.after 3).locals.fsblStage = .stage4 ∧
      (plainBoard.after 3).world.inst.handoffValues.length = 1 := by decide +kernel
  exact ⟨hs.2, fun v hv => executed_measured hr hs.1 hv⟩

/-- A partition that executes in place, from the memory of the flash. -/
def xipBoard : Board := qspiBoard [{ enc := 0, unEnc := 0, total := 0, exec := 0xC0000000 }]

/-- What was hashed leaves an address out. -/
def Act.leavesOut (address : Nat) : Act → Bool
  | .hashed _ start input => !(start ≤ address && address < start + input.length)
  | _ => true

/-- What executes in place was not measured. -/
theorem not_executed_measured :
    ¬ ∀ (hw : Hw) (s : MainState), (boot hw).Reachable s → s.locals.fsblStage = .stage4 →
      ∀ v ∈ s.world.inst.handoffValues, ∃ subject,
        MeasuredFor hw subject s.world.trace (globalAddress v.cpu v.handoffAddress).toNat := by
  intro h
  have hr : (boot xipBoard.hw).Reachable (xipBoard.after 3) :=
    ⟨_, init_powerOn _, xipBoard.run 0 3 (by decide +kernel)⟩
  have hs : (xipBoard.after 3).locals.fsblStage = .stage4 ∧
      (⟨xihPhAttrbDestCpuA53_0, 0xC0000000⟩ : HandoffValue) ∈
        (xipBoard.after 3).world.inst.handoffValues := by decide +kernel
  have hout : ((xipBoard.after 3).world.trace.all (Act.leavesOut 0xC0000000)) = true := by
    decide +kernel
  obtain ⟨subject, start, input, e, hhash, -, -, h1, h2⟩ := h _ _ hr hs.1 _ hs.2
  have hin := List.all_eq_true.1 hout _ hhash
  have haddress : (globalAddress (⟨xihPhAttrbDestCpuA53_0, 0xC0000000⟩ : HandoffValue).cpu
      0xC0000000).toNat = 0xC0000000 := by decide +kernel
  rw [haddress] at h1 h2
  simp [Act.leavesOut, h1, h2] at hin

end Run

end MeasuredBoot
