import MeasuredBoot.Boards
import MeasuredBoot.Lib.Traces

/-!
# When the PMU is woken (`XFsbl_CheckPmuFw`)

The wake-up at the end of a load looks at the header behind the partition, whoever owns that
partition, and is not reached by a load that is skipped. `LoadTrace i n as` are the acts of the
loads 1 to `n`, each with its wake-up at its end, and `pmu_woken_iff` says for which headers
that is one wake-up behind all of the PMU firmware.
-/

namespace MeasuredBoot

open Prog TransSys

/-! ## The test on the headers -/

/-- `XFsbl_CheckPmuFw` takes partition `n` for the last of the PMU firmware. -/
def PmuFwLoadDone (i : ImageHeader) (n : Nat) : Prop :=
  (i.header n).getDestinationCpu = xihPhAttrbDestCpuPmu ∧
    ¬ (n + 1 ≤ (i.imageHeaderTable.noOfPartitions - 1).toNat ∧
      (i.header (n + 1)).getDestinationCpu = xihPhAttrbDestCpuPmu)

instance (i : ImageHeader) (n : Nat) : Decidable (PmuFwLoadDone i n) :=
  inferInstanceAs (Decidable (_ ∧ _))

/-- The load of partition `n` wakes the PMU. -/
def Wakes (inst : XFsblPs) (n : Nat) : Prop :=
  ¬ NotOwned (inst.imageHeader.header n) inst.processorID inst.resetReason ∧
    PmuFwLoadDone inst.imageHeader n

instance (inst : XFsblPs) (n : Nat) : Decidable (Wakes inst n) :=
  inferInstanceAs (Decidable (_ ∧ _))

/-- Partition `n` is for the PMU and loaded by the FSBL. -/
def LoadsPmu (inst : XFsblPs) (n : Nat) : Prop :=
  ¬ NotOwned (inst.imageHeader.header n) inst.processorID inst.resetReason ∧
    (inst.imageHeader.header n).getDestinationCpu = xihPhAttrbDestCpuPmu

instance (inst : XFsblPs) (n : Nat) : Decidable (LoadsPmu inst n) :=
  inferInstanceAs (Decidable (_ ∧ _))

/-- The PMU partitions loaded among the first `n`. -/
def pmuPartitions (inst : XFsblPs) (n : Nat) : List Nat :=
  (List.range' 1 n).filter fun k => LoadsPmu inst k

theorem mem_pmuPartitions {inst : XFsblPs} {n k : Nat} :
    k ∈ pmuPartitions inst n ↔ 1 ≤ k ∧ k ≤ n ∧ LoadsPmu inst k := by
  simp only [pmuPartitions, List.mem_filter, List.mem_range'_1, decide_eq_true_eq]
  constructor
  · rintro ⟨h, hl⟩
    exact ⟨h.1, by omega, hl⟩
  · rintro ⟨h1, h2, hl⟩
    exact ⟨⟨h1, by omega⟩, hl⟩

theorem Wakes.loadsPmu {inst : XFsblPs} {n : Nat} (h : Wakes inst n) : LoadsPmu inst n :=
  ⟨h.1, h.2.1⟩

theorem wakes_of_fixed {i j : XFsblPs} (h : i.fixed = j.fixed) (n : Nat) : Wakes i n ↔ Wakes j n := by
  unfold Wakes
  rw [imageHeader_of_fixed h, processorID_of_fixed h, resetReason_of_fixed h]

theorem loadsPmu_of_fixed {i j : XFsblPs} (h : i.fixed = j.fixed) (n : Nat) :
    LoadsPmu i n ↔ LoadsPmu j n := by
  unfold LoadsPmu
  rw [imageHeader_of_fixed h, processorID_of_fixed h, resetReason_of_fixed h]

/-! ## One load -/

/-- An act for partition `k`, of its load. -/
def Act.OfLoad (k : Nat) : Act → Prop
  | .headerChecked m _ => m = k
  | .handoffEntry m _ => m = k
  | .placed m _ _ _ => m = k
  | .hashed (.partition m) _ _ => m = k
  | .hashed (.bitstream m) _ _ => m = k
  | .recorded (.partition m) _ => m = k
  | .recorded (.bitstream m) _ => m = k
  | _ => False

theorem BodyAct.ofLoad {n k : Nat} {a : Act} (h : BodyAct n a) (hk : a.OfLoad k) : k = n := by
  cases a with
  | headerChecked m ok => exact hk.symm.trans h.1
  | handoffEntry m v => exact hk.symm.trans h.1
  | placed m start len data => exact hk.symm.trans h.1
  | hashed s start input =>
    cases s with
    | partition m => exact hk.symm.trans h.1
    | bitstream m => exact hk.symm.trans h.1
    | _ => exact hk.elim
  | recorded s e =>
    cases s with
    | partition m => exact hk.symm.trans h.1.1
    | bitstream m => exact hk.symm.trans h.1.1
    | _ => exact hk.elim
  | _ => exact hk.elim

theorem BodyAct.ne_pmuWoken {n : Nat} {a : Act} (h : BodyAct n a) : a ≠ .pmuWoken := by
  rintro rfl
  exact h.2

/-- What the list of acts shows of partition `k`: its header passed the checksum, and its data were
measured, which ends the validation, unless they are for the PL. -/
def Validated (i : ImageHeader) (k : Nat) (as : List Act) : Prop :=
  .headerChecked k true ∈ as ∧
    ((i.header k).toPl = false → ∃ start input, .hashed (.partition k) start input ∈ as)

/-- The wake-up at the end of a load. -/
def wakeActs (inst : XFsblPs) (n : Nat) : List Act :=
  if Wakes inst n then [.pmuWoken] else []

section Load

variable {hw : Hw} {n : Nat} {w w' : World} {u : Unit}

theorem pmuFwLoadDone_ok {done : Bool} (h : pmuFwLoadDone n w = .ok done w') :
    Ticks w w' ∧ (done = true ↔ PmuFwLoadDone w.inst.imageHeader n) := by
  refine ⟨(frame_pmuFwLoadDone (R := Ticks) n).ok h, ?_⟩
  obtain ⟨ph, t, h1, h⟩ := bind_ok.1 h
  obtain ⟨⟨hn, rfl⟩, rfl⟩ := header_ok.1 h1
  rw [← header_eq hn] at h
  unfold PmuFwLoadDone
  split at h
  · rename_i hcpu
    obtain ⟨v, t, h2, h⟩ := bind_ok.1 h
    obtain ⟨rfl, rfl⟩ := get_ok.1 h2
    split at h
    · rename_i hlast
      obtain ⟨next, t, h3, h⟩ := bind_ok.1 h
      obtain ⟨⟨hn', rfl⟩, rfl⟩ := header_ok.1 h3
      obtain ⟨rfl, -⟩ := pure_ok.1 h
      simp [hcpu, hlast, header_eq hn']
    · rename_i hlast
      obtain ⟨rfl, -⟩ := pure_ok.1 h
      simp [hcpu, hlast]
  · rename_i hcpu
    obtain ⟨rfl, -⟩ := pure_ok.1 h
    simp [hcpu]

theorem checkPmuFw_acts (h : checkPmuFw hw n w = .ok u w') :
    Moves (if PmuFwLoadDone w.inst.imageHeader n then [.pmuWoken] else []) w w' := by
  obtain ⟨done, t, h1, h⟩ := bind_ok.1 h
  obtain ⟨ht, hdone⟩ := pmuFwLoadDone_ok h1
  rcases when_ok.1 h with ⟨hd, h⟩ | ⟨hd, rfl⟩
  · rw [if_pos (hdone.1 hd)]
    obtain ⟨_, v, h2, h⟩ := bind_ok.1 h
    have hv := ((frame_wait (R := Ticks) hw _).ok h).moves
    rw [← act_ok.1 h2] at hv
    exact (ht.moves.trans (.act t _)).trans hv
  · rw [if_neg fun hp => hd (hdone.2 hp)]
    exact ht.moves

theorem Accepted.not_notOwned {h : PartitionHeader} {cpu reset : UInt32}
    (ho : h.getPartitionOwner = xihPhAttrbPartOwnerFsbl) (ha : Accepted h cpu reset) :
    ¬ NotOwned h cpu reset := by
  rintro (hn | hn)
  · exact hn ho
  · exact ha.owned hn

/-- A measured list of acts hashes its partition. -/
theorem MeasuredActs.hashes {h : PartitionHeader} {m : Mem} {loadAddress : UInt64} {as : List Act}
    (hm : MeasuredActs hw n h w m loadAddress as) :
    ∃ start input, .hashed (.partition n) start input ∈ as := by
  obtain ⟨-, -, -, -⟩ := hm
  exact ⟨_, _, List.mem_append_right _ List.mem_cons_self⟩

theorem ValidActs.hashes {h : PartitionHeader} {loadAddress : UInt64} {as : List Act}
    (hv : ValidActs hw n h w loadAddress as) (hpl : h.toPl = false) :
    ∃ start input, .hashed (.partition n) start input ∈ as := by
  cases hv with
  | plain _ _ hm => exact hm.hashes
  | decrypted data _ _ hm =>
    obtain ⟨start, input, hmem⟩ := hm.hashes
    exact ⟨start, input, List.mem_cons_of_mem _ hmem⟩
  | signedPl hp => rw [hp] at hpl; cases hpl
  | plainPl _ hp => rw [hp] at hpl; cases hpl
  | encryptedPl _ hp => rw [hp] at hpl; cases hpl

/-- A load that was not skipped shows its partition validated. -/
theorem PartitionLoaded.validated {h : PartitionHeader} (hl : PartitionLoaded hw n h w w')
    (ho : ¬ NotOwned h w.inst.processorID w.inst.resetReason) :
    ∃ as, Does as w w' ∧ .headerChecked n true ∈ as ∧
      (h.toPl = false → ∃ start input, .hashed (.partition n) start input ∈ as) := by
  cases hl with
  | skipped hn => exact absurd hn ho
  | plKept _ _ hk _ _ hm =>
    exact ⟨_, hm.toDoes, List.mem_append_left _ List.mem_cons_self,
      fun hpl => absurd hk.1 (by simp [hpl])⟩
  | loaded _ _ _ _ hv _ hvalid _ hm =>
    refine ⟨_, hv.toDoes.trans hm.toDoes, List.mem_append_left _ List.mem_cons_self, fun hpl => ?_⟩
    obtain ⟨start, input, hmem⟩ := hvalid.hashes hpl
    exact ⟨start, input, List.mem_append_right _ (List.mem_append_left _ hmem)⟩

/-- **The acts of a successful load**: those of its body, and the wake-up behind them. -/
theorem partitionLoad_wakes (h : partitionLoad hw n w = .ok u w') :
    ∃ body, (∀ a ∈ body, BodyAct n a) ∧ Moves (body ++ wakeActs w.inst n) w w' ∧
      (LoadsPmu w.inst n → Validated w.inst.imageHeader n body) := by
  obtain ⟨hn, -, hloaded⟩ := partitionLoad_ok h
  obtain ⟨owned, v, h1, h⟩ := bind_ok.1 h
  obtain ⟨_, -, -, howned⟩ := partitionHeaderValidation_ok h1
  obtain ⟨as, has, hm⟩ := (frame_partitionHeaderValidation (R := Loads (BodyAct n)) hw n).ok h1
  rw [← header_eq hn] at hloaded howned
  rcases when_ok.1 h with ⟨rfl, h⟩ | ⟨ho, rfl⟩
  · have hno := Accepted.not_notOwned howned.1 howned.2
    obtain ⟨_, v₁, h2, h⟩ := bind_ok.1 h
    obtain ⟨bs, hbs, hm₁⟩ := (frame_partitionCopy hw n).ok h2
    obtain ⟨_, v₂, h3, h⟩ := bind_ok.1 h
    obtain ⟨cs, hcs, hm₂⟩ := (frame_partitionValidation hw n).ok h3
    have hbody := (hm.trans hm₁).trans hm₂
    have hwake := checkPmuFw_acts h
    rw [hbody.imageHeader] at hwake
    have hiff : Wakes w.inst n ↔ PmuFwLoadDone w.inst.imageHeader n := and_iff_right hno
    have hall := hbody.trans hwake
    simp only [← hiff] at hall
    refine ⟨as ++ bs ++ cs, ?_, hall, fun hp => ?_⟩
    · exact forall_mem_append
        (forall_mem_append has fun a ha => bodyAct_of_bodyPlaceAct a (hbs a ha)) hcs
    · obtain ⟨ds, hds, hc, hh⟩ := hloaded.validated hno
      rw [Does.unique hds hall.toDoes] at hc hh
      have body {a : Act} (ha : a ≠ .pmuWoken)
          (hmem : a ∈ as ++ bs ++ cs ++ if Wakes w.inst n then [.pmuWoken] else []) :
          a ∈ as ++ bs ++ cs := by
        rcases List.mem_append.1 hmem with hmem | hmem
        · exact hmem
        · split at hmem
          · exact absurd (List.mem_singleton.1 hmem) ha
          · cases hmem
      refine ⟨body nofun hc, fun hpl => ?_⟩
      obtain ⟨start, input, hmem⟩ := hh hpl
      exact ⟨start, input, body nofun hmem⟩
  · rw [if_neg ho] at howned
    have hskip : wakeActs w.inst n = [] := if_neg fun hwk => hwk.1 howned
    refine ⟨as, has, ?_, fun hp => absurd howned hp.1⟩
    rw [hskip, List.append_nil]
    exact hm

end Load

/-! ## Loads in a row -/

/-- The acts of the load of partition `n` in a run. -/
inductive LoadBlock (inst : XFsblPs) (n : Nat) : List Act → Prop where
  | mk {body : List Act} (mask : UInt32) : (∀ a ∈ body, BodyAct n a) →
      (LoadsPmu inst n → Validated inst.imageHeader n body) →
      LoadBlock inst n (.loadCalled n :: body ++ wakeActs inst n ++
        [.loadReturned n xfsblSuccess, .r5Used mask])

/-- The acts of the loads 1 to `n`. -/
inductive LoadTrace (inst : XFsblPs) : Nat → List Act → Prop where
  | none : LoadTrace inst 0 []
  | next {n : Nat} {as block : List Act} : LoadTrace inst n as → LoadBlock inst (n + 1) block →
      LoadTrace inst (n + 1) (as ++ block)

theorem LoadBlock.of_fixed {i j : XFsblPs} {n : Nat} {as : List Act} (h : i.fixed = j.fixed)
    (hb : LoadBlock i n as) : LoadBlock j n as := by
  obtain ⟨mask, hbody, hv⟩ := hb
  have hw : wakeActs i n = wakeActs j n := by simp only [wakeActs, wakes_of_fixed h]
  rw [hw]
  rw [loadsPmu_of_fixed h, imageHeader_of_fixed h] at hv
  exact .mk mask hbody hv

theorem Loaded.loadTrace {hw : Hw} {P : Nat → World → Prop} {w w' : World} {n : Nat}
    (h : Loaded hw P w n w') : ∃ as, LoadTrace w.inst n as ∧ Does as w w' := by
  induction h with
  | none => exact ⟨[], .none, .refl w⟩
  | @next n v v' mask hl _ hload ih =>
    obtain ⟨as, hlt, hd⟩ := ih
    obtain ⟨body, hbody, hm, hv⟩ := partitionLoad_wakes hload
    have hfix : (v.apply (.loadCalled (n + 1))).inst.fixed = w.inst.fixed :=
      (World.fixed_apply _ _).trans hl.fixed
    have hblock := LoadBlock.of_fixed hfix (.mk mask hbody hv)
    refine ⟨_, .next hlt hblock, hd.trans ?_⟩
    have hall := (((Does.act v (.loadCalled (n + 1))).trans hm.toDoes).trans (.act v' (.loadReturned (n + 1) xfsblSuccess))).trans
      (.act _ (.r5Used mask))
    simpa using hall

section Blocks

variable {inst : XFsblPs} {n k : Nat} {as block : List Act}

theorem LoadBlock.ofLoad (h : LoadBlock inst n block) {a : Act} (ha : a ∈ block)
    (hk : a.OfLoad k) : k = n := by
  obtain ⟨mask, hbody, -⟩ := h
  simp only [List.cons_append, List.mem_cons, List.mem_append] at ha
  rcases ha with rfl | (ha | ha) | rfl | ha
  · exact hk.elim
  · exact (hbody a ha).ofLoad hk
  · unfold wakeActs at ha
    split at ha
    · rw [List.mem_singleton.1 ha] at hk
      exact hk.elim
    · cases ha
  · exact hk.elim
  · obtain rfl | ha := ha
    · exact hk.elim
    · cases ha

theorem LoadBlock.wakes (h : LoadBlock inst n block) (ha : .pmuWoken ∈ block) : Wakes inst n := by
  obtain ⟨mask, hbody, -⟩ := h
  simp only [List.cons_append, List.mem_cons, List.mem_append] at ha
  rcases ha with ha | (ha | ha) | ha | ha
  · cases ha
  · exact absurd rfl (hbody _ ha).ne_pmuWoken
  · unfold wakeActs at ha
    split at ha
    · assumption
    · cases ha
  · cases ha
  · simp at ha

theorem LoadBlock.validated (h : LoadBlock inst n block) (hp : LoadsPmu inst n) :
    Validated inst.imageHeader n block := by
  obtain ⟨mask, -, hv⟩ := h
  obtain ⟨hc, hh⟩ := hv hp
  have sub {a : Act} {body : List Act} (ha : a ∈ body) : a ∈ Act.loadCalled n :: body ++
      wakeActs inst n ++ [.loadReturned n xfsblSuccess, .r5Used mask] :=
    List.mem_append_left _ (List.mem_append_left _ (List.mem_cons_of_mem _ ha))
  refine ⟨sub hc, fun hpl => ?_⟩
  obtain ⟨start, input, hmem⟩ := hh hpl
  exact ⟨start, input, sub hmem⟩

/-- The block of a load that wakes the PMU: the wake-up is behind its body. -/
theorem LoadBlock.split (h : LoadBlock inst n block) (hwk : Wakes inst n) :
    ∃ pre post, block = pre ++ .pmuWoken :: post ∧ .pmuWoken ∉ pre ∧ .pmuWoken ∉ post ∧
      Validated inst.imageHeader n pre ∧ (∀ a ∈ pre, ∀ k, a.OfLoad k → k = n) ∧
      ∀ a ∈ post, ∀ k, ¬ a.OfLoad k := by
  cases h with | @mk body mask hbody hv
  obtain ⟨hc, hh⟩ := hv hwk.loadsPmu
  refine ⟨.loadCalled n :: body, [.loadReturned n xfsblSuccess, .r5Used mask], ?_, ?_, ?_, ⟨?_, ?_⟩,
    ?_, ?_⟩
  · simp only [wakeActs, if_pos hwk, List.append_assoc]
    rfl
  · intro ha
    rcases List.mem_cons.1 ha with ha | ha
    · cases ha
    · exact (hbody _ ha).ne_pmuWoken rfl
  · simp
  · exact List.mem_cons_of_mem _ hc
  · intro hpl
    obtain ⟨start, input, hmem⟩ := hh hpl
    exact ⟨start, input, List.mem_cons_of_mem _ hmem⟩
  · intro a ha k hk
    rcases List.mem_cons.1 ha with rfl | ha
    · exact hk.elim
    · exact (hbody a ha).ofLoad hk
  · intro a ha k hk
    simp only [List.mem_cons, List.not_mem_nil, or_false] at ha
    rcases ha with rfl | rfl <;> exact hk

theorem LoadTrace.ofLoad (h : LoadTrace inst n as) {a : Act} (ha : a ∈ as) (hk : a.OfLoad k) :
    1 ≤ k ∧ k ≤ n := by
  induction h with
  | none => cases ha
  | next _ hb ih =>
    rcases List.mem_append.1 ha with ha | ha
    · have := ih ha
      omega
    · have := hb.ofLoad ha hk
      omega

theorem LoadTrace.wakes (h : LoadTrace inst n as) (ha : .pmuWoken ∈ as) :
    ∃ k, 1 ≤ k ∧ k ≤ n ∧ Wakes inst k := by
  induction h with
  | none => cases ha
  | @next m _ _ _ hb ih =>
    rcases List.mem_append.1 ha with ha | ha
    · obtain ⟨k, h1, hk, hwk⟩ := ih ha
      exact ⟨k, h1, by omega, hwk⟩
    · exact ⟨m + 1, by omega, Nat.le_refl _, hb.wakes ha⟩

theorem Validated.mono {i : ImageHeader} {bs : List Act} (h : Validated i k as)
    (hs : ∀ a ∈ as, a ∈ bs) : Validated i k bs := by
  refine ⟨hs _ h.1, fun hpl => ?_⟩
  obtain ⟨start, input, hmem⟩ := h.2 hpl
  exact ⟨start, input, hs _ hmem⟩

theorem LoadTrace.validated (h : LoadTrace inst n as) (hk : k ∈ pmuPartitions inst n) :
    Validated inst.imageHeader k as := by
  rw [mem_pmuPartitions] at hk
  induction h with
  | none => omega
  | @next m _ _ _ hb ih =>
    by_cases hm : k = m + 1
    · subst hm
      exact (hb.validated hk.2.2).mono fun a => List.mem_append_right _
    · exact (ih ⟨hk.1, by omega, hk.2.2⟩).mono fun a => List.mem_append_left _

/-- The acts of the loads around the load of partition `k`. -/
theorem LoadTrace.split (h : LoadTrace inst n as) (h1 : 1 ≤ k) (hk : k ≤ n) :
    ∃ before block after, as = before ++ block ++ after ∧ LoadTrace inst (k - 1) before ∧
      LoadBlock inst k block ∧ (∀ a ∈ after, ∀ j, a.OfLoad j → k < j) ∧
      (.pmuWoken ∈ after → ∃ j, k < j ∧ j ≤ n ∧ Wakes inst j) := by
  induction h with
  | none => omega
  | @next m as block hl hb ih =>
    by_cases hm : k = m + 1
    · subst hm
      exact ⟨as, block, [], (List.append_nil _).symm, hl, hb, by simp, by simp⟩
    · obtain ⟨before, block', after, rfl, hbefore, hblock, hafter, hwake⟩ := ih (by omega)
      refine ⟨before, block', after ++ block, by simp only [List.append_assoc], hbefore, hblock,
        fun a ha j hj => ?_, fun ha => ?_⟩
      · rcases List.mem_append.1 ha with ha | ha
        · exact hafter a ha j hj
        · have := hb.ofLoad ha hj
          omega
      · rcases List.mem_append.1 ha with ha | ha
        · obtain ⟨j, hj, hjn, hwk⟩ := hwake ha
          exact ⟨j, hj, by omega, hwk⟩
        · exact ⟨m + 1, by omega, Nat.le_refl _, hb.wakes ha⟩

end Blocks

/-! ## One wake-up -/

/-- The PMU is woken once in the trace, behind what was done for the partitions `ps`: each was
validated before, and nothing is done for it behind. -/
def WokenOnceBehind (i : ImageHeader) (ps : List Nat) (as : List Act) : Prop :=
  ∃ pre post, as = pre ++ .pmuWoken :: post ∧ .pmuWoken ∉ pre ∧ .pmuWoken ∉ post ∧
    ∀ k ∈ ps, Validated i k pre ∧ ∀ a ∈ post, ¬ a.OfLoad k

section Wake

variable {inst : XFsblPs} {n k : Nat} {as pre : List Act}

/-- Behind a trace without loads: the wake-up of partition `k` is behind `k`, and before every later
partition. -/
theorem LoadTrace.wake_split (h : LoadTrace inst n as) (h1 : 1 ≤ k) (hk : k ≤ n)
    (hwk : Wakes inst k) :
    ∃ before after, as = before ++ .pmuWoken :: after ∧ Validated inst.imageHeader k before ∧
      (∀ j ∈ pmuPartitions inst n, j < k → Validated inst.imageHeader j before) ∧
      (∀ a ∈ before, ∀ j, a.OfLoad j → j ≤ k) ∧ (∀ a ∈ after, ∀ j, a.OfLoad j → k < j) ∧
      (.pmuWoken ∈ before → ∃ j, 1 ≤ j ∧ j < k ∧ Wakes inst j) ∧
      (.pmuWoken ∈ after → ∃ j, k < j ∧ j ≤ n ∧ Wakes inst j) := by
  obtain ⟨before, block, after, rfl, hbefore, hblock, hafter, hwake⟩ := h.split h1 hk
  obtain ⟨pre, post, rfl, hpre, hpost, hv, hof, hnone⟩ := hblock.split hwk
  refine ⟨before ++ pre, post ++ after, by simp, hv.mono fun a => List.mem_append_right _,
    fun j hj hlt => ?_, fun a ha j hj => ?_, fun a ha j hj => ?_, fun ha => ?_, fun ha => ?_⟩
  · rw [mem_pmuPartitions] at hj
    have hj' : j ∈ pmuPartitions inst (k - 1) := mem_pmuPartitions.2 ⟨hj.1, by omega, hj.2.2⟩
    exact (hbefore.validated hj').mono fun a => List.mem_append_left _
  · rcases List.mem_append.1 ha with ha | ha
    · have := hbefore.ofLoad ha hj
      omega
    · exact Nat.le_of_eq (hof a ha j hj)
  · rcases List.mem_append.1 ha with ha | ha
    · exact absurd hj (hnone a ha j)
    · exact hafter a ha j hj
  · rcases List.mem_append.1 ha with ha | ha
    · obtain ⟨j, hj1, hj, hwk⟩ := hbefore.wakes ha
      exact ⟨j, hj1, by omega, hwk⟩
    · exact absurd ha hpre
  · rcases List.mem_append.1 ha with ha | ha
    · exact absurd ha hpost
    · exact hwake ha

/-- One wake-up behind all PMU partitions: the last of them, and no other, ends a row. -/
theorem LoadTrace.wokenOnceBehind_iff (h : LoadTrace inst n as) (hp : pmuPartitions inst n ≠ [])
    (hpre : .pmuWoken ∉ pre) (hnone : ∀ a ∈ pre, ∀ k, ¬ a.OfLoad k) :
    WokenOnceBehind inst.imageHeader (pmuPartitions inst n) (pre ++ as) ↔
      ∀ k ∈ pmuPartitions inst n,
        (PmuFwLoadDone inst.imageHeader k ↔ ∀ j ∈ pmuPartitions inst n, j ≤ k) := by
  obtain ⟨m, hm, hmax⟩ : ∃ m ∈ pmuPartitions inst n, ∀ j ∈ pmuPartitions inst n, j ≤ m := by
    obtain ⟨m, hm⟩ := Option.ne_none_iff_exists'.1 (mt List.max?_eq_none_iff.1 hp)
    rw [List.max?_eq_some_iff] at hm
    exact ⟨m, hm⟩
  have bounds {k : Nat} (hk : k ∈ pmuPartitions inst n) := mem_pmuPartitions.1 hk
  constructor
  · rintro ⟨pre', post', has, hpre', hpost', hall⟩
    -- a partition that wakes the PMU is the last
    have last {k : Nat} (hk : k ∈ pmuPartitions inst n) (hwk : Wakes inst k) :
        ∀ j ∈ pmuPartitions inst n, j ≤ k := by
      obtain ⟨before, after, rfl, -, -, hbefore, -⟩ := h.wake_split (bounds hk).1 (bounds hk).2.1 hwk
      rw [← List.append_assoc] at has
      obtain ⟨rfl, -⟩ := Trace.split_once has.symm hpre' hpost'
      intro j hj
      rcases List.mem_append.1 (hall j hj).1.1 with ha | ha
      · exact absurd rfl (hnone _ ha j)
      · exact hbefore _ ha j rfl
    intro k hk
    refine ⟨fun hd => last hk ⟨(bounds hk).2.2.1, hd⟩, fun hlast => ?_⟩
    have hwoken : .pmuWoken ∈ as := by
      have : .pmuWoken ∈ pre ++ as := by rw [has]; simp
      exact (List.mem_append.1 this).resolve_left hpre
    obtain ⟨j, hj1, hj, hwk⟩ := h.wakes hwoken
    have hjm : j ∈ pmuPartitions inst n := mem_pmuPartitions.2 ⟨hj1, hj, hwk.loadsPmu⟩
    have : j = k := Nat.le_antisymm (hlast j hjm) (last hjm hwk k hk)
    exact this ▸ hwk.2
  · intro hall
    have hwk : Wakes inst m := ⟨(bounds hm).2.2.1, (hall m hm).2 hmax⟩
    -- nothing else wakes it
    have only {j : Nat} (h1 : 1 ≤ j) (hj : j ≤ n) (hwj : Wakes inst j) : j = m := by
      have hjm : j ∈ pmuPartitions inst n := mem_pmuPartitions.2 ⟨h1, hj, hwj.loadsPmu⟩
      exact Nat.le_antisymm (hmax j hjm) ((hall j hjm).1 hwj.2 m hm)
    obtain ⟨before, after, rfl, hv, hearlier, -, hafter, hb, ha⟩ :=
      h.wake_split (bounds hm).1 (bounds hm).2.1 hwk
    refine ⟨pre ++ before, after, by simp, fun hmem => ?_, fun hmem => ?_, fun k hk => ⟨?_, ?_⟩⟩
    · rcases List.mem_append.1 hmem with hmem | hmem
      · exact hpre hmem
      · obtain ⟨j, h1, hj, hwj⟩ := hb hmem
        have := only h1 (by have := (bounds hm).2.1; omega) hwj
        omega
    · obtain ⟨j, hj, hjn, hwj⟩ := ha hmem
      have := only (by omega) hjn hwj
      omega
    · rcases Nat.lt_or_eq_of_le (hmax k hk) with hlt | rfl
      · exact (hearlier k hk hlt).mono fun a => List.mem_append_right _
      · exact hv.mono fun a => List.mem_append_right _
    · intro a ha hk'
      have := hafter a ha k hk'
      have := hmax k hk
      omega

end Wake

/-! ## Runs -/

theorem initAct_quiet {hw : Hw} (a : Act) (h : InitAct hw a) :
    a ≠ .pmuWoken ∧ ∀ k, ¬ a.OfLoad k := by
  cases a with
  | recorded s e => cases s <;> exact ⟨nofun, fun _ hk => by first | exact h.elim | exact hk⟩
  | pmuWoken => exact h.elim
  | hashed => exact h.elim
  | _ => exact ⟨nofun, fun _ hk => by first | exact h.elim | exact hk⟩

theorem bootAct_quiet (a : Act) (h : BootAct a) : a ≠ .pmuWoken ∧ ∀ k, ¬ a.OfLoad k := by
  cases a with
  | recorded s e => cases s <;> exact ⟨nofun, fun _ hk => by first | exact h.elim | exact hk⟩
  | hashed s start input => cases s <;> exact ⟨nofun, fun _ hk => by first | exact h.elim | exact hk⟩
  | pmuWoken => exact h.elim
  | _ => exact ⟨nofun, fun _ hk => by first | exact h.elim | exact hk⟩

section Run

variable {hw : Hw} {s : MainState}

/-- **When the PMU is woken.** Behind all loads, with PMU firmware among the partitions loaded: the
PMU was woken once, behind all of that firmware, if and only if the last of its partitions, and no
other, is taken for the last. -/
theorem pmu_woken_iff (h : (boot hw).Reachable s) (hs : s.locals.fsblStage = .stage4)
    (hp : pmuPartitions s.world.inst s.locals.partitionNum ≠ []) :
    let ps := pmuPartitions s.world.inst s.locals.partitionNum
    s.world.inst.imageHeader.Counts s.locals.partitionNum ∧
      (WokenOnceBehind s.world.inst.imageHeader ps s.world.trace ↔
        ∀ k ∈ ps, (PmuFwLoadDone s.world.inst.imageHeader k ↔ ∀ j ∈ ps, j ≤ k)) := by
  obtain ⟨s₀, h₀, hrun⟩ := h
  cases run_history h₀ hrun with
  | @loaded w v n _ hn hi hb hc hl =>
    obtain ⟨ini, hini, hdi⟩ := ((frame_fsblInitialize hw).ok hi).1
    obtain ⟨bs, hbs, hdb⟩ :=
      ((frame_bootDeviceInitAndValidate (f := XFsblPs.reset) hw fun _ _ => rfl).ok hb).1
    obtain ⟨as, hlt, hd⟩ := hl.loadTrace
    have hfix : (v.apply .r5UsageCleared).inst.fixed = s.world.inst.fixed := hl.fixed.symm
    have hps (k : Nat) : LoadsPmu (v.apply .r5UsageCleared).inst k ↔ LoadsPmu s.world.inst k :=
      loadsPmu_of_fixed hfix k
    have htrace : s.world.trace = (ini ++ bs ++ [.r5UsageCleared]) ++ as := by
      have := ((hdi.trans hdb).trans (.act v .r5UsageCleared)).trans hd
      rw [this.trace, h₀.2.trace, List.nil_append]
    have hquiet : ∀ a ∈ ini ++ bs ++ [.r5UsageCleared], a ≠ .pmuWoken ∧ ∀ k, ¬ a.OfLoad k :=
      forall_mem_append (forall_mem_append (fun a ha => initAct_quiet a (hini a ha))
        fun a ha => bootAct_quiet a (hbs a ha)) (by simp [Act.OfLoad])
    have hiff (hp : pmuPartitions _ _ ≠ []) := hlt.wokenOnceBehind_iff hp
      (fun hmem => (hquiet _ hmem).1 rfl) fun a ha => (hquiet a ha).2
    simp only [pmuPartitions, hps, imageHeader_of_fixed hfix] at hiff
    simp only [hn] at hp ⊢
    refine ⟨hc, ?_⟩
    rw [htrace]
    exact hiff hp
  | jtag _ hn =>
    rw [hn] at hp
    exact absurd rfl hp
  | failed ho => simp [MainState.Over, hs] at ho
  | _ hs' => simp [hs] at hs'

/-- PMU firmware in two partitions, and a partition for the A53 behind them. -/
def pmuBoard : Board :=
  qspiBoard [{ load := 0xFFDC0000, attributes := 0x800 }, { load := 0xFFDC1000, attributes := 0x800 },
    {}]

theorem pmu_woken_pmuBoard :
    WokenOnceBehind (pmuBoard.after 5).world.inst.imageHeader [1, 2] (pmuBoard.after 5).world.trace := by
  have hr : (boot pmuBoard.hw).Reachable (pmuBoard.after 5) :=
    ⟨_, init_powerOn _, pmuBoard.run 0 5 (by decide +kernel)⟩
  have hs : (pmuBoard.after 5).locals.fsblStage = .stage4 := by decide +kernel
  have hps : pmuPartitions (pmuBoard.after 5).world.inst (pmuBoard.after 5).locals.partitionNum =
      [1, 2] := by decide +kernel
  have hrow : ∀ k ∈ [1, 2], (PmuFwLoadDone (pmuBoard.after 5).world.inst.imageHeader k ↔
      ∀ j ∈ [1, 2], j ≤ k) := by decide +kernel
  obtain ⟨-, hiff⟩ := pmu_woken_iff hr hs (by rw [hps]; nofun)
  rw [hps] at hiff
  exact hiff.2 hrow

/-- PMU firmware in one partition, with a partition for the PMU behind it that another loader owns. -/
def foreignPmuBoard : Board :=
  qspiBoard [{ load := 0xFFDC0000, attributes := 0x800 },
    { load := 0xFFDC1000, attributes := 0x10800 }, {}]

/-- All partitions load, and the PMU is not woken. -/
theorem not_pmu_woken :
    ¬ ∀ (hw : Hw) (s : MainState), (boot hw).Reachable s → s.locals.fsblStage = .stage4 →
      pmuPartitions s.world.inst s.locals.partitionNum ≠ [] →
      WokenOnceBehind s.world.inst.imageHeader (pmuPartitions s.world.inst s.locals.partitionNum)
        s.world.trace := by
  intro h
  have hr : (boot foreignPmuBoard.hw).Reachable (foreignPmuBoard.after 5) :=
    ⟨_, init_powerOn _, foreignPmuBoard.run 0 5 (by decide +kernel)⟩
  have hs : (foreignPmuBoard.after 5).locals.fsblStage = .stage4 ∧
      pmuPartitions (foreignPmuBoard.after 5).world.inst
        (foreignPmuBoard.after 5).locals.partitionNum = [1] := by decide +kernel
  have hasleep : ((foreignPmuBoard.after 5).world.trace.all fun a =>
      match a with
      | .pmuWoken => false
      | _ => true) = true := by decide +kernel
  obtain ⟨pre, post, ht, -⟩ := h _ _ hr hs.1 (by rw [hs.2]; nofun)
  have hwoken := List.all_eq_true.1 hasleep .pmuWoken (by rw [ht]; simp)
  cases hwoken

end Run

end MeasuredBoot
