import MeasuredBoot.EarlyHandoff
import MeasuredBoot.FsblMeasurement

/-!
# Runs of the build with early handoff

`checkEarlyHandoff` sees the end of a row of partitions for one R5, `XFsbl_Handoff` the next R5 of
the table. Nothing in the code brings the two together. `HandoffOrder` is what the headers have to
say for that: each R5 has one row, with an entry in it, and the running R5's own partitions come
behind the rows of the others. `early_handoff`: then every CPU of the table is released once and the
FSBL leaves behind the last partition. The invariant `Cursor` relates the static index, the table,
the rows that ended and the releases.
-/

namespace MeasuredBoot

open Prog TransSys Firsts

namespace EarlyBuild

/-! ## Rows of partitions -/

/-- The CPU of partition `n` for the early handoff. -/
def earlyCpuAt (inst : XFsblPs) (n : Nat) : UInt32 :=
  (inst.imageHeader.header n).earlyCpu inst.processorID

/-- An R5 other than the running CPU. -/
def OtherR5 (inst : XFsblPs) (cpu : UInt32) : Prop :=
  checkEarlyHandoffCpu cpu = true ∧ cpu ≠ inst.processorID

/-- The number of the last partition. -/
def lastNumber (inst : XFsblPs) : Nat := (inst.imageHeader.imageHeaderTable.noOfPartitions - 1).toNat

/-- A row of partitions for an R5 ends with partition `n`. -/
def RowEnds (inst : XFsblPs) (n : Nat) : Prop :=
  1 ≤ n ∧ n ≤ lastNumber inst ∧ checkEarlyHandoff inst n = true

/-- Partition `m` supplies an entry for the CPU. -/
def EntryOf (inst : XFsblPs) (m : Nat) (cpu : UInt32) : Prop :=
  1 ≤ m ∧ Supplies inst m ∧ (inst.imageHeader.header m).effectiveCpu inst.processorID = cpu

instance (inst : XFsblPs) (n : Nat) : Decidable (RowEnds inst n) :=
  inferInstanceAs (Decidable (_ ∧ _ ∧ _))

instance (inst : XFsblPs) (m : Nat) (cpu : UInt32) : Decidable (EntryOf inst m cpu) :=
  inferInstanceAs (Decidable (_ ∧ _ ∧ _))

/-- One row of partitions for each R5, each with an entry, and the running R5's partitions behind
the rows of the others. -/
structure HandoffOrder (inst : XFsblPs) : Prop where
  entry : ∀ n ≤ lastNumber inst, RowEnds inst n → ∃ m ≤ n, EntryOf inst m (earlyCpuAt inst n)
  once : ∀ m ≤ lastNumber inst, ∀ n ≤ lastNumber inst, RowEnds inst m → RowEnds inst n →
    earlyCpuAt inst m = earlyCpuAt inst n → m = n
  runningLast : checkEarlyHandoffCpu inst.processorID = true →
    ∀ n ≤ lastNumber inst, RowEnds inst n → ∀ m ≤ n, ¬ EntryOf inst m inst.processorID

instance (inst : XFsblPs) : Decidable (HandoffOrder inst) :=
  @decidable_of_iff _ (_ ∧ _ ∧ _) ⟨fun ⟨h1, h2, h3⟩ => ⟨h1, h2, h3⟩, fun h => ⟨h.1, h.2, h.3⟩⟩
    (@instDecidableAnd _ _ inferInstance (@instDecidableAnd _ _ inferInstance inferInstance))

section Rows

variable {inst : XFsblPs} {m n k : Nat} {cpu : UInt32}

theorem checkEarlyHandoffCpu_ne_zero (h : checkEarlyHandoffCpu cpu = true) : cpu ≠ 0 := by
  rintro rfl
  exact absurd h (by decide)

/-- A row ends where the next partition is for another CPU, or where there is none. -/
theorem checkEarlyHandoff_iff : checkEarlyHandoff inst n = true ↔
    OtherR5 inst (earlyCpuAt inst n) ∧
      (n + 1 ≤ lastNumber inst → earlyCpuAt inst (n + 1) ≠ earlyCpuAt inst n) := by
  unfold checkEarlyHandoff OtherR5
  rw [decide_eq_true_eq, ← and_assoc]
  refine and_congr_right fun hcpu => ?_
  split
  · rename_i hn
    exact ⟨fun h _ => h, fun h => h hn⟩
  · rename_i hn
    exact ⟨fun _ h => absurd h hn, fun _ h => checkEarlyHandoffCpu_ne_zero hcpu.1 h.symm⟩

/-- Another CPU's entry is for the CPU of the early handoff. -/
theorem earlyCpu_of_effective {h : PartitionHeader} {runningCpu : UInt32}
    (hc : h.effectiveCpu runningCpu ≠ runningCpu) :
    h.earlyCpu runningCpu = h.effectiveCpu runningCpu := by
  unfold PartitionHeader.effectiveCpu at hc ⊢
  unfold PartitionHeader.earlyCpu
  split at hc
  · exact absurd rfl hc
  · rename_i hnone
    rw [if_neg hnone, if_neg fun h => hnone h.1]

/-- **A row that is left ends before.** -/
theorem exists_rowEnds {t : Nat} (h1 : 1 ≤ m) (hm : m < t) (ht : t ≤ lastNumber inst + 1)
    (hr5 : OtherR5 inst (earlyCpuAt inst m))
    (hne : t ≤ lastNumber inst → earlyCpuAt inst t ≠ earlyCpuAt inst m) :
    ∃ e, m ≤ e ∧ e < t ∧ RowEnds inst e ∧ earlyCpuAt inst e = earlyCpuAt inst m := by
  -- induction on the distance to `t`
  obtain ⟨d, rfl⟩ := Nat.exists_eq_add_of_lt hm
  induction d generalizing m with
  | zero =>
    refine ⟨m, Nat.le_refl m, hm, ⟨h1, by omega, checkEarlyHandoff_iff.2 ⟨hr5, hne⟩⟩, rfl⟩
  | succ d ih =>
    by_cases hnext : earlyCpuAt inst (m + 1) = earlyCpuAt inst m
    · have hd : m + (d + 1) + 1 = m + 1 + d + 1 := by omega
      rw [hd] at hm ht hne ⊢
      rw [← hnext] at hr5 hne ⊢
      obtain ⟨e, he, hrest⟩ := ih (Nat.le_succ_of_le h1) hr5 (by omega) ht hne
      exact ⟨e, Nat.le_of_succ_le he, hrest⟩
    · exact ⟨m, Nat.le_refl m, hm,
        ⟨h1, by omega, checkEarlyHandoff_iff.2 ⟨hr5, fun _ => hnext⟩⟩, rfl⟩

theorem rowEnds_of_sources {i j : XFsblPs} (h : j.sources = i.sources) (n : Nat) :
    (RowEnds j n ↔ RowEnds i n) ∧ earlyCpuAt j n = earlyCpuAt i n := by
  obtain ⟨h1, h2, -⟩ := sources_eq h
  unfold RowEnds lastNumber earlyCpuAt checkEarlyHandoff
  rw [h1, h2]
  exact ⟨Iff.rfl, rfl⟩

end Rows

/-! ## The static index -/

/-- An entry of the table comes from a partition. -/
theorem tableAt_source {inst : XFsblPs} {n : Nat} (ht : TableAt inst n)
    (hr : inst.processorID ∈ fsblCpus) {v : HandoffValue} (hv : v ∈ inst.handoffValues) :
    ∃ m ≤ n, EntryOf inst m v.cpu := by
  obtain ⟨m, h1, hm, hsup, rfl⟩ := ht.source hv
  exact ⟨m, hm, h1, hsup, (cpu_entry _ hr).symm⟩

/-- The CPU of a loaded partition with an entry is in the table. -/
theorem tableAt_present {inst : XFsblPs} {m n : Nat} {cpu : UInt32} (ht : TableAt inst n)
    (hr : inst.processorID ∈ fsblCpus) (he : EntryOf inst m cpu) (hm : m ≤ n) :
    ∃ v ∈ inst.handoffValues, v.cpu = cpu := by
  obtain ⟨h1, hsup, rfl⟩ := he
  rw [ht.table]
  refine (mem_keys_firsts _ _).2 ⟨_, mem_supplied.2 ⟨m, h1, hm, hsup, rfl⟩, ?_⟩
  exact cpu_entry _ hr

theorem tableAt_nodup {inst : XFsblPs} {n : Nat} (ht : TableAt inst n) :
    (inst.handoffValues.map HandoffValue.cpu).Nodup := by
  rw [ht.table]
  exact nodup_firsts _

/-- The rows that ended up to partition `n` are handed over: their R5s are those of the first
`index` entries, and `freed` are these. -/
structure Cursor (inst : XFsblPs) (n index : Nat) (freed : List UInt32) : Prop where
  le : index ≤ inst.handoffValues.length
  freed : freed =
    ((inst.handoffValues.take index).map HandoffValue.cpu).filter checkEarlyHandoffCpu
  handed : ∀ k ≤ n, RowEnds inst k →
    ∃ v ∈ inst.handoffValues.take index, v.cpu = earlyCpuAt inst k
  ended : ∀ v ∈ inst.handoffValues.take index, checkEarlyHandoffCpu v.cpu = true →
    ∃ k ≤ n, RowEnds inst k ∧ earlyCpuAt inst k = v.cpu

section Cursor

variable {inst i j : XFsblPs} {n index : Nat} {freed : List UInt32} {v : HandoffValue}
  {skipped rest : List HandoffValue}

theorem cursor_zero (h : inst.handoffValues = []) : Cursor inst 0 0 [] where
  le := Nat.zero_le _
  freed := by rw [h]; rfl
  handed := fun k hk he => by
    have h1 := he.1
    omega
  ended := fun v hv => by simp [h] at hv

/-- A load appends to the table. -/
theorem Cursor.grow (h : Cursor i n index freed) (hs : j.sources = i.sources)
    (ht : i.handoffValues <+: j.handoffValues) : Cursor j n index freed := by
  obtain ⟨more, hmore⟩ := ht
  have htake : j.handoffValues.take index = i.handoffValues.take index := by
    rw [← hmore, List.take_append_of_le_length h.le]
  have hrow (k : Nat) : (RowEnds j k ↔ RowEnds i k) ∧ earlyCpuAt j k = earlyCpuAt i k :=
    rowEnds_of_sources hs k
  refine ⟨?_, by rw [htake, h.freed], fun k hk he => ?_, fun v hv hcpu => ?_⟩
  · rw [← hmore, List.length_append]
    exact Nat.le_add_right_of_le h.le
  · rw [htake, (hrow k).2]
    exact h.handed k hk ((hrow k).1.1 he)
  · rw [htake] at hv
    obtain ⟨k, hk, he, hc⟩ := h.ended v hv hcpu
    exact ⟨k, hk, (hrow k).1.2 he, (hrow k).2.trans hc⟩

/-- A partition inside a row. -/
theorem Cursor.pass (h : Cursor inst n index freed) (he : ¬ RowEnds inst (n + 1)) :
    Cursor inst (n + 1) index freed := by
  refine ⟨h.le, h.freed, fun k hk hrow => ?_, fun v hv hcpu => ?_⟩
  · rcases Nat.lt_or_eq_of_le hk with hlt | rfl
    · exact h.handed k (Nat.le_of_lt_succ hlt) hrow
    · exact absurd hrow he
  · obtain ⟨k, hk, hrow⟩ := h.ended v hv hcpu
    exact ⟨k, Nat.le_succ_of_le hk, hrow⟩

/-- Entries before and behind the static index are of different CPUs. -/
theorem cpu_ne_of_split (ht : TableAt inst n) {u v : HandoffValue}
    (hu : u ∈ inst.handoffValues.take index) (hv : v ∈ inst.handoffValues.drop index) :
    u.cpu ≠ v.cpu := by
  have hd := tableAt_nodup ht
  rw [← List.take_append_drop index inst.handoffValues, List.map_append, List.nodup_append] at hd
  exact hd.2.2 _ (List.mem_map_of_mem hu) _ (List.mem_map_of_mem hv)

/-- An R5 whose entry is still to come, and whose row is not the last one loaded, runs the FSBL. -/
theorem Cursor.behind (h : Cursor inst n index freed) (ht : TableAt inst (n + 1))
    (hr : inst.processorID ∈ fsblCpus) (hn : n + 1 ≤ lastNumber inst)
    (hv : v ∈ inst.handoffValues.drop index) (hcpu : checkEarlyHandoffCpu v.cpu = true)
    (hne : earlyCpuAt inst (n + 1) ≠ v.cpu) :
    ∃ m ≤ n + 1, EntryOf inst m inst.processorID ∧ v.cpu = inst.processorID := by
  obtain ⟨m, hm, he⟩ := tableAt_source ht hr (List.mem_of_mem_drop hv)
  refine ⟨m, hm, ?_⟩
  by_cases hrun : v.cpu = inst.processorID
  · exact ⟨hrun ▸ he, hrun⟩
  -- its row ended before, so it is passed
  have hat : earlyCpuAt inst m = v.cpu := by
    have hc := he.2.2
    rw [← hc] at hrun ⊢
    exact earlyCpu_of_effective hrun
  have hlt : m < n + 1 := by
    refine Nat.lt_of_le_of_ne hm ?_
    rintro rfl
    exact hne hat
  obtain ⟨e, -, hen, hends, hce⟩ := exists_rowEnds he.1 hlt (by omega) (hat ▸ ⟨hcpu, hrun⟩)
    fun _ => hat ▸ hne
  obtain ⟨u, hu, huc⟩ := h.handed e (Nat.le_of_lt_succ hen) hends
  exact absurd ((huc.trans hce).trans hat) (cpu_ne_of_split ht hu hv)

/-- **The next R5 of the table is the one whose row ends.** -/
theorem Cursor.next (h : Cursor inst n index freed) (ht : TableAt inst (n + 1))
    (hr : inst.processorID ∈ fsblCpus) (ho : HandoffOrder inst) (he : RowEnds inst (n + 1)) :
    ∃ skipped v rest, inst.handoffValues.drop index = skipped ++ v :: rest ∧
      (∀ u ∈ skipped, checkEarlyHandoffCpu u.cpu = false) ∧ v.cpu = earlyCpuAt inst (n + 1) := by
  have hr5 : OtherR5 inst (earlyCpuAt inst (n + 1)) := (checkEarlyHandoff_iff.1 he.2.2).1
  have hn : n + 1 ≤ lastNumber inst := he.2.1
  -- its entry is behind the index
  obtain ⟨m, hm, hentry⟩ := ho.entry _ hn he
  obtain ⟨u, hu, huc⟩ := tableAt_present ht hr hentry hm
  have hdrop : u ∈ inst.handoffValues.drop index := by
    rw [← List.take_append_drop index inst.handoffValues] at hu
    refine (List.mem_append.1 hu).resolve_left fun htake => ?_
    obtain ⟨k, hk, hends, hkc⟩ := h.ended u htake (by rw [huc]; exact hr5.1)
    have hk1 := ho.once k hends.2.1 (n + 1) hn hends he (hkc.trans huc)
    omega
  -- and the first R5 there is no other
  have hsome : (inst.handoffValues.drop index).find? (fun v => checkEarlyHandoffCpu v.cpu) |>.isSome :=
    List.find?_isSome.2 ⟨u, hdrop, by rw [huc]; exact hr5.1⟩
  obtain ⟨v, hv⟩ := Option.isSome_iff_exists.1 hsome
  obtain ⟨hcpu, skipped, rest, hsplit, hskipped⟩ := List.find?_eq_some_iff_append.1 hv
  refine ⟨skipped, v, rest, hsplit, fun u hu => by simpa using hskipped u hu, ?_⟩
  by_contra hne
  obtain ⟨m, hm, hrun, hrunning⟩ := h.behind ht hr hn (List.mem_of_find?_eq_some hv) hcpu
    fun hc => hne hc.symm
  exact ho.runningLast (hrunning ▸ hcpu) _ hn he m hm hrun

/-- The early handoff of the row. -/
theorem Cursor.hand (h : Cursor inst n index freed) (he : RowEnds inst (n + 1))
    (hsplit : inst.handoffValues.drop index = skipped ++ v :: rest)
    (hskipped : ∀ u ∈ skipped, checkEarlyHandoffCpu u.cpu = false)
    (hv : v.cpu = earlyCpuAt inst (n + 1)) :
    Cursor inst (n + 1) (index + skipped.length + 1) (freed ++ [earlyCpuAt inst (n + 1)]) := by
  have hr5 : OtherR5 inst (earlyCpuAt inst (n + 1)) := (checkEarlyHandoff_iff.1 he.2.2).1
  have htable : inst.handoffValues = inst.handoffValues.take index ++ (skipped ++ v :: rest) := by
    rw [← hsplit, List.take_append_drop]
  have hlen : (inst.handoffValues.take index).length = index := by
    rw [List.length_take, Nat.min_eq_left h.le]
  have htake : inst.handoffValues.take (index + skipped.length + 1) =
      inst.handoffValues.take index ++ (skipped ++ [v]) := by
    have hcount : index + skipped.length + 1 =
        (inst.handoffValues.take index).length + (skipped.length + 1) := by
      rw [hlen, Nat.add_assoc]
    calc inst.handoffValues.take (index + skipped.length + 1)
        = (inst.handoffValues.take index ++ (skipped ++ v :: rest)).take
            ((inst.handoffValues.take index).length + (skipped.length + 1)) := by
          rw [← hcount, ← htable]
      _ = inst.handoffValues.take index ++ (skipped ++ [v]) := by
          rw [List.take_length_add_append, List.take_length_add_append, List.take_succ_cons,
            List.take_zero]
  have hnone : (skipped.map HandoffValue.cpu).filter checkEarlyHandoffCpu = [] := by
    rw [List.filter_eq_nil_iff]
    intro cpu hcpu
    obtain ⟨u, hu, rfl⟩ := List.mem_map.1 hcpu
    rw [hskipped u hu]
    exact Bool.false_ne_true
  refine ⟨?_, ?_, fun k hk hends => ?_, fun u hu hcpu => ?_⟩
  · have hall := congrArg List.length htable
    simp only [List.length_append, List.length_cons, hlen] at hall
    omega
  · rw [htake, h.freed, ← hv]
    simp only [List.map_append, List.filter_append, hnone, List.nil_append, List.map_cons,
      List.map_nil]
    rw [List.filter_cons_of_pos (by rw [hv]; exact hr5.1), List.filter_nil]
  · rw [htake]
    rcases Nat.lt_or_eq_of_le hk with hlt | rfl
    · obtain ⟨u, hu, hc⟩ := h.handed k (Nat.le_of_lt_succ hlt) hends
      exact ⟨u, List.mem_append_left _ hu, hc⟩
    · exact ⟨v, by simp, hv⟩
  · rw [htake] at hu
    rcases List.mem_append.1 hu with hu | hu
    · obtain ⟨k, hk, hrow⟩ := h.ended u hu hcpu
      exact ⟨k, Nat.le_succ_of_le hk, hrow⟩
    rcases List.mem_append.1 hu with hu | hu
    · rw [hskipped u hu] at hcpu
      cases hcpu
    · obtain rfl := List.mem_singleton.1 hu
      exact ⟨n + 1, Nat.le_refl _, he, hv.symm⟩

/-- The CPUs of the table other than the running one. -/
def otherCpus (inst : XFsblPs) : List UInt32 :=
  (inst.handoffValues.map HandoffValue.cpu).filter (· ≠ inst.processorID)

theorem Cursor.nodup (h : Cursor inst n index freed) (ht : TableAt inst n) : freed.Nodup := by
  rw [h.freed]
  refine List.Nodup.filter _ (List.Nodup.sublist ?_ (tableAt_nodup ht))
  exact (List.take_sublist _ _).map _

theorem Cursor.mem_freed (h : Cursor inst n index freed) {cpu : UInt32} : cpu ∈ freed ↔
    checkEarlyHandoffCpu cpu = true ∧ ∃ v ∈ inst.handoffValues.take index, v.cpu = cpu := by
  rw [h.freed, List.mem_filter, List.mem_map, and_comm]

/-- **Behind the last partition** the early handoffs and the regular one release the other CPUs of
the table, each once. -/
theorem Cursor.complete (h : Cursor inst n index freed) (ht : TableAt inst n)
    (hr : inst.processorID ∈ fsblCpus) (hn : n = lastNumber inst) :
    (freed ++ regularCpus inst.processorID inst.handoffValues).Perm (otherCpus inst) := by
  have hd := tableAt_nodup ht
  have hnodup : (freed ++ regularCpus inst.processorID inst.handoffValues).Nodup := by
    rw [List.nodup_append]
    refine ⟨h.nodup ht, hd.filter _, fun a ha b hb hab => ?_⟩
    have hb := (List.mem_filter.1 hb).2
    rw [decide_eq_true_eq, ← hab] at hb
    exact hb.1 (h.mem_freed.1 ha).1
  have hother : (otherCpus inst).Nodup := hd.filter _
  refine (List.perm_ext_iff_of_nodup hnodup hother).2 fun cpu => ?_
  rw [List.mem_append, h.mem_freed, regularCpus, otherCpus, List.mem_filter, List.mem_filter,
    decide_eq_true_eq, decide_eq_true_eq]
  constructor
  · rintro (⟨hcpu, v, hv, rfl⟩ | ⟨hmem, -, hne⟩)
    · obtain ⟨k, -, hends, hk⟩ := h.ended v hv hcpu
      refine ⟨List.mem_map_of_mem (List.mem_of_mem_take hv), ?_⟩
      rw [← hk]
      exact (checkEarlyHandoff_iff.1 hends.2.2).1.2
    · exact ⟨hmem, hne⟩
  · rintro ⟨hmem, hne⟩
    by_cases hcpu : checkEarlyHandoffCpu cpu = true
    · -- an R5's row has ended by now
      obtain ⟨v, hv, rfl⟩ := List.mem_map.1 hmem
      obtain ⟨m, hm, he⟩ := tableAt_source ht hr hv
      have hat : earlyCpuAt inst m = v.cpu := by
        have hc := he.2.2
        rw [← hc] at hne ⊢
        exact earlyCpu_of_effective hne
      have hr5 : OtherR5 inst (earlyCpuAt inst m) := by
        rw [hat]
        exact ⟨hcpu, hne⟩
      have hlast : n + 1 ≤ lastNumber inst + 1 := by rw [hn]
      obtain ⟨e, -, hen, hends, hce⟩ := exists_rowEnds he.1 (Nat.lt_succ_of_le hm) hlast hr5
        fun hle => by omega
      obtain ⟨u, hu, huc⟩ := h.handed e (Nat.le_of_lt_succ hen) hends
      exact .inl ⟨hcpu, u, hu, (huc.trans hce).trans hat⟩
    · exact .inr ⟨hmem, hcpu, hne⟩

end Cursor

/-! ## The invariant of a run -/

/-- Partitions 1 to `n` are loaded, and the rows up to `m` are handed over. -/
structure Progress (s : State) (n m index : Nat) : Prop where
  table : TableAt s.main.world.inst n
  cpu : s.main.world.inst.processorID ∈ fsblCpus
  device : s.main.world.inst.primaryBootDevice ≠ xfsblJtagBootMode
  loads : ∀ k, 1 ≤ k → k ≤ n → .loadReturned k xfsblSuccess ∈ s.main.world.trace
  cursor : Cursor s.main.world.inst m index (releasedCpus s.main.world.trace)

/-- Where a run of the build is. -/
inductive Phase (hw : Hw) (s : State) : Prop where
  | starting : s.main.locals.fsblStage = .stage1 ∨ s.main.locals.fsblStage = .stage2 →
      (MeasuredBoot.boot hw).Reachable s.main → s.earlyHandoff = false →
      s.cpuIndexEarlyHandoff = 0 → releasedCpus s.main.world.trace = [] → Phase hw s
  | loading {n : Nat} : s.main.locals.fsblStage = .stage3 → s.main.locals.partitionNum = n + 1 →
      HeadersOk (n + 1) s.main.world.inst.imageHeader → Progress s n n s.cpuIndexEarlyHandoff →
      Phase hw s
  | early {n : Nat} : s.main.locals.fsblStage = .stage4 → s.earlyHandoff = true →
      s.main.locals.partitionNum = n + 1 →
      n + 1 < s.main.world.inst.imageHeader.imageHeaderTable.noOfPartitions.toNat →
      s.main.world.inst.imageHeader.imageHeaderTable.noOfPartitions.toNat ≤ 32 →
      RowEnds s.main.world.inst (n + 1) → Progress s (n + 1) n s.cpuIndexEarlyHandoff → Phase hw s
  | regular {n index : Nat} : s.main.locals.fsblStage = .stage4 → s.earlyHandoff = false →
      s.main.locals.partitionNum = n → s.main.world.inst.imageHeader.Counts n →
      Progress s n n index → Phase hw s
  | jtag : s.main.locals.fsblStage = .stage4 → s.earlyHandoff = false →
      s.main.locals.partitionNum = 0 →
      s.main.world.inst.primaryBootDevice = xfsblJtagBootMode →
      s.main.world.inst.imageHeader.imageHeaderTable.noOfPartitions = 0 →
      s.main.world.inst.handoffValues = [] → releasedCpus s.main.world.trace = [] → Phase hw s
  | ended : s.main.Over → (releasedCpus s.main.world.trace).Nodup → Phase hw s

section Phases

variable {hw : Hw} {s : State} {w w' : World} {n m index : Nat}

theorem Progress.nodup (h : Progress s n m index) :
    (releasedCpus s.main.world.trace).Nodup := by
  rw [h.cursor.freed]
  refine List.Nodup.filter _ (List.Nodup.sublist ?_ (tableAt_nodup h.table))
  exact (List.take_sublist _ _).map _

theorem Phase.nodup (h : Phase hw s) : (releasedCpus s.main.world.trace).Nodup := by
  cases h with
  | starting _ _ _ _ hf => rw [hf]; exact List.nodup_nil
  | loading _ _ _ hp => exact hp.nodup
  | early _ _ _ _ _ _ hp => exact hp.nodup
  | regular _ _ _ _ hp => exact hp.nodup
  | jtag _ _ _ _ _ _ hf => rw [hf]; exact List.nodup_nil
  | ended _ hf => exact hf

/-- What stage 2 leaves in JTAG mode. -/
theorem bootDevice_jtag_mode
    (h : bootDeviceInitAndValidate hw w = .error (.status xfsblStatusJtag) w') :
    w'.inst.primaryBootDevice = xfsblJtagBootMode ∧
      w'.inst.imageHeader = w.inst.imageHeader := by
  rcases bind_error.1 h with h | ⟨_, v, -, h⟩
  · have hk : Inits (fun _ => False) w w' :=
      (frame_primaryBootDeviceInit hw (fun _ _ => rfl) fun _ _ => rfl).error h
    refine ⟨?_, hk.2⟩
    rcases bind_error.1 h with h | ⟨reg, v₁, -, h⟩
    · exact absurd h (raises_readReg (E := fun _ => False) hw _ _ _ _)
    rcases bind_error.1 h with h | ⟨_, v₂, h2, h⟩
    · exact absurd h (raises_modifyInst (E := fun _ => False) _ _ _ _)
    have hset := modifyInst_ok.1 h2
    rcases bind_error.1 h with h | ⟨_, v₃, h3, h⟩
    · have hrest : BootError (.status xfsblStatusJtag) :=
        raises_when (fun _ => bootError_checked (c := .csuDmaInit) hw trivial) _ _ _ h
      exact absurd rfl hrest.2
    have hkeep : Boots (fun _ => False) v₂ v₃ := (frame_when fun _ => frame_checked hw _).ok h3
    split at h
    · rename_i hmode
      obtain ⟨-, rfl⟩ := throw_error.1 h
      have hp := congrArg (fun p => p.2.2.2) hkeep.2
      rw [← hset] at hp
      simp only [XFsblPs.platform] at hp
      rw [hp, hmode]
    · have hrest : BootError (.status xfsblStatusJtag) := by
        refine (?_ : Raises BootError _) _ _ _ h
        split
        · exact bootError_useDevice hw _ _ _
        · exact raises_throw ⟨Usual.status (by decide), by decide⟩
      exact absurd rfl hrest.2
  · have hrest : Raises BootError (do
        validateHeader hw
        modifyInst fun i =>
          { i with secondaryBootDevice := i.imageHeader.imageHeaderTable.partitionPresentDevice }
        secondaryBootDeviceInit hw) :=
      raises_bind (bootError_validateHeader hw) fun _ => raises_bind (raises_modifyInst _) fun _ =>
        bootError_secondaryBootDeviceInit hw
    exact absurd rfl (hrest _ _ _ h).2

/-- The other passes are those of the regular build. -/
theorem mainStep_other (h3 : s.main.locals.fsblStage ≠ .stage3)
    (h4 : s.main.locals.fsblStage ≠ .stage4) :
    mainStep hw s = { s with main := MeasuredBoot.mainStep hw s.main } := by
  unfold mainStep
  dsimp only
  split
  · exact absurd (by assumption) h3
  · exact absurd (by assumption) h4
  · rfl

/-- A pass of stage 1 or 2. -/
theorem Phase.start (hs : s.main.locals.fsblStage = .stage1 ∨ s.main.locals.fsblStage = .stage2)
    (hr : (MeasuredBoot.boot hw).Reachable s.main) (he : s.earlyHandoff = false)
    (hi : s.cpuIndexEarlyHandoff = 0) (hf : releasedCpus s.main.world.trace = []) :
    Phase hw (mainStep hw s) := by
  obtain ⟨main, early, index⟩ := s
  obtain rfl : early = false := he
  obtain rfl : index = 0 := hi
  simp only at hs hr hf
  have hrunning : main.Running := by
    rcases hs with hs | hs <;> simp [MainState.Running, hs]
  obtain ⟨s₀, h₀, hrun⟩ := hr
  have hnext : (MeasuredBoot.boot hw).Run (fun _ => True) s₀ (MeasuredBoot.mainStep hw main) :=
    .snoc hrun trivial ⟨hrunning, rfl⟩
  have hhistory := run_history h₀ hrun
  have hpass : Pass hw main (MeasuredBoot.mainStep hw main) := mainStep_cases hhistory.passOk
  obtain ⟨⟨k, htabled⟩, -⟩ := run_tabled h₀ hrun
  obtain ⟨⟨k', htabled'⟩, -⟩ := run_tabled h₀ hnext
  obtain rfl : k = 0 := htabled.early hs
  have hstage : main.locals.fsblStage ≠ .stage3 ∧ main.locals.fsblStage ≠ .stage4 := by
    rcases hs with hs | hs <;> rw [hs] <;> exact ⟨nofun, nofun⟩
  have hquiet : releasedCpus (MeasuredBoot.mainStep hw main).world.trace = [] :=
    (Emits.releasedCpus (pass_emits hw main) (passAct_not_released hstage.2)).trans hf
  rw [mainStep_other hstage.1 hstage.2]
  generalize MeasuredBoot.mainStep hw main = t at hnext hpass htabled' hquiet ⊢
  cases hpass with
  | initialized _ _ hl => exact .starting (.inr (by rw [hl])) ⟨s₀, h₀, hnext⟩ rfl rfl hquiet
  | @booted v hs' hb hw' hl =>
    have hk : k' = 0 := by
      have hnum := htabled'.next (by rw [hl])
      rw [hl] at hnum
      exact (Nat.succ.inj hnum).symm
    subst hk
    have hinit : fsblInitialize hw s₀.world = .ok () main.world := by
      cases hhistory with
      | initialized _ hi => exact hi
      | failed ho => simp [MainState.Over, hs'] at ho
      | _ h => simp [hs'] at h
    have hheaders : HeadersOk 1 t.world.inst.imageHeader := by
      have hv : HeadersOk 1 v.inst.imageHeader := headersOk_of_booted h₀.2 hinit hb
      rw [hw']
      exact hv
    have hdevice : t.world.inst.primaryBootDevice ≠ xfsblJtagBootMode := by
      rw [hw']
      exact (bootDevice_ok hb).2
    refine .loading (n := 0) (by rw [hl]) (by rw [hl]) hheaders ⟨htabled'.table, ?_, hdevice, ?_, ?_⟩
    · exact htabled'.cpu (.inr (.inr (by rw [hl])))
    · intro k h1 hk
      omega
    · show Cursor t.world.inst 0 0 (releasedCpus t.world.trace)
      rw [hquiet]
      exact cursor_zero htabled'.table.nil
  | @jtag v mask hs' hb hw' hl =>
    obtain ⟨hmode, himage⟩ := bootDevice_jtag_mode hb
    have hinit : fsblInitialize hw s₀.world = .ok () main.world := by
      cases hhistory with
      | initialized _ hi => exact hi
      | failed ho => simp [MainState.Over, hs'] at ho
      | _ h => simp [hs'] at h
    refine .jtag (by rw [hl]) rfl (by rw [hl]) ?_ ?_ ?_ hquiet
    · show t.world.inst.primaryBootDevice = xfsblJtagBootMode
      rw [hw']
      exact hmode
    · show t.world.inst.imageHeader.imageHeaderTable.noOfPartitions = 0
      rw [hw']
      show v.inst.imageHeader.imageHeaderTable.noOfPartitions = 0
      rw [himage, (fsblInitialize_ok hw hinit).1, h₀.2.inst]
      rfl
    · show t.world.inst.handoffValues = []
      rw [hw']
      show v.inst.handoffValues = []
      rw [(bootDevice_jtag hb).handoffValues]
      exact htabled.table.nil
  | loaded hs' => rcases hs with hs | hs <;> simp [hs] at hs'
  | failed ht => exact .ended (.inl ht) (by rw [hquiet]; exact List.nodup_nil)
  | ended _ ht => exact .ended (.inr (.inr ⟨_, ht⟩)) (by rw [hquiet]; exact List.nodup_nil)

theorem primaryBootDevice_of_fixed {i j : XFsblPs} (h : i.fixed = j.fixed) :
    i.primaryBootDevice = j.primaryBootDevice := by
  have hf := congrArg XFsblPs.primaryBootDevice h
  exact hf

/-- The table a load leaves starts with the one before. -/
theorem load_table_prefix (hr : w.inst.processorID ∈ fsblCpus)
    (hl : partitionLoad hw n w = .ok () w') : w.inst.handoffValues <+: w'.inst.handoffValues := by
  rw [load_table hr hl]
  split
  · rcases insertFirst_cases HandoffValue.cpu w.inst.handoffValues
      ((w.inst.imageHeader.header n).entry w.inst.processorID) with ⟨-, he⟩ | ⟨-, he⟩
    · rw [he]
      exact List.prefix_append _ _
    · rw [he]
  · exact List.prefix_refl _

/-- One more partition is loaded. -/
theorem Progress.load {t : State} {v : World} {mask : UInt32} (h : Progress s n m index)
    (hl : partitionLoad hw (n + 1) (s.main.world.apply (.loadCalled (n + 1))) = .ok () v)
    (hw' : t.main.world = (v.apply (.loadReturned (n + 1) xfsblSuccess)).apply (.r5Used mask)) :
    Progress t (n + 1) m index := by
  have hfixed : v.inst.fixed = s.main.world.inst.fixed :=
    (partitionLoad_fixed hl).trans (World.fixed_apply _ _)
  have hinst : t.main.world.inst = v.inst := by
    rw [hw']
    rfl
  have hcpu : (s.main.world.apply (.loadCalled (n + 1))).inst.processorID ∈ fsblCpus := h.cpu
  have htable : TableAt (s.main.world.apply (.loadCalled (n + 1))).inst n := h.table
  obtain ⟨as, ha, hm⟩ := (frame_partitionLoad hw (n + 1)).ok hl
  have htrace : t.main.world.trace = s.main.world.trace ++
      ([.loadCalled (n + 1)] ++ as ++ [.loadReturned (n + 1) xfsblSuccess, .r5Used mask]) := by
    rw [hw', World.trace_apply, World.trace_apply, hm.trace, World.trace_apply]
    simp
  have hnone : releasedCpus as = [] :=
    List.filterMap_eq_nil_iff.2 fun a hmem => loadAct_not_released a (ha a hmem)
  have hquiet : releasedCpus t.main.world.trace = releasedCpus s.main.world.trace := by
    rw [htrace, releasedCpus_append, releasedCpus_append, releasedCpus_append, hnone]
    exact List.append_nil _
  refine ⟨?_, ?_, ?_, fun k h1 hk => ?_, ?_⟩
  · rw [hinst]
    exact htable.loaded hcpu hl
  · rw [hinst, processorID_of_fixed hfixed]
    exact h.cpu
  · rw [hinst, primaryBootDevice_of_fixed hfixed]
    exact h.device
  · rw [htrace]
    rcases Nat.lt_or_eq_of_le hk with hlt | rfl
    · exact List.mem_append_left _ (h.loads k h1 (Nat.le_of_lt_succ hlt))
    · exact List.mem_append_right _ (by simp)
  · have hprefix : (s.main.world.apply (.loadCalled (n + 1))).inst.handoffValues <+:
        v.inst.handoffValues := load_table_prefix hcpu hl
    rw [hquiet, hinst]
    exact h.cursor.grow (sources_of_fixed hfixed) hprefix

/-- A pass of stage 3. -/
theorem Phase.load (hs : s.main.locals.fsblStage = .stage3)
    (hn : s.main.locals.partitionNum = n + 1)
    (hh : HeadersOk (n + 1) s.main.world.inst.imageHeader)
    (hp : Progress s n n s.cpuIndexEarlyHandoff) : Phase hw (mainStep hw s) := by
  have hpass : LoadPass hw s (mainStep hw s) := load_pass hs (by rw [hn]; exact hh)
  generalize mainStep hw s = t at hpass ⊢
  cases hpass with
  | failed hover hquiet => exact .ended hover (by rw [hquiet]; exact hp.nodup)
  | @loaded v mask hl hw' hi hnext =>
    rw [hn] at hl hw' hnext
    have hprogress : Progress t (n + 1) n t.cpuIndexEarlyHandoff := hi ▸ hp.load hl hw'
    have himage : t.main.world.inst.imageHeader = s.main.world.inst.imageHeader := by
      rw [hw']
      show v.inst.imageHeader = _
      exact imageHeader_of_fixed ((partitionLoad_fixed hl).trans (World.fixed_apply _ _))
    have hc : 2 ≤ t.main.world.inst.imageHeader.imageHeaderTable.noOfPartitions.toNat ∧
        t.main.world.inst.imageHeader.imageHeaderTable.noOfPartitions.toNat ≤ 32 ∧ 1 ≤ n + 1 ∧
        n + 1 < t.main.world.inst.imageHeader.imageHeaderTable.noOfPartitions.toNat := by
      rw [himage]
      exact HeadersOk.counted (w := s.main.world.apply (.loadCalled (n + 1))) hh hl
    have hlast := toNat_sub_one (Nat.le_of_succ_le hc.1)
    have hinst : v.inst = t.main.world.inst := by
      rw [hw']
      rfl
    rw [hinst] at hnext
    split at hnext
    · rename_i hcheck
      obtain ⟨hstage, hnum, hearly⟩ := hnext
      refine .early hstage hearly hnum hc.2.2.2 hc.2.1 ⟨hc.2.2.1, ?_, hcheck⟩ hprogress
      unfold lastNumber
      omega
    · rename_i hcheck
      have hpassed : Progress t (n + 1) (n + 1) t.cpuIndexEarlyHandoff :=
        { hprogress with cursor := hprogress.cursor.pass fun he => hcheck he.2.2 }
      split at hnext
      · rename_i hend
        obtain ⟨hstage, hnum, hearly⟩ := hnext
        have hend : ¬ n + 1 <
            (t.main.world.inst.imageHeader.imageHeaderTable.noOfPartitions - 1).toNat :=
          of_decide_eq_true hend
        refine .regular hstage hearly hnum ⟨hc.2.2.1, ?_, ?_⟩ hpassed
        · omega
        · omega
      · rename_i hend
        have hlt : n + 1 <
            (t.main.world.inst.imageHeader.imageHeaderTable.noOfPartitions - 1).toNat := by
          by_contra hge
          exact hend (decide_eq_true hge)
        exact .loading hnext.1 hnext.2 (.inl ⟨hc.1, hc.2.1, by omega, by omega⟩) hpassed

/-- What a handoff keeps. -/
theorem Frees.kept {cpus : List UInt32} (h : Frees cpus (w.apply .handoffCalled) w') :
    w'.inst.fixed = w.inst.fixed ∧ w'.inst.handoffValues = w.inst.handoffValues ∧
      (∀ a ∈ w.trace, a ∈ w'.trace) ∧ releasedCpus w'.trace = releasedCpus w.trace ++ cpus := by
  obtain ⟨as, rfl, ha, hm⟩ := h
  have hsame : SameTable (w.apply .handoffCalled) w' := by
    refine hm.toDoes.sameTable fun a hmem => ?_
    rintro m v rfl
    exact ha _ hmem
  have htrace : w'.trace = w.trace ++ ([.handoffCalled] ++ as) := by
    rw [hm.trace, World.trace_apply, List.append_assoc]
  refine ⟨hm.inst.trans (World.fixed_apply _ _), hsame, fun a hmem => ?_, ?_⟩
  · rw [htrace]
    exact List.mem_append_left _ hmem
  · rw [htrace, releasedCpus_append, releasedCpus_append]
    rfl

/-- The releases of a handoff that is refused. -/
theorem nodup_of_freesSome {cpus : List UInt32} (h : FreesSome cpus (w.apply .handoffCalled) w')
    (hd : (releasedCpus w.trace ++ cpus).Nodup) : (releasedCpus w'.trace).Nodup := by
  obtain ⟨freed, hsub, hfrees⟩ := h
  rw [hfrees.kept.2.2.2]
  exact hd.sublist ((List.Sublist.refl _).append hsub)

theorem Progress.handed {t : State} {i k : Nat} {cpus : List UInt32} (h : Progress s n m index)
    (hfrees : Frees cpus (s.main.world.apply .handoffCalled) t.main.world)
    (hc : Cursor s.main.world.inst k i (releasedCpus s.main.world.trace ++ cpus)) :
    Progress t n k i := by
  obtain ⟨hfixed, htable, htrace, hreleased⟩ := hfrees.kept
  refine ⟨h.table.of_sources (sources_of_fixed hfixed) htable, ?_, ?_, fun k h1 hk => ?_, ?_⟩
  · rw [processorID_of_fixed hfixed]
    exact h.cpu
  · rw [primaryBootDevice_of_fixed hfixed]
    exact h.device
  · exact htrace _ (h.loads k h1 hk)
  · rw [hreleased]
    exact hc.grow (sources_of_fixed hfixed) (by rw [htable])

/-- What the pass of an early handoff does: it is refused, or it releases the CPU of the row that
ended and goes back to the loads, behind the last one to the regular handoff. -/
def EarlyPass (s t : State) (cpu : UInt32) : Prop :=
  (t.main.locals.fsblStage = .stageErr ∧ ∃ freed, freed.Sublist [cpu] ∧
      releasedCpus t.main.world.trace = releasedCpus s.main.world.trace ++ freed) ∨
    (releasedCpus t.main.world.trace = releasedCpus s.main.world.trace ++ [cpu] ∧
      if lastPartition s.main.world.inst s.main.locals.partitionNum then
        t.main.locals.fsblStage = .stage4 ∧
          t.main.locals.partitionNum = s.main.locals.partitionNum ∧ t.earlyHandoff = false
      else t.main.locals.fsblStage = .stage3 ∧
        t.main.locals.partitionNum = s.main.locals.partitionNum + 1)

/-- A pass of stage 4 for a row that ended. -/
theorem Phase.hand (hs : s.main.locals.fsblStage = .stage4) (he : s.earlyHandoff = true)
    (hn : s.main.locals.partitionNum = n + 1)
    (hN : n + 1 < s.main.world.inst.imageHeader.imageHeaderTable.noOfPartitions.toNat)
    (h32 : s.main.world.inst.imageHeader.imageHeaderTable.noOfPartitions.toNat ≤ 32)
    (hrow : RowEnds s.main.world.inst (n + 1))
    (hp : Progress s (n + 1) n s.cpuIndexEarlyHandoff) (ho : HandoffOrder s.main.world.inst) :
    EarlyPass s (mainStep hw s) (earlyCpuAt s.main.world.inst (n + 1)) ∧
      Phase hw (mainStep hw s) := by
  obtain ⟨skipped, v, rest, hsplit, hskipped, hv⟩ := hp.cursor.next hp.table hp.cpu ho hrow
  have hr5 := (checkEarlyHandoff_iff.1 hrow.2.2).1
  have hhand := hp.cursor.hand hrow hsplit hskipped hv
  have hpass : HandoffPass
      (· = behindEntry (lastPartition s.main.world.inst (n + 1))
        (s.cpuIndexEarlyHandoff + skipped.length))
      (fun _ => False) [v.cpu] s (mainStep hw s) := by
    refine handoff_pass hs (by omega) ?_ (fun _ h => h) ?_
    · rintro r rfl
      exact behindEntry_ne_success
    · rw [hn, he]
      refine releases_handoffBehind hp.device ?_
      rw [if_pos rfl, hsplit]
      exact releases_early hskipped (by rw [hv]; exact hr5.1) (by rw [hv]; exact hr5.2)
  have hnodup : (releasedCpus s.main.world.trace ++ [earlyCpuAt s.main.world.inst (n + 1)]).Nodup :=
    hhand.nodup hp.table
  rw [hv] at hpass
  generalize mainStep hw s = t at hpass ⊢
  cases hpass with
  | refused hstage hfrees =>
    refine ⟨.inl ⟨hstage, ?_⟩, .ended (.inl hstage) (nodup_of_freesSome hfrees hnodup)⟩
    obtain ⟨freed, hsub, hfrees⟩ := hfrees
    exact ⟨freed, hsub, hfrees.kept.2.2.2⟩
  | @back r hr hfrees hload hother hindex =>
    subst hr
    have himage := imageHeader_of_fixed hfrees.kept.1
    have hprogress : Progress t (n + 1) (n + 1) (s.cpuIndexEarlyHandoff + skipped.length + 1) :=
      hp.handed hfrees hhand
    have hlast := toNat_sub_one (Nat.le_trans (Nat.le_add_left 1 n) (Nat.le_of_lt hN))
    by_cases hend : lastPartition s.main.world.inst (n + 1) = true
    · have hge := of_decide_eq_true hend
      obtain ⟨hlocals, hearly⟩ := hother (by rw [hend]; rfl)
      refine ⟨.inr ⟨hfrees.kept.2.2.2, ?_⟩, ?_⟩
      · rw [hn, if_pos hend]
        exact ⟨by rw [hlocals], by rw [hlocals, hn], hearly⟩
      · refine .regular (by rw [hlocals]) hearly (by rw [hlocals, hn]) ?_ hprogress
        rw [himage]
        exact ⟨by omega, by omega, by omega⟩
    · have hlt : n + 1 <
          (s.main.world.inst.imageHeader.imageHeaderTable.noOfPartitions - 1).toNat := by
        by_contra hge
        exact hend (decide_eq_true hge)
      have hend := Bool.eq_false_iff.2 hend
      obtain ⟨hlocals, hearly⟩ := hload (by rw [hend]; rfl)
      refine ⟨.inr ⟨hfrees.kept.2.2.2, ?_⟩, ?_⟩
      · rw [hn, hend]
        exact ⟨by rw [hlocals], by rw [hlocals, hn]⟩
      · rw [hend] at hindex
        refine .loading (n := n + 1) (by rw [hlocals]) (by rw [hlocals, hn]) ?_ (hindex ▸ hprogress)
        rw [himage]
        exact .inl ⟨by omega, h32, by omega, by omega⟩
  | ended he => exact he.elim

/-- What the pass of the other handoff does: it is refused, or the FSBL exits with the other CPUs
of the table released. -/
def ExitPass (s t : State) : Prop :=
  t.main.locals.fsblStage = .stageErr ∨
    ∃ e, t.main.locals.fsblStage = .ended e ∧ IsExit e ∧
      (s.main.world.inst.primaryBootDevice ≠ xfsblJtagBootMode →
        e = handoffExit (runningEntry s.main.world.inst.processorID
          s.main.world.inst.handoffValues)) ∧
      (releasedCpus t.main.world.trace).Perm (otherCpus s.main.world.inst)

/-- A pass of stage 4 behind the last partition. -/
theorem Phase.leave (hs : s.main.locals.fsblStage = .stage4) (he : s.earlyHandoff = false)
    (hn : s.main.locals.partitionNum = n) (hc : s.main.world.inst.imageHeader.Counts n)
    (hp : Progress s n n index) :
    ExitPass s (mainStep hw s) ∧ Phase hw (mainStep hw s) := by
  obtain ⟨h1, hN, h32⟩ := hc
  have hlast := toNat_sub_one (Nat.le_trans (Nat.le_add_left 1 n) (Nat.le_of_eq hN.symm))
  have hperm := hp.cursor.complete hp.table hp.cpu (by unfold lastNumber; omega)
  have hnodup : (releasedCpus s.main.world.trace ++
      regularCpus s.main.world.inst.processorID s.main.world.inst.handoffValues).Nodup :=
    hperm.nodup_iff.2 ((tableAt_nodup hp.table).filter _)
  have hpass : HandoffPass (fun _ => False)
      (· = handoffExit (runningEntry s.main.world.inst.processorID
        s.main.world.inst.handoffValues))
      (regularCpus s.main.world.inst.processorID s.main.world.inst.handoffValues) s
      (mainStep hw s) := by
    refine handoff_pass hs (by omega) (fun _ h => h.elim) (fun code hcode => ?_) ?_
    · obtain ⟨address, flags, hexit⟩ := @isExit_handoffExit (runningEntry
        s.main.world.inst.processorID s.main.world.inst.handoffValues)
      rw [hexit] at hcode
      cases hcode
    · rw [he]
      refine releases_handoffBehind hp.device ?_
      have hregular := @releases_regular hw
        (s.main.world.inst.imageHeader.header s.main.locals.partitionNum) s.main.world.inst
        s.main.world.inst.handoffValues none
        (lastPartition s.main.world.inst s.main.locals.partitionNum) s.cpuIndexEarlyHandoff
        (tableAt_nodup hp.table)
      rwa [Option.or_none] at hregular
  generalize mainStep hw s = t at hpass ⊢
  cases hpass with
  | refused hstage hfrees =>
    exact ⟨.inl hstage, .ended (.inl hstage) (nodup_of_freesSome hfrees hnodup)⟩
  | back hfalse => exact hfalse.elim
  | @ended e hexit hstage hfrees =>
    have hreleased := hfrees.kept.2.2.2
    refine ⟨.inr ⟨e, hstage, ?_, fun _ => hexit, ?_⟩, .ended (.inr (.inr ⟨e, hstage⟩)) ?_⟩
    · rw [hexit]
      exact isExit_handoffExit
    · rwa [hreleased]
    · rwa [hreleased]

/-- A pass of stage 4 in JTAG mode. -/
theorem Phase.park (hs : s.main.locals.fsblStage = .stage4)
    (hn : s.main.locals.partitionNum = 0)
    (hd : s.main.world.inst.primaryBootDevice = xfsblJtagBootMode)
    (ht : s.main.world.inst.handoffValues = []) (hf : releasedCpus s.main.world.trace = []) :
    ExitPass s (mainStep hw s) ∧ Phase hw (mainStep hw s) := by
  have hpass : HandoffPass (fun _ => False) IsExit [] s (mainStep hw s) := by
    refine handoff_pass hs (by omega) (fun _ h => h.elim) ?_ (releases_jtag hd)
    rintro code ⟨address, flags, hexit⟩
    cases hexit
  generalize mainStep hw s = t at hpass ⊢
  cases hpass with
  | refused hstage hfrees =>
    exact ⟨.inl hstage, .ended (.inl hstage) (nodup_of_freesSome hfrees (by rw [hf]; simp))⟩
  | back hfalse => exact hfalse.elim
  | @ended e hexit hstage hfrees =>
    have hreleased : releasedCpus t.main.world.trace = [] := by
      rw [hfrees.kept.2.2.2, hf]
      rfl
    refine ⟨.inr ⟨e, hstage, hexit, fun hne => absurd hd hne, ?_⟩, .ended (.inr (.inr ⟨e, hstage⟩)) ?_⟩
    · rw [hreleased, otherCpus, ht]
      exact List.Perm.refl []
    · rw [hreleased]
      exact List.nodup_nil

/-- A pass behind the error stage. -/
theorem Phase.rest (hs : s.main.Over) (hd : (releasedCpus s.main.world.trace).Nodup) :
    Phase hw (mainStep hw s) := by
  obtain ⟨main, early, index⟩ := s
  have hs : main.Over := hs
  have hstage : main.locals.fsblStage ≠ .stage3 ∧ main.locals.fsblStage ≠ .stage4 := by
    rcases hs with hs | hs | ⟨e, hs⟩ <;> rw [hs] <;> exact ⟨nofun, nofun⟩
  have hok : PassOk main := ⟨fun h => absurd h hstage.1, fun h => absurd h hstage.2⟩
  rw [mainStep_other hstage.1 hstage.2]
  refine .ended (mainStep_over hok (.inl hs)) ?_
  show (releasedCpus (MeasuredBoot.mainStep hw main).world.trace).Nodup
  rw [Emits.releasedCpus (pass_emits hw main) (passAct_not_released hstage.2)]
  exact hd

/-! ## Runs -/

/-- The guard of a run: at each handoff the headers are in order. -/
def InOrder (s : State) : Prop :=
  s.main.locals.fsblStage = .stage4 → HandoffOrder s.main.world.inst

theorem Phase.step (h : Phase hw s) (hg : InOrder s) : Phase hw (mainStep hw s) := by
  cases h with
  | starting hs hr he hi hf => exact .start hs hr he hi hf
  | loading hs hn hh hp => exact .load hs hn hh hp
  | early hs he hn hN h32 hrow hp => exact (Phase.hand hs he hn hN h32 hrow hp (hg hs)).2
  | regular hs he hn hc hp => exact (Phase.leave hs he hn hc hp).2
  | jtag hs _ hn hd _ ht hf => exact (Phase.park hs hn hd ht hf).2
  | ended hs hd => exact .rest hs hd

theorem reach_phase (h : (boot hw).Reach InOrder s) : Phase hw s := by
  refine Reach.inv (I := Phase hw) (fun s₀ h₀ => ?_) (fun s t hs hg hn => ?_) h
  · obtain ⟨hinit, hearly, hindex⟩ := h₀
    have hs : s₀.main.locals.fsblStage = .stage1 := by rw [hinit.1]
    refine .starting (.inl hs) (.init hinit) hearly hindex ?_
    rw [hinit.2.trace]
    rfl
  · obtain ⟨-, rfl⟩ := hn
    exact hs.step hg

end Phases

/-! ## What a run promises -/

/-- The row of partitions that ends with the last load is for another R5, has all partitions of its
CPU, and all of them are loaded. -/
def RowComplete (s : State) : Prop :=
  let inst := s.main.world.inst
  let cpu := earlyCpuAt inst s.main.locals.partitionNum
  OtherR5 inst cpu ∧ ∀ k, 1 ≤ k → k ≤ lastNumber inst → earlyCpuAt inst k = cpu →
    .loadReturned k xfsblSuccess ∈ s.main.world.trace

/-- All partitions behind the FSBL are loaded. -/
def AllLoaded (s : State) : Prop :=
  ∀ k, 1 ≤ k → k < s.main.world.inst.imageHeader.imageHeaderTable.noOfPartitions.toNat →
    .loadReturned k xfsblSuccess ∈ s.main.world.trace

/-- No CPU is released twice; an early handoff is for a complete row, releases its CPU and goes back;
the FSBL exits to the running CPU's entry behind the last load, and has released every other CPU of
the table by then. -/
structure Handoffs (hw : Hw) (s : State) : Prop where
  once : (releasedCpus s.main.world.trace).Nodup
  early : s.main.locals.fsblStage = .stage4 → s.earlyHandoff = true → RowComplete s ∧
    EarlyPass s (mainStep hw s) (earlyCpuAt s.main.world.inst s.main.locals.partitionNum)
  exits : s.main.locals.fsblStage = .stage4 →
    ∀ e, (mainStep hw s).main.locals.fsblStage = .ended e → AllLoaded s ∧ ExitPass s (mainStep hw s)

section Run

variable {hw : Hw} {s : State} {n : Nat}

/-- The row that ends is the only one of its CPU, so nothing of it is left to load. -/
theorem rowComplete (hn : s.main.locals.partitionNum = n + 1)
    (hrow : RowEnds s.main.world.inst (n + 1)) (hp : Progress s (n + 1) n s.cpuIndexEarlyHandoff)
    (ho : HandoffOrder s.main.world.inst) : RowComplete s := by
  have hr5 := (checkEarlyHandoff_iff.1 hrow.2.2).1
  unfold RowComplete
  rw [hn]
  refine ⟨hr5, fun k h1 hk hcpu => hp.loads k h1 ?_⟩
  by_contra hlt
  obtain ⟨e, hke, -, hends, hc⟩ := exists_rowEnds h1 (Nat.lt_succ_of_le hk) (Nat.le_refl _)
    (by rw [hcpu]; exact hr5) fun hle => absurd hle (Nat.not_succ_le_self _)
  have heq := ho.once e hends.2.1 (n + 1) hrow.2.1 hends hrow (hc.trans hcpu)
  omega

/-- **Every run with its headers in order** releases each CPU of the table once, early ones behind
their last partition, and leaves the FSBL behind the last load. -/
theorem early_handoff (h : (boot hw).Reach InOrder s) (hg : InOrder s) : Handoffs hw s := by
  have hphase : Phase hw s := reach_phase h
  have early {n : Nat} (he : s.earlyHandoff = true) (hs : s.main.locals.fsblStage = .stage4)
      (hn : s.main.locals.partitionNum = n + 1)
      (hN : n + 1 < s.main.world.inst.imageHeader.imageHeaderTable.noOfPartitions.toNat)
      (h32 : s.main.world.inst.imageHeader.imageHeaderTable.noOfPartitions.toNat ≤ 32)
      (hrow : RowEnds s.main.world.inst (n + 1))
      (hp : Progress s (n + 1) n s.cpuIndexEarlyHandoff) :
      EarlyPass s (mainStep hw s) (earlyCpuAt s.main.world.inst s.main.locals.partitionNum) := by
    rw [hn]
    exact (Phase.hand hs he hn hN h32 hrow hp (hg hs)).1
  refine ⟨hphase.nodup, fun hs he => ?_, fun hs e hend => ?_⟩
  · cases hphase with
    | early _ _ hn hN h32 hrow hp =>
      exact ⟨rowComplete hn hrow hp (hg hs), early he hs hn hN h32 hrow hp⟩
    | starting hs' => rcases hs' with hs' | hs' <;> simp [hs] at hs'
    | loading hs' => simp [hs] at hs'
    | regular _ he' => rw [he] at he'; cases he'
    | jtag _ he' => rw [he] at he'; cases he'
    | ended ho => simp [MainState.Over, hs] at ho
  · cases hphase with
    | early _ he hn hN h32 hrow hp =>
      -- an early handoff stays in the loop
      rcases early he hs hn hN h32 hrow hp with ⟨hstage, -⟩ | ⟨-, hback⟩
      · rw [hstage] at hend
        cases hend
      · split at hback
        · rw [hback.1] at hend
          cases hend
        · rw [hback.1] at hend
          cases hend
    | regular _ he hn hc hp =>
      refine ⟨fun k h1 hk => hp.loads k h1 ?_, (Phase.leave hs he hn hc hp).1⟩
      have hN := hc.2.1
      omega
    | jtag _ _ hn hd h0 ht hf =>
      refine ⟨fun k h1 hk => ?_, (Phase.park hs hn hd ht hf).1⟩
      rw [h0] at hk
      exact absurd hk (Nat.not_lt_zero _)
    | starting hs' => rcases hs' with hs' | hs' <;> simp [hs] at hs'
    | loading hs' => simp [hs] at hs'
    | ended ho => simp [MainState.Over, hs] at ho

end Run

/-! ## Boards -/

/-- The state after `k` passes. -/
def passes (hw : Hw) : Nat → State → State
  | 0, s => s
  | k + 1, s => mainStep hw (passes hw k s)

theorem run_passes {hw : Hw} {G : State → Prop} {s : State} {k : Nat}
    (h : ∀ i < k, (passes hw i s).main.running = true ∧ G (passes hw i s)) :
    (boot hw).Run G s (passes hw k s) := by
  induction k with
  | zero => exact .refl s
  | succ k ih =>
    obtain ⟨hrunning, hg⟩ := h k (Nat.lt_succ_self k)
    exact .snoc (ih fun i hi => h i (Nat.lt_succ_of_lt hi)) hg ⟨running_iff.1 hrunning, rfl⟩

/-- A board after `k` passes of this build. -/
def after (b : Board) (k : Nat) : State := passes b.hw k ⟨powerOn, false, 0⟩

theorem reach_after {b : Board} {G : State → Prop} {k : Nat}
    (h : ∀ i < k, (after b i).main.running = true ∧ G (after b i)) :
    (boot b.hw).Reach G (after b k) :=
  ⟨_, ⟨init_powerOn _, rfl, rfl⟩, run_passes h⟩

instance (s : State) : Decidable (InOrder s) := inferInstanceAs (Decidable (_ → _))

/-- Two partitions for R5-0, one for the running A53-0 and one for R5-1. -/
def rowsBoard : Board :=
  qspiBoard [{ attributes := 0x500 }, { attributes := 0x500 }, {}, { attributes := 0x600 }]

/-- The early handoff of R5-0, behind its second partition. -/
theorem early_handoff_rowsBoard :
    InOrder (after rowsBoard 4) ∧ (after rowsBoard 4).earlyHandoff = true ∧
      Handoffs rowsBoard.hw (after rowsBoard 4) := by
  have hg : InOrder (after rowsBoard 4) := by decide +kernel
  exact ⟨hg, by decide +kernel, early_handoff (reach_after (by decide +kernel)) hg⟩

/-- A second row of partitions for R5-0. -/
def splitBoard : Board :=
  qspiBoard [{ attributes := 0x500 }, {}, { attributes := 0x500 }, { attributes := 0x200 }]

/-- The early handoff of the second row finds no R5 and leaves, with a partition still to load. -/
theorem not_early_handoff :
    ¬ ∀ (hw : Hw) (s : State), (boot hw).Reachable s → Handoffs hw s := by
  intro h
  have hr : (boot splitBoard.hw).Reachable (after splitBoard 6) := reach_after (by decide +kernel)
  have hstage : (after splitBoard 6).main.locals.fsblStage = .stage4 := by decide +kernel
  have hend : (mainStep splitBoard.hw (after splitBoard 6)).main.locals.fsblStage =
      .ended (.exit 0 xfsblNoHandoffExit) := by decide +kernel
  have hloads : ((after splitBoard 6).main.world.trace.all fun a =>
      match a with
      | .loadReturned k _ => k ≠ 4
      | _ => true) = true := by decide +kernel
  have hcount : (after splitBoard 6).main.world.inst.imageHeader.imageHeaderTable.noOfPartitions.toNat
      = 5 := by decide +kernel
  have hmem := ((h _ _ hr).exits hstage _ hend).1 4 (by omega) (by omega)
  exact absurd rfl (of_decide_eq_true (List.all_eq_true.1 hloads _ hmem))

end EarlyBuild

end MeasuredBoot
