import MeasuredBoot.LogBuffer

/-!
# The range placed and the range measured

A load hashes `UnEncryptedDataWordLength << 2` bytes from the address where it placed the
partition. `loadedBytes n as` are the bytes that the acts `as` placed for partition `n`
last, and `PartitionMeasured` relates them to the input of the hash. Copy and validation compute the
address apart, with different lengths, and agree (`getLoadAddress_ok`). The
lengths agree for a plain and for an encrypted partition; behind an authenticated
one the copy goes on up to the certificate (`MeasuredWhole`).
-/

namespace MeasuredBoot

open Prog

/-! ## Placed and hashed -/

def placedAt (n : Nat) : Act → Option (Nat × Nat × Mem)
  | .placed m start len data => if m = n then some (start, len, data) else none
  | _ => none

/-- Where partition `n` was placed last. -/
def lastPlaced (n : Nat) (as : List Act) : Option (Nat × Nat × Mem) :=
  (as.filterMap (placedAt n)).getLast?

/-- The bytes of partition `n`, as they were placed last. -/
def loadedBytes (n : Nat) (as : List Act) : List UInt8 :=
  match lastPlaced n as with
  | some (_, len, data) => data.load 0 len
  | none => []

def hashedAt (n : Nat) : Act → Option (Nat × List UInt8)
  | .hashed (.partition m) start input => if m = n then some (start, input) else none
  | .hashed (.bitstream m) start input => if m = n then some (start, input) else none
  | _ => none

/-- The ranges hashed for partition `n`: where they start, and their bytes. -/
def hashInputs (n : Nat) (as : List Act) : List (Nat × List UInt8) := as.filterMap (hashedAt n)

theorem lastPlaced_append (n : Nat) (as bs : List Act) :
    lastPlaced n (as ++ bs) = (lastPlaced n bs).or (lastPlaced n as) := by
  simp [lastPlaced, List.filterMap_append, List.getLast?_append]

theorem hashInputs_append (n : Nat) (as bs : List Act) :
    hashInputs n (as ++ bs) = hashInputs n as ++ hashInputs n bs := List.filterMap_append

theorem lastPlaced_eq_none {n : Nat} {as : List Act} (h : ∀ a ∈ as, placedAt n a = none) :
    lastPlaced n as = none := by
  rw [lastPlaced, List.filterMap_eq_nil_iff.2 h]
  rfl

theorem hashInputs_eq_nil {n : Nat} {as : List Act} (h : ∀ a ∈ as, hashedAt n a = none) :
    hashInputs n as = [] := List.filterMap_eq_nil_iff.2 h

/-! ## Acts that neither place nor measure -/

/-- Acts that show in none of the records of a load. -/
structure Act.Quiet (a : Act) : Prop where
  placed : ∀ n, placedAt n a = none
  hashed : ∀ n, hashedAt n a = none
  logged : logged [a] = []
  partition : ∀ w : World, (w.effect a).partition = w.partition

theorem quiet_tcmInit (a : Act) (h : TcmInit a) : a.Quiet := by
  cases a <;> first | exact ⟨fun _ => rfl, fun _ => rfl, rfl, fun _ => rfl⟩ | exact h.elim

theorem quiet_idle (a : Act) (h : a.Idle) : a.Quiet := by
  cases a <;> first | exact ⟨fun _ => rfl, fun _ => rfl, rfl, fun _ => rfl⟩ | exact h.elim

theorem quiet_entryActs (n : Nat) (h : PartitionHeader) (inst : XFsblPs) :
    ∀ a ∈ entryActs n h inst, a.Quiet := by
  intro a ha
  unfold entryActs at ha
  dsimp only at ha
  split at ha
  · obtain rfl := List.mem_singleton.1 ha
    exact ⟨fun _ => rfl, fun _ => rfl, rfl, fun _ => rfl⟩
  · cases ha

/-- What a list of quiet acts leaves. -/
structure QuietActs (as : List Act) : Prop where
  placed : ∀ n, lastPlaced n as = none
  hashed : ∀ n, hashInputs n as = []
  logged : logged as = []
  partition : ∀ w : World, (w.replay as).partition = w.partition

theorem quietActs {as : List Act} (h : ∀ a ∈ as, a.Quiet) : QuietActs as := by
  refine ⟨fun n => lastPlaced_eq_none fun a ha => (h a ha).placed n,
    fun n => hashInputs_eq_nil fun a ha => (h a ha).hashed n, ?_, ?_⟩
  · induction as with
    | nil => rfl
    | cons a as ih =>
      rw [List.forall_mem_cons] at h
      rw [← List.singleton_append, logged_append, h.1.logged, ih h.2]
      rfl
  · induction as with
    | nil => exact fun _ => rfl
    | cons a as ih =>
      rw [List.forall_mem_cons] at h
      intro w
      rw [World.replay_cons, ih h.2, h.1.partition]

/-- What a load adds to the records: where it placed its partition last, what it hashed and logged,
and the counter behind it. -/
structure Recorded (n : Nat) (as : List Act) (placed : Option (Nat × Nat × Mem))
    (hashed : List (Nat × List UInt8)) (events : List Event) (counted : Nat) : Prop where
  placed : lastPlaced n as = placed
  hashed : hashInputs n as = hashed
  logged : logged as = events
  partition : ∀ w : World, (w.replay as).partition = w.partition + counted

theorem QuietActs.recorded {as : List Act} (h : QuietActs as) (n : Nat) :
    Recorded n as none [] [] 0 := ⟨h.placed n, h.hashed n, h.logged, h.partition⟩

theorem Recorded.append {n : Nat} {as bs : List Act} {p q : Option (Nat × Nat × Mem)}
    {hs is : List (Nat × List UInt8)} {es fs : List Event} {j k : Nat}
    (h : Recorded n as p hs es j) (h' : Recorded n bs q is fs k) :
    Recorded n (as ++ bs) (q.or p) (hs ++ is) (es ++ fs) (j + k) := by
  refine ⟨?_, ?_, ?_, fun w => ?_⟩
  · rw [lastPlaced_append, h.placed, h'.placed]
  · rw [hashInputs_append, h.hashed, h'.hashed]
  · rw [logged_append, h.logged, h'.logged]
  · rw [World.replay_append, h'.partition, h.partition, Nat.add_assoc]

theorem recorded_placed (n start len : Nat) (data : Mem) :
    Recorded n [.placed n start len data] (some (start, len, data)) [] [] 0 := by
  refine ⟨?_, rfl, rfl, fun _ => rfl⟩
  simp [lastPlaced, placedAt]

theorem recorded_hashed {n start : Nat} {s : Subject} {input : List UInt8}
    (hs : s = .partition n ∨ s = .bitstream n) :
    Recorded n [.hashed s start input] none [(start, input)] [] 0 := by
  refine ⟨rfl, ?_, rfl, fun _ => rfl⟩
  rcases hs with rfl | rfl <;> simp [hashInputs, hashedAt]

theorem recorded_recordActs (n p : Nat) (d : Digest) :
    Recorded n (recordActs n p d) none [] (ladderEvent p d).toList
      (ladderEvent p d).toList.length := by
  unfold recordActs
  cases h : ladderEvent p d with
  | none => exact ⟨rfl, rfl, rfl, fun _ => rfl⟩
  | some e =>
    refine ⟨rfl, rfl, rfl, fun w => ?_⟩
    simp [World.effect]

/-! ## Addresses and lengths -/

/-- An address as every CPU sees it: moved if it is in the TCM of an R5 the partition is for. -/
def globalAddress (destinationCpu : UInt32) (address : UInt64) : UInt64 :=
  if destinationCpu = xihPhAttrbDestCpuR5_0 ∧ inR5TcmBank address then
    xfsblR50HighAtcmStartAddress + address
  else if destinationCpu = xihPhAttrbDestCpuR5_1 ∧ inR5TcmBank address then
    xfsblR51HighAtcmStartAddress + address
  else if destinationCpu = xihPhAttrbDestCpuR5L ∧ inR5LTcm address then
    xfsblR50HighAtcmStartAddress + address
  else address

/-- A load of partition `n` is not skipped. -/
def ReallyLoaded (inst : XFsblPs) (n : Nat) : Prop :=
  ¬ NotOwned (inst.imageHeader.header n) inst.processorID inst.resetReason ∧
    ¬ PlKept (inst.imageHeader.header n) inst.resetReason

instance (h : PartitionHeader) (resetReason : UInt32) : Decidable (PlKept h resetReason) :=
  inferInstanceAs (Decidable (_ ∧ _))

instance (inst : XFsblPs) (n : Nat) : Decidable (ReallyLoaded inst n) :=
  inferInstanceAs (Decidable (_ ∧ _))

/-- Where a partition is placed. -/
def placedStart (h : PartitionHeader) (runningCpu : UInt32) : Nat :=
  (globalAddress (h.effectiveCpu runningCpu) (plLoadAddress h h.destinationLoadAddress)).toNat

/-- The length decides about an error only. -/
theorem getLoadAddress_ok {destinationCpu length : UInt32} {address x : UInt64}
    (h : getLoadAddress destinationCpu address length = .ok x) :
    x = globalAddress destinationCpu address := by
  have pass {p : Prop} [Decidable p] {code : UInt32} {y : UInt64}
      (hp : (if p then .error code else .ok y : Except UInt32 UInt64) = .ok x) : x = y := by
    split at hp
    · cases hp
    · exact (Except.ok.inj hp).symm
  unfold getLoadAddress at h
  unfold globalAddress
  split at h
  · rw [if_pos (by assumption)]
    exact pass h
  rw [if_neg (by assumption)]
  split at h
  · rw [if_pos (by assumption)]
    exact pass h
  rw [if_neg (by assumption)]
  split at h
  · rw [if_pos (by assumption)]
    exact pass h
  rw [if_neg (by assumption)]
  exact (Except.ok.inj h).symm

theorem globalAddress_high (cpu : UInt32) {a : UInt64} (h : 0x40000 ≤ a.toNat) :
    globalAddress cpu a = a := by
  have bank : ¬ inR5TcmBank a := by
    rintro (⟨-, hlt⟩ | ⟨-, hlt⟩)
    · have hlt : a.toNat < 0x10000 := UInt64.lt_iff_toNat_lt.1 hlt
      omega
    · have hlt : a.toNat < 0x30000 := UInt64.lt_iff_toNat_lt.1 hlt
      omega
  have tcm : ¬ inR5LTcm a := by
    rintro ⟨-, hlt⟩
    have hlt : a.toNat < 0x40000 := UInt64.lt_iff_toNat_lt.1 hlt
    omega
  simp [globalAddress, bank, tcm]

/-- A TCM address does not become the placeholder of a bitstream. -/
theorem eq_dummy_of_globalAddress {cpu : UInt32} {a : UInt64}
    (h : globalAddress cpu a = xfsblDummyPlAddr) : a = xfsblDummyPlAddr := by
  have hd : xfsblDummyPlAddr.toNat = 0xFFFFFFFF := by decide
  by_cases ha : 0x40000 ≤ a.toNat
  · rwa [globalAddress_high cpu ha] at h
  · have moved {b : UInt64} (hb : b.toNat = 0xFFE00000 ∨ b.toNat = 0xFFE90000) :
        b + a ≠ xfsblDummyPlAddr := by
      intro he
      have he := congrArg UInt64.toNat he
      rw [UInt64.toNat_add, hd] at he
      omega
    unfold globalAddress at h
    split at h
    · exact absurd h (moved (.inl (by decide)))
    split at h
    · exact absurd h (moved (.inr (by decide)))
    split at h
    · exact absurd h (moved (.inl (by decide)))
    exact h

/-- Copy and validation choose the temporary address of a bitstream in different orders. -/
theorem globalAddress_pl (h : PartitionHeader) (cpu : UInt32) (a : UInt64) :
    globalAddress cpu (plLoadAddress h a) = plLoadAddress h (globalAddress cpu a) := by
  unfold plLoadAddress
  by_cases hd : h.toPl ∧ a = xfsblDummyPlAddr
  · have hdummy := globalAddress_high cpu (a := xfsblDummyPlAddr) (by decide)
    have htemp := globalAddress_high cpu (a := xfsblDdrTempAddress) (by decide)
    rw [if_pos hd, hd.2, hdummy, if_pos ⟨hd.1, rfl⟩, htemp]
  · rw [if_neg hd, if_neg fun hg => hd ⟨hg.1, eq_dummy_of_globalAddress hg.2⟩]

theorem toNat_shiftLeft_two (x : UInt32) : (x <<< 2).toNat = (x * 4).toNat := by
  rw [UInt32.toNat_shiftLeft, UInt32.toNat_mul, Nat.shiftLeft_eq]
  rfl

/-- The length of the partition as it stays in memory: decrypted, or as copied. -/
def imageLength (h : PartitionHeader) : UInt32 :=
  if h.encrypted then h.unEncryptedDataWordLength * 4 else copyLength h

/-- The measured length covers the placed one: always, but for an authenticated partition that is
not encrypted and is longer up to its certificate. -/
def MeasuredWhole (h : PartitionHeader) : Prop :=
  h.authenticated = true → h.encrypted = false →
    (copyLength h).toNat ≤ (h.unEncryptedDataWordLength <<< 2).toNat

instance (h : PartitionHeader) : Decidable (MeasuredWhole h) :=
  inferInstanceAs (Decidable (_ → _ → _))

/-- The lengths of an accepted header outside the PL. -/
theorem measuredWhole_iff {h : PartitionHeader} {cpu reset : UInt32} (ha : Accepted h cpu reset) :
    MeasuredWhole h ↔ (imageLength h).toNat ≤ (h.unEncryptedDataWordLength <<< 2).toNat := by
  have hl : partitionLengthsOk h = true := by simpa using ha.lengths
  unfold MeasuredWhole imageLength
  rw [toNat_shiftLeft_two]
  cases he : h.encrypted with
  | true => simp
  | false =>
    cases hau : h.authenticated with
    | true => simp
    | false =>
      simp only [partitionLengthsOk, hau, he, Bool.and_eq_true, beq_iff_eq] at hl
      have hc : copyLength h = h.unEncryptedDataWordLength * 4 := by
        simp [copyLength, hau, hl.1, hl.2, xihPartitionWordLength]
      simp [hc]

/-! ## One load -/

/-- What a load of a partition outside the PL placed, hashed and recorded. -/
structure PartitionMeasured (hw : Hw) (n : Nat) (h : PartitionHeader) (partition : Nat)
    (as : List Act) (start : Nat) (input : List UInt8) (d : Digest) : Prop where
  recorded : Recorded n as (lastPlaced n as) [(start, input)] (ladderEvent partition d).toList
    (ladderEvent partition d).toList.length
  start : ∀ p ∈ lastPlaced n as, p.1 = start
  length : input.length = (h.unEncryptedDataWordLength <<< 2).toNat
  loaded : (loadedBytes n as).length = (imageLength h).toNat
  agree : input <+: loadedBytes n as ∨ loadedBytes n as <+: input
  digest : IsDigest hw input d

section Load

variable {hw : Hw} {n : Nat} {h : PartitionHeader} {w w' v : World}

/-- What a copy placed: nothing of a partition in place, else the copied bytes where they now are. -/
theorem CopyActs.placed {copy : List Act} {inst : XFsblPs} {la : UInt64} (u : World)
    (hc : CopyActs n h inst copy) (hk : ¬ PlKept h inst.resetReason)
    (hl : getLoadAddress (h.effectiveCpu inst.processorID) h.destinationLoadAddress
      (h.totalDataWordLength * 4) = .ok la) :
    h.unEncryptedDataWordLength = 0 ∧ Recorded n copy none [] [] 0 ∨
      ∃ (m data : Mem),
        (u.replay copy).mem = m.fill (plLoadAddress h la).toNat (copyLength h).toNat data ∧
        Recorded n copy (some ((plLoadAddress h la).toNat, (copyLength h).toNat, data)) [] [] 0 := by
  cases hc with
  | xip h0 => exact .inl ⟨h0, (quietActs (quiet_entryActs n h _)).recorded n⟩
  | plKept _ hk' => exact absurd hk' hk
  | @copied la' ecc data h0 hk' hl' hecc =>
    obtain rfl : la' = plLoadAddress h la := by
      rw [getLoadAddress_ok hl', getLoadAddress_ok hl, globalAddress_pl]
    have he := (quietActs fun a ha => quiet_tcmInit a (hecc a ha)).recorded n
    refine .inr ⟨(u.replay ecc).mem, data, ?_, he.append (recorded_placed n _ _ data)⟩
    rw [World.replay_append]
    rfl

/-- The acts of a measurement, as records. -/
theorem MeasuredActs.recorded {m : Mem} {la : UInt64} {as : List Act}
    (hm : MeasuredActs hw n h v m la as) :
    ∃ d, let input := m.load la.toNat (h.unEncryptedDataWordLength <<< 2).toNat
      IsDigest hw input d ∧ Recorded n as none [(la.toNat, input)] (ladderEvent v.partition d).toList
        (ladderEvent v.partition d).toList.length := by
  obtain ⟨he, rfl, hd, hi⟩ := hm
  rename_i entry idle d
  have hentry : Recorded n entry none [] [] 0 := by
    refine (quietActs fun a ha => ?_).recorded n
    rw [he] at ha
    split at ha
    · exact quiet_entryActs n h _ a ha
    · cases ha
  have hidle := (quietActs fun a ha => quiet_idle a (hi a ha)).recorded n
  have hhash : Recorded n [.hashed (.partition n) la.toNat
      (m.load la.toNat (h.unEncryptedDataWordLength <<< 2).toNat)] none _ [] 0 :=
    recorded_hashed (.inl rfl)
  have hall := hentry.append ((hhash.append (recorded_recordActs n v.partition d)).append hidle)
  refine ⟨d, hd, ?_⟩
  simpa using hall

theorem PartitionMeasured.of_recorded {as : List Act} {placed : Option (Nat × Nat × Mem)}
    {start p : Nat} {input : List UInt8} {d : Digest}
    (hr : Recorded n as placed [(start, input)] (ladderEvent p d).toList (ladderEvent p d).toList.length)
    (hp : placed = none ∧ (imageLength h).toNat = 0 ∨
      ∃ m data : Mem, placed = some (start, (imageLength h).toNat, data) ∧
        input = (m.fill start (imageLength h).toNat data).load start input.length)
    (hl : input.length = (h.unEncryptedDataWordLength <<< 2).toNat) (hd : IsDigest hw input d) :
    PartitionMeasured hw n h p as start input d := by
  have hrec : Recorded n as (lastPlaced n as) [(start, input)] (ladderEvent p d).toList
      (ladderEvent p d).toList.length := by rwa [hr.placed]
  rcases hp with ⟨rfl, h0⟩ | ⟨m, data, rfl, hin⟩
  · have hb : loadedBytes n as = [] := by rw [loadedBytes, hr.placed]
    refine ⟨hrec, by simp [hr.placed], hl, by rw [hb, h0]; rfl, ?_, hd⟩
    rw [hb]
    exact .inr List.nil_prefix
  · have hb : loadedBytes n as = data.load 0 (imageLength h).toNat := by rw [loadedBytes, hr.placed]
    refine ⟨hrec, by simp [hr.placed], hl, by rw [hb, Mem.length_load], ?_, hd⟩
    rw [hb, hin]
    exact Mem.load_fill_prefix _ _ _ _ _

/-- **What copy and validation outside the PL placed, hashed and recorded.** -/
theorem copied_measured {copy valid : List Act} {la : UInt64} (u : World)
    (hacc : Accepted h w.inst.processorID w.inst.resetReason) (hpl : h.toPl = false)
    (hcopy : CopyActs n h w.inst copy) (hk : ¬ PlKept h w.inst.resetReason)
    (hmem : v.mem = (u.replay copy).mem)
    (hla : getLoadAddress (h.effectiveCpu w.inst.processorID) h.destinationLoadAddress
      (h.totalDataWordLength * 4) = .ok la) (hva : ValidActs hw n h v la valid) :
    ∃ start input d, PartitionMeasured hw n h v.partition (copy ++ valid) start input d := by
  have hcp := hcopy.placed u hk hla
  have hpla : plLoadAddress h la = la := by simp [plLoadAddress, hpl]
  rw [← hmem, hpla] at hcp
  have hzero : h.unEncryptedDataWordLength = 0 → (imageLength h).toNat = 0 := by
    intro h0
    have hle := (measuredWhole_iff hacc).1 fun hau => absurd ⟨h0, .inl hau⟩ hacc.xipPlain
    rw [h0] at hle
    exact Nat.le_zero.1 hle
  cases hva with
  | signedPl hpl' => simp [hpl] at hpl'
  | plainPl _ hpl' => simp [hpl] at hpl'
  | encryptedPl _ hpl' => simp [hpl] at hpl'
  | plain _ he hma =>
    obtain ⟨d, hd, hr⟩ := hma.recorded
    have hlen : imageLength h = copyLength h := by simp [imageLength, he]
    refine ⟨la.toNat, v.mem.load la.toNat (h.unEncryptedDataWordLength <<< 2).toNat, d, ?_⟩
    rcases hcp with ⟨h0, hcr⟩ | ⟨m, data, hfill, hcr⟩
    · have hall := hcr.append hr
      simp only [List.nil_append, Nat.zero_add] at hall
      exact .of_recorded hall (.inl ⟨rfl, hzero h0⟩) (Mem.length_load _ _ _) hd
    · have hall := hcr.append hr
      simp only [List.nil_append, Nat.zero_add, ← hlen] at hall
      refine .of_recorded hall (.inr ⟨m, data, rfl, ?_⟩) (Mem.length_load _ _ _) hd
      rw [hlen, ← hfill, Mem.length_load]
  | decrypted data _ he hma =>
    obtain ⟨d, hd, hr⟩ := hma.recorded
    have hlen : imageLength h = h.unEncryptedDataWordLength * 4 := by simp [imageLength, he]
    rw [← hlen] at hr hd ⊢
    obtain ⟨q, hq⟩ : ∃ q, Recorded n copy q [] [] 0 := by
      rcases hcp with ⟨-, hcr⟩ | ⟨_, _, -, hcr⟩ <;> exact ⟨_, hcr⟩
    have hall := hq.append ((recorded_placed n la.toNat (imageLength h).toNat data).append hr)
    simp only [List.nil_append, Nat.zero_add, Option.none_or, Option.some_or] at hall
    refine ⟨la.toNat, _, d, .of_recorded hall (.inr ⟨v.mem, data, rfl, ?_⟩)
      (Mem.length_load _ _ _) hd⟩
    rw [Mem.length_load]

/-- Quiet acts before and behind do not matter. -/
theorem PartitionMeasured.quiet {as pre post : List Act} {start p : Nat} {input : List UInt8}
    {d : Digest} (hm : PartitionMeasured hw n h p as start input d) (hpre : QuietActs pre)
    (hpost : QuietActs post) :
    PartitionMeasured hw n h p (pre ++ (as ++ post)) start input d := by
  have hall := (hpre.recorded n).append (hm.recorded.append (hpost.recorded n))
  simp only [List.nil_append, List.append_nil, Nat.zero_add, Nat.add_zero, Option.none_or,
    Option.or_none] at hall
  have hb : loadedBytes n (pre ++ (as ++ post)) = loadedBytes n as := by
    rw [loadedBytes, hall.placed, loadedBytes]
  refine ⟨by rwa [hall.placed], by rw [hall.placed]; exact hm.start, hm.length, ?_, ?_, hm.digest⟩
  · rw [hb, hm.loaded]
  · rw [hb]
    exact hm.agree

/-- The same of a whole load. -/
theorem partition_measured (hl : PartitionLoaded hw n h w w')
    (ho : ¬ NotOwned h w.inst.processorID w.inst.resetReason) (hpl : h.toPl = false) :
    ∃ as start input d, Moves as w w' ∧ PartitionMeasured hw n h w.partition as start input d := by
  cases hl with
  | skipped hno => exact absurd hno ho
  | plKept _ _ hk => exact absurd hk.1 (by simp [hpl])
  | @loaded copy valid idle v la _ hacc hk hcopy hmc hla hva hi hmv =>
    rw [hmc.processorID] at hla
    obtain ⟨start, input, d, hm⟩ := copied_measured w hacc hpl hcopy hk hmc.mem hla hva
    have hpart : v.partition = w.partition := by
      rw [hmc.partition]
      rcases hcopy.placed w hk hla with ⟨-, hr⟩ | ⟨_, _, -, hr⟩ <;> exact hr.partition w
    rw [hpart] at hm
    have hchecked : QuietActs [.headerChecked n true] :=
      ⟨fun _ => rfl, fun _ => rfl, rfl, fun _ => rfl⟩
    have hidle := quietActs fun a ha => quiet_idle a (hi a ha)
    have hall := hm.quiet hchecked hidle
    refine ⟨_, start, input, d, ?_, hall⟩
    simpa using hmc.trans hmv

theorem Recorded.bitstream {as : List Act} {placed : Option (Nat × Nat × Mem)} {start k : Nat}
    {input : List UInt8} {es : List Event} {d : Digest}
    (hr : Recorded n as placed [(start, input)] es k)
    (hp : placed = none ∧ input = [] ∨
      ∃ start len data, placed = some (start, len, data) ∧ input = Mem.load data 0 len)
    (hd : IsDigest hw input d) :
    IsDigest hw (loadedBytes n as) d ∧
      Recorded n as (lastPlaced n as) [(start, loadedBytes n as)] es k := by
  have hb : loadedBytes n as = input := by
    rw [loadedBytes, hr.placed]
    rcases hp with ⟨rfl, rfl⟩ | ⟨start, len, data, rfl, rfl⟩ <;> rfl
  rw [hb, hr.placed]
  exact ⟨hd, hr⟩

/-- **What the load of a plain bitstream placed, hashed and recorded**: the size the DMA driver
takes leaves the byte counts of copy and hash without overflow. -/
theorem bitstream_measured (hpcap : ∀ t, hw.call t .pcapWaitForDone = xfsblSuccess)
    (hl : PartitionLoaded hw n h w w') (ho : ¬ NotOwned h w.inst.processorID w.inst.resetReason)
    (hk : ¬ PlKept h w.inst.resetReason) (hpl : h.toPl = true) (hau : h.authenticated = false)
    (he : h.encrypted = false) :
    ∃ as start d, Moves as w w' ∧ IsDigest hw (loadedBytes n as) d ∧
      Recorded n as (lastPlaced n as) [(start, loadedBytes n as)] [bitstreamEvent d] 0 := by
  cases hl with
  | skipped hno => exact absurd hno ho
  | plKept _ _ hk' => exact absurd hk' hk
  | @loaded copy valid idle v la _ hacc _ hcopy hmc hla hva hi hmv =>
    rw [hmc.processorID] at hla
    have hcp := hcopy.placed w hk hla
    have hmem : v.mem = (w.replay copy).mem := hmc.mem
    rw [← hmem] at hcp
    have hchecked : QuietActs [.headerChecked n true] :=
      ⟨fun _ => rfl, fun _ => rfl, rfl, fun _ => rfl⟩
    have hidle := (quietActs fun a ha => quiet_idle a (hi a ha)).recorded n
    have hmoves := hmc.trans hmv
    cases hva with
    | signedPl _ hau' => simp [hau] at hau'
    | encryptedPl _ _ _ he' => simp [he] at he'
    | plain hpl' => simp [hpl] at hpl'
    | decrypted _ hpl' => simp [hpl] at hpl'
    | @plainPl input status d t _ _ _ hsize hs hin hd =>
      rw [hpcap] at hs
      have hrec : Recorded n (bitstreamActs n status d) none [] [bitstreamEvent d] 0 := by
        rw [bitstreamActs, if_neg (not_not.2 hs)]
        exact ⟨rfl, rfl, rfl, fun _ => rfl⟩
      have hhash : Recorded n [.hashed (.bitstream n) (plLoadAddress h la).toNat input] none _ [] 0 :=
        recorded_hashed (.inr rfl)
      have hvalid := (hhash.append hrec).append hidle
      have hlen : (copyLength h).toNat = h.unEncryptedDataWordLength.toNat * 4 := by
        have hle : h.unEncryptedDataWordLength.toNat ≤ 0x07FFFFFF := UInt32.le_iff_toNat_le.1 hsize
        have hlens : partitionLengthsOk h = true := by simpa using hacc.lengths
        simp only [partitionLengthsOk, hau, he, Bool.and_eq_true, beq_iff_eq] at hlens
        rw [copyLength, hau, ← hlens.2, ← hlens.1]
        simp only [Bool.false_and, Bool.false_eq_true, if_false, UInt32.toNat_mul,
          xihPartitionWordLength]
        rw [Nat.mod_eq_of_lt]
        · rfl
        · simp
          omega
      rw [← hlen] at hin
      refine ⟨_, (plLoadAddress h la).toNat, d, hmoves, ?_⟩
      rcases hcp with ⟨h0, hcr⟩ | ⟨m, data, hfill, hcr⟩
      · have hall := ((hchecked.recorded n).append hcr).append hvalid
        simp only [List.nil_append, List.append_nil, Nat.zero_add, Option.none_or] at hall
        have hempty : input = [] := by
          rw [hin, hlen, h0]
          rfl
        exact hall.bitstream (.inl ⟨rfl, hempty⟩) hd
      · have hall := ((hchecked.recorded n).append hcr).append hvalid
        simp only [List.nil_append, List.append_nil, Nat.zero_add, Option.none_or] at hall
        refine hall.bitstream (.inr ⟨_, _, data, rfl, ?_⟩) hd
        rw [hin, hfill, Mem.load_fill (Nat.le_refl _)]

end Load

/-! ## Copy and validation of an accepted partition -/

/-- `as` are the acts of a successful copy and validation of partition `n`, whose header `h` is
accepted and not for the PL. -/
def Places (hw : Hw) (n : Nat) (h : PartitionHeader) (as : List Act) : Prop :=
  ∃ (hn : n < 32) (w v w' : World) (efuseSecCtrl : UInt32),
    w.inst.imageHeader.partitionHeader[n] = h ∧
      validatePartitionHeader h w.inst.processorID w.inst.resetReason efuseSecCtrl = xfsblSuccess ∧
      h.toPl = false ∧ partitionCopy hw n w = .ok () v ∧ partitionValidation hw n v = .ok () w' ∧
      w'.trace = w.trace ++ as

theorem Places.measured {hw : Hw} {n : Nat} {h : PartitionHeader} {as : List Act}
    (hp : Places hw n h as) :
    (MeasuredWhole h ↔ (imageLength h).toNat ≤ (h.unEncryptedDataWordLength <<< 2).toNat) ∧
      ∃ p start input d, PartitionMeasured hw n h p as start input d := by
  obtain ⟨hn, w, v, w', e, rfl, hacc, hpl, hc, hv, ht⟩ := hp
  have hacc := validatePartitionHeader_success hacc
  refine ⟨measuredWhole_iff hacc, ?_⟩
  obtain ⟨copy, hcopy, hmc⟩ := partitionCopy_ok hn hc
  have hk : ¬ PlKept w.inst.imageHeader.partitionHeader[n] w.inst.resetReason :=
    fun hk => absurd hk.1 (by simp [hpl])
  rcases partitionValidation_ok hn hv with ⟨hk', -⟩ | ⟨-, la, valid, hla, hva, hmv⟩
  · rw [hmc.imageHeader, hmc.resetReason] at hk'
    exact absurd hk' hk
  · rw [hmc.imageHeader] at hla hva
    rw [hmc.processorID] at hla
    obtain ⟨start, input, d, hm⟩ := copied_measured w hacc hpl hcopy hk hmc.mem hla hva
    have has : as = copy ++ valid := by
      have hall := (hmc.trans hmv).trace
      rw [ht] at hall
      exact List.append_cancel_left hall
    exact ⟨_, start, input, d, has ▸ hm⟩

theorem prefix_of_length_le {α : Type} {xs ys : List α} (h : xs <+: ys ∨ ys <+: xs)
    (hl : ys.length ≤ xs.length) : ys <+: xs := by
  rcases h with h | h
  · rw [h.eq_of_length_le hl]
  · exact h

/-- **The measured range and the loaded range**: they start at one address, and the measured one
covers what was loaded exactly where the lengths of the header say so; then two images that differ
give different inputs of the hash. -/
theorem measured_range {hw : Hw} {n : Nat} {h : PartitionHeader} {as : List Act}
    (hp : Places hw n h as) :
    (∃ start input, hashInputs n as = [(start, input)] ∧
        (∀ p ∈ lastPlaced n as, p.1 = start) ∧
        input.length = (h.unEncryptedDataWordLength <<< 2).toNat ∧
        (loadedBytes n as).length = (imageLength h).toNat ∧
        (input <+: loadedBytes n as ∨ loadedBytes n as <+: input) ∧
        (MeasuredWhole h ↔ loadedBytes n as <+: input)) ∧
      (MeasuredWhole h → ∀ hw₂ as₂, Places hw₂ n h as₂ →
        loadedBytes n as ≠ loadedBytes n as₂ → hashInputs n as ≠ hashInputs n as₂) := by
  have whole {hw : Hw} {as : List Act} {p start : Nat} {input : List UInt8} {d : Digest}
      (hiff : MeasuredWhole h ↔ (imageLength h).toNat ≤ (h.unEncryptedDataWordLength <<< 2).toNat)
      (hm : PartitionMeasured hw n h p as start input d) :
      MeasuredWhole h ↔ loadedBytes n as <+: input := by
    rw [hiff, ← hm.loaded, ← hm.length]
    exact ⟨prefix_of_length_le hm.agree, List.IsPrefix.length_le⟩
  obtain ⟨hiff, p, start, input, d, hm⟩ := hp.measured
  refine ⟨⟨start, input, hm.recorded.hashed, hm.start, hm.length, hm.loaded, hm.agree,
    whole hiff hm⟩, fun hw' hw₂ as₂ hp₂ hne he => hne ?_⟩
  obtain ⟨-, p₂, start₂, input₂, d₂, hm₂⟩ := hp₂.measured
  rw [hm.recorded.hashed, hm₂.recorded.hashed] at he
  obtain ⟨rfl, rfl⟩ : start = start₂ ∧ input = input₂ := by simpa using he
  have h1 := (whole hiff hm).1 hw'
  have h2 := (whole hiff hm₂).1 hw'
  exact List.IsPrefix.eq_of_length (List.prefix_of_prefix_length_le h1 h2 (by
    rw [hm.loaded, hm₂.loaded])) (by rw [hm.loaded, hm₂.loaded])

/-! ## A partition longer than its hash -/

/-- An authenticated partition of 16 bytes with 16 bytes more before its certificate; its byte 20
is `b`. -/
def signedBoard (b : UInt8) : Board :=
  { qspiBoard [{ enc := 4, unEnc := 4, total := 952, attributes := 0x8100 }] with
    data := fun i => if i = 20 then b else 0 }

/-- The state in which partition 1 of a board is copied. -/
def Board.beforeCopy (b : Board) : World := { (b.after 2).world with trace := [] }

/-- The state behind copy and validation of partition 1. -/
def Board.behindValidation (b : Board) : World :=
  final (partitionValidation b.hw 1 (final (partitionCopy b.hw 1 b.beforeCopy)))

theorem Board.places {b : Board} {h : PartitionHeader}
    (hh : b.beforeCopy.inst.imageHeader.partitionHeader[1] = h)
    (ha : validatePartitionHeader h b.beforeCopy.inst.processorID b.beforeCopy.inst.resetReason 0 =
      xfsblSuccess) (hpl : h.toPl = false)
    (hc : succeeded (partitionCopy b.hw 1 b.beforeCopy) = true)
    (hv : succeeded (partitionValidation b.hw 1 (final (partitionCopy b.hw 1 b.beforeCopy))) = true) :
    Places b.hw 1 h b.behindValidation.trace :=
  ⟨by decide, b.beforeCopy, _, _, 0, hh, ha, hpl, eq_ok_final hc, eq_ok_final hv, rfl⟩

/-- Partition 1 of these boards, whatever `b` is. -/
def signedHeader : PartitionHeader :=
  (signedBoard 0).beforeCopy.inst.imageHeader.partitionHeader[1]

theorem signedBoard_places_zero :
    Places (signedBoard 0).hw 1 signedHeader (signedBoard 0).behindValidation.trace :=
  Board.places rfl (by decide +kernel) (by decide +kernel) (by decide +kernel) (by decide +kernel)

theorem signedBoard_places_one :
    Places (signedBoard 1).hw 1 signedHeader (signedBoard 1).behindValidation.trace :=
  Board.places (by decide +kernel) (by decide +kernel) (by decide +kernel) (by decide +kernel)
    (by decide +kernel)

theorem measured_range_signedBoard :
    ∃ start input, hashInputs 1 (signedBoard 0).behindValidation.trace = [(start, input)] ∧
      (MeasuredWhole signedHeader ↔
        loadedBytes 1 (signedBoard 0).behindValidation.trace <+: input) := by
  obtain ⟨⟨start, input, hi, -, -, -, -, hw⟩, -⟩ := measured_range signedBoard_places_zero
  exact ⟨start, input, hi, hw⟩

/-- Two images that differ in byte 20, which is loaded, and give one input of the hash. -/
theorem not_measured_range :
    ¬ ∀ (hw hw₂ : Hw) (n : Nat) (h : PartitionHeader) (as as₂ : List Act), Places hw n h as →
      Places hw₂ n h as₂ → loadedBytes n as ≠ loadedBytes n as₂ →
      hashInputs n as ≠ hashInputs n as₂ := by
  intro h
  have hd := h _ _ _ _ _ _ signedBoard_places_zero signedBoard_places_one (by decide +kernel)
  exact hd (by decide +kernel)

end MeasuredBoot
