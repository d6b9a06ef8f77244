import MeasuredBoot.HeaderReads

/-!
# The handoff parameters for ATF

`atfPartitions` are the partitions ATF is to be told about; `AtfFlags` is what the flags of an entry
mean, by the bit mapping of `xfsbl_image_header.h`. The loop over the headers fills the entries
in order, eight at most, but leaves the count as it finds it where there is none, and writes the CPU
of a header that names none as A53-3. `atfListed_iff` says for which images the
parameters come out as they are meant.
-/

namespace MeasuredBoot

open Prog

/-! ## The flags -/

/-- Execution state (bit 0), endianness (1), secure state (2), exception level (3:4), CPU (5:6). -/
structure AtfFlags where
  execState : Bool
  endian : Bool
  secure : Bool
  exceptionLevel : BitVec 2
  cpu : BitVec 2
  deriving DecidableEq

/-- What the flags of an entry say. -/
def AtfFlags.decode (flags : UInt64) : AtfFlags where
  execState := flags.toBitVec.getLsbD 0
  endian := flags.toBitVec.getLsbD 1
  secure := flags.toBitVec.getLsbD 2
  exceptionLevel := flags.toBitVec.extractLsb' 3 2
  cpu := flags.toBitVec.extractLsb' 5 2

/-- The number of an A53. -/
def a53Number (cpuId : UInt32) : BitVec 2 := BitVec.ofNat 2 ((cpuId >>> 8).toNat - 1)

/-- What a header says, with the running CPU where it names none. -/
def PartitionHeader.atfFlags (h : PartitionHeader) (runningCpu : UInt32) : AtfFlags where
  execState := h.partitionAttributes.toBitVec.getLsbD 3
  endian := h.partitionAttributes.toBitVec.getLsbD 18
  secure := h.partitionAttributes.toBitVec.getLsbD 0
  exceptionLevel := h.partitionAttributes.toBitVec.extractLsb' 1 2
  cpu := a53Number (h.effectiveCpu runningCpu)

/-- The flag bits of the CPU. -/
def atfCpuFlag (cpuId : UInt32) : UInt32 :=
  if cpuId = xihPhAttrbDestCpuA53_0 then 0x00
  else if cpuId = xihPhAttrbDestCpuA53_1 then 0x20
  else if cpuId = xihPhAttrbDestCpuA53_2 then 0x40
  else 0x60

section Flags

variable (h : PartitionHeader)

theorem atfPartitionFlags_eq : atfPartitionFlags h =
    ((h.partitionAttributes &&& xihPhAttrbA53ExecStMask) >>> 3) |||
      ((h.partitionAttributes &&& xihPhAttrbEndianMask) >>> 17) |||
      ((h.partitionAttributes &&& xihPhAttrbTrSecureMask) <<< 2) |||
      ((h.partitionAttributes &&& xihPhAttrbTargetElMask) <<< 2) |||
      atfCpuFlag h.getDestinationCpu := by
  unfold atfPartitionFlags atfCpuFlag
  dsimp only
  repeat' split
  all_goals rfl

theorem atfCpuFlag_low (c : UInt32) : ∀ i < 5, (atfCpuFlag c).toBitVec.getLsbD i = false := by
  unfold atfCpuFlag
  repeat' split
  all_goals decide

/-- The bits of the flags below the CPU are those of the attributes. -/
theorem getLsbD_atfPartitionFlags {i : Nat} (hi : i < 7) :
    (atfPartitionFlags h).toUInt64.toBitVec.getLsbD i =
      match i with
      | 0 => h.partitionAttributes.toBitVec.getLsbD 3
      | 1 => h.partitionAttributes.toBitVec.getLsbD 18
      | 2 => h.partitionAttributes.toBitVec.getLsbD 0
      | 3 => h.partitionAttributes.toBitVec.getLsbD 1
      | 4 => h.partitionAttributes.toBitVec.getLsbD 2
      | i => (atfCpuFlag h.getDestinationCpu).toBitVec.getLsbD i := by
  have hlow := atfCpuFlag_low h.getDestinationCpu
  rw [atfPartitionFlags_eq]
  generalize atfCpuFlag h.getDestinationCpu = c at hlow ⊢
  generalize h.partitionAttributes = a
  have hbits : (((a &&& xihPhAttrbA53ExecStMask) >>> 3) |||
      ((a &&& xihPhAttrbEndianMask) >>> 17) |||
      ((a &&& xihPhAttrbTrSecureMask) <<< 2) |||
      ((a &&& xihPhAttrbTargetElMask) <<< 2) ||| c).toBitVec =
      ((a.toBitVec &&& 0x8#32) >>> 3) ||| ((a.toBitVec &&& 0x40000#32) >>> 17) |||
        ((a.toBitVec &&& 0x1#32) <<< 2) ||| ((a.toBitVec &&& 0x6#32) <<< 2) ||| c.toBitVec := rfl
  rw [UInt32.toBitVec_toUInt64, hbits]
  generalize a.toBitVec = x
  have hmask (m : BitVec 32) (j : Nat) : (x &&& m).getLsbD j = (x.getLsbD j && m.getLsbD j) :=
    BitVec.getLsbD_and
  simp only [BitVec.getLsbD_setWidth, BitVec.getLsbD_or, BitVec.getLsbD_ushiftRight,
    BitVec.getLsbD_shiftLeft, hmask]
  match i, hi with
  | 0, _ => rw [hlow 0 (by decide)]; simp
  | 1, _ => rw [hlow 1 (by decide)]; simp
  | 2, _ => rw [hlow 2 (by decide)]; simp
  | 3, _ => rw [hlow 3 (by decide)]; simp
  | 4, _ => rw [hlow 4 (by decide)]; simp
  | 5, _ => simp
  | 6, _ => simp

/-- The flags say what the header says, apart from the CPU. -/
theorem decode_atfPartitionFlags (runningCpu : UInt32) :
    AtfFlags.decode (atfPartitionFlags h).toUInt64 = { h.atfFlags runningCpu with
      cpu := (atfCpuFlag h.getDestinationCpu).toBitVec.extractLsb' 5 2 } := by
  have hbit {i : Nat} (hi : i < 7) := getLsbD_atfPartitionFlags h hi
  unfold AtfFlags.decode PartitionHeader.atfFlags
  rw [hbit (i := 0) (by decide), hbit (i := 1) (by decide), hbit (i := 2) (by decide)]
  congr 1
  · ext k hk
    rw [BitVec.getElem_extractLsb', BitVec.getElem_extractLsb']
    match k, hk with
    | 0, _ => exact hbit (i := 3) (by decide)
    | 1, _ => exact hbit (i := 4) (by decide)
  · ext k hk
    rw [BitVec.getElem_extractLsb', BitVec.getElem_extractLsb']
    match k, hk with
    | 0, _ => exact hbit (i := 5) (by decide)
    | 1, _ => exact hbit (i := 6) (by decide)

end Flags

/-- A CPU of a header that is not below A53-0 and not above A53-3 is one of the four. -/
theorem a53_cases {a : UInt32} (h0 : a &&& xihPhAttrbDestCpuMask ≥ xihPhAttrbDestCpuA53_0)
    (h3 : a &&& xihPhAttrbDestCpuMask ≤ xihPhAttrbDestCpuA53_3) :
    a &&& xihPhAttrbDestCpuMask ∈ [xihPhAttrbDestCpuA53_0, xihPhAttrbDestCpuA53_1,
      xihPhAttrbDestCpuA53_2, xihPhAttrbDestCpuA53_3] := by
  have hmask : (a &&& xihPhAttrbDestCpuMask) &&& xihPhAttrbDestCpuMask =
      a &&& xihPhAttrbDestCpuMask := by
    rw [UInt32.and_assoc, UInt32.and_self]
  generalize a &&& xihPhAttrbDestCpuMask = c at h0 h3 hmask ⊢
  have hle : c.toNat ≤ 0x400 := UInt32.le_iff_toNat_le.1 h3
  have hge : 0x100 ≤ c.toNat := UInt32.le_iff_toNat_le.1 h0
  have hand : c.toNat &&& 0xF00 = c.toNat := by
    have h := congrArg UInt32.toNat hmask
    rwa [UInt32.toNat_and] at h
  have hc := cpu_values _ (by omega) hand
  rw [← UInt32.ofNat_toNat (x := c)]
  generalize c.toNat = k at hc hle hge ⊢
  simp only [List.mem_cons, List.not_mem_nil, or_false] at hc
  rcases hc with rfl | rfl | rfl | rfl | rfl | rfl | rfl | rfl | rfl
  all_goals first | omega | decide

/-- **The flags decode to the header's own** where it names its CPU, or A53-3 stands in. -/
theorem decode_iff {h : PartitionHeader} {runningCpu : UInt32}
    (h0 : h.effectiveCpu runningCpu ≥ xihPhAttrbDestCpuA53_0)
    (h3 : h.effectiveCpu runningCpu ≤ xihPhAttrbDestCpuA53_3) :
    AtfFlags.decode (atfPartitionFlags h).toUInt64 = h.atfFlags runningCpu ↔
      (h.getDestinationCpu = xihPhAttrbDestCpuNone → runningCpu = xihPhAttrbDestCpuA53_3) := by
  rw [decode_atfPartitionFlags h runningCpu]
  have hcpu : ({ h.atfFlags runningCpu with
      cpu := (atfCpuFlag h.getDestinationCpu).toBitVec.extractLsb' 5 2 } = h.atfFlags runningCpu) ↔
      (atfCpuFlag h.getDestinationCpu).toBitVec.extractLsb' 5 2 =
        a53Number (h.effectiveCpu runningCpu) := by
    constructor
    · exact fun he => congrArg AtfFlags.cpu he
    · intro he
      rw [he]
      rfl
  rw [hcpu]
  unfold PartitionHeader.effectiveCpu at h0 h3 ⊢
  by_cases hn : h.getDestinationCpu = xihPhAttrbDestCpuNone
  · rw [if_pos hn] at h0 h3 ⊢
    rw [hn]
    have hle : runningCpu.toNat ≤ 0x400 := UInt32.le_iff_toNat_le.1 h3
    have hge : 0x100 ≤ runningCpu.toNat := UInt32.le_iff_toNat_le.1 h0
    have hnumber : a53Number runningCpu = BitVec.ofNat 2 (runningCpu.toNat / 256 - 1) := by
      rw [a53Number, UInt32.toNat_shiftRight, Nat.shiftRight_eq_div_pow]
      rfl
    have hthree : (atfCpuFlag xihPhAttrbDestCpuNone).toBitVec.extractLsb' 5 2 = 3#2 := by decide
    rw [hthree, hnumber]
    constructor
    · intro he _
      have h3 := congrArg BitVec.toNat he
      rw [BitVec.toNat_ofNat] at h3
      refine UInt32.toNat.inj ?_
      show runningCpu.toNat = 0x400
      simp at h3
      omega
    · intro hr
      rw [hr rfl]
      decide
  · rw [if_neg hn] at h0 h3 ⊢
    refine iff_of_true ?_ fun hc => absurd hc hn
    have hmem := a53_cases h0 h3
    change h.getDestinationCpu ∈ _ at hmem
    generalize h.getDestinationCpu = c at hmem ⊢
    simp only [List.mem_cons, List.not_mem_nil, or_false] at hmem
    rcases hmem with rfl | rfl | rfl | rfl
    all_goals decide

/-! ## The partitions for ATF -/

/-- ATF is told about a partition behind the first two that has an execution address and an A53. -/
def ToldToAtf (h : PartitionHeader) (runningCpu : UInt32) (index : Nat) : Prop :=
  1 < index ∧ h.destinationExecutionAddress ≠ 0 ∧
    h.effectiveCpu runningCpu ≥ xihPhAttrbDestCpuA53_0 ∧
    h.effectiveCpu runningCpu ≤ xihPhAttrbDestCpuA53_3

instance (h : PartitionHeader) (runningCpu : UInt32) (index : Nat) :
    Decidable (ToldToAtf h runningCpu index) := inferInstanceAs (Decidable (_ ∧ _))

/-- The partitions of an image ATF is told about. -/
def atfPartitions (i : ImageHeader) (runningCpu : UInt32) : List Nat :=
  ((List.range i.imageHeaderTable.noOfPartitions.toNat).filter fun k =>
    ToldToAtf (i.header k) runningCpu k).take xfsblMaxEntriesForAtf

/-- The parameters list these partitions: their number, and for each the execution address and
flags that decode to what its header says. -/
structure AtfListed (p : ATFHandoffParams) (i : ImageHeader) (runningCpu : UInt32) : Prop where
  count : p.numEntries.toNat = (atfPartitions i runningCpu).length
  entries : ∀ j k : Nat, (atfPartitions i runningCpu)[j]? = some k → ∃ flags,
    p.entry[j]? = some ((i.header k).destinationExecutionAddress, flags) ∧
      AtfFlags.decode flags = (i.header k).atfFlags runningCpu

/-- The headers of a list ATF is told about, the first of them with number `index`. -/
def toldHeaders (runningCpu : UInt32) : Nat → List PartitionHeader → List PartitionHeader
  | _, [] => []
  | index, h :: hs =>
    if ToldToAtf h runningCpu index then h :: toldHeaders runningCpu (index + 1) hs
    else toldHeaders runningCpu (index + 1) hs

/-- The parameters have these headers' entries, as the code writes them; `stale` is the count
found. -/
structure Fills (stale : UInt32) (p : ATFHandoffParams) (hs : List PartitionHeader) : Prop where
  fits : hs.length ≤ xfsblMaxEntriesForAtf
  count : p.numEntries = if hs = [] then stale else UInt32.ofNat hs.length
  entries : ∀ (j : Nat) (h : PartitionHeader), hs[j]? = some h →
    p.entry[j]? = some (h.destinationExecutionAddress, (atfPartitionFlags h).toUInt64)

section Store

variable {cpu stale : UInt32} {index entryCount : Nat} {h : PartitionHeader}
  {hs told : List PartitionHeader} {i : ImageHeader} {p : ATFHandoffParams}

theorem isAtfEntry_iff : isAtfEntry h cpu index entryCount = true ↔
    ToldToAtf h cpu index ∧ entryCount < xfsblMaxEntriesForAtf := by
  simp only [isAtfEntry, ToldToAtf, Bool.and_eq_true, decide_eq_true_eq, bne_iff_ne]
  constructor
  · rintro ⟨⟨⟨⟨h1, h2⟩, h3⟩, h4⟩, h5⟩
    exact ⟨⟨h1, h3, h4, h5⟩, h2⟩
  · rintro ⟨⟨h1, h3, h4, h5⟩, h2⟩
    exact ⟨⟨⟨⟨h1, h2⟩, h3⟩, h4⟩, h5⟩

/-- One more entry. -/
theorem Fills.set (hf : Fills stale p told) (hlt : told.length < xfsblMaxEntriesForAtf) :
    Fills stale (setATFHandoffParameters p h told.length) (told ++ [h]) := by
  have hlt8 : told.length < 8 := hlt
  refine ⟨by rw [List.length_append]; exact hlt, ?_, fun j g hg => ?_⟩
  · rw [if_neg (by simp), List.length_append]
    exact UInt32.toNat.inj (by simp [setATFHandoffParameters])
  · show (p.entry.setIfInBounds told.length _)[j]? = _
    rw [Vector.getElem?_setIfInBounds]
    by_cases hj : told.length = j
    · subst hj
      rw [List.getElem?_append_right (Nat.le_refl _), Nat.sub_self, List.getElem?_cons_zero] at hg
      obtain rfl := Option.some.inj hg
      rw [if_pos rfl, if_pos hlt8]
    · rw [if_neg hj]
      refine hf.entries j g ?_
      obtain ⟨hlen, -⟩ := List.getElem?_eq_some_iff.1 hg
      rw [List.length_append, List.length_singleton] at hlen
      rwa [List.getElem?_append_left (by omega)] at hg

/-- **The loop fills the entries in header order**, eight at most. -/
theorem storeHeaders_fills (hf : Fills stale p told) :
    Fills stale (storeHeaders cpu hs index told.length (i, p)).2
      ((told ++ toldHeaders cpu index hs).take xfsblMaxEntriesForAtf) := by
  induction hs generalizing index i p told with
  | nil =>
    rw [toldHeaders, List.append_nil, List.take_of_length_le hf.fits]
    exact hf
  | cons h hs ih =>
    unfold storeHeaders
    dsimp only
    by_cases he : isAtfEntry h cpu index told.length = true
    · obtain ⟨htold, hlt⟩ := isAtfEntry_iff.1 he
      rw [if_pos he, if_pos he, toldHeaders, if_pos htold]
      have hnext := @ih (index + 1) (told ++ [h])
        { i with partitionHeader := i.partitionHeader.setIfInBounds index h }
        (setATFHandoffParameters p h told.length) (hf.set hlt)
      rw [List.length_append, List.append_assoc] at hnext
      exact hnext
    · rw [if_neg he, if_neg he, toldHeaders]
      have hnext := @ih (index + 1) told
        { i with partitionHeader := i.partitionHeader.setIfInBounds index h } p hf
      by_cases htold : ToldToAtf h cpu index
      · -- the entries are used up
        rw [if_pos htold]
        have hfull : told.length = xfsblMaxEntriesForAtf :=
          Nat.le_antisymm hf.fits (Nat.not_lt.1 fun hlt => he (isAtfEntry_iff.2 ⟨htold, hlt⟩))
        rw [List.take_append_of_le_length (Nat.le_of_eq hfull.symm)] at hnext ⊢
        exact hnext
      · rw [if_neg htold]
        exact hnext

/-- The headers stored are those found. -/
theorem storeHeaders_headers (hi : index + hs.length ≤ 32) :
    (∀ (j : Nat) (h : PartitionHeader), hs[j]? = some h →
        (storeHeaders cpu hs index entryCount (i, p)).1.header (index + j) = h) ∧
      (∀ k < index, (storeHeaders cpu hs index entryCount (i, p)).1.header k = i.header k) ∧
      (storeHeaders cpu hs index entryCount (i, p)).1.imageHeaderTable = i.imageHeaderTable := by
  induction hs generalizing index entryCount i p with
  | nil => exact ⟨fun j h hj => by simp at hj, fun _ _ => rfl, rfl⟩
  | cons h hs ih =>
    rw [List.length_cons] at hi
    have hset (k : Nat) : ImageHeader.header
        { i with partitionHeader := i.partitionHeader.setIfInBounds index h } k =
        if k = index then h else i.header k := ImageHeader.header_setIfInBounds (by omega)
    unfold storeHeaders
    dsimp only
    obtain ⟨hfound, hkept, htable⟩ := @ih (index + 1)
      (if isAtfEntry h cpu index entryCount then entryCount + 1 else entryCount)
      { i with partitionHeader := i.partitionHeader.setIfInBounds index h }
      (if isAtfEntry h cpu index entryCount then setATFHandoffParameters p h entryCount else p)
      (by omega)
    refine ⟨fun j g hg => ?_, fun k hk => ?_, htable⟩
    · cases j with
      | zero =>
        obtain rfl := Option.some.inj hg
        exact (hkept index (Nat.lt_succ_self index)).trans (by rw [hset, if_pos rfl])
      | succ j =>
        have hnext := hfound j g hg
        rwa [show index + 1 + j = index + (j + 1) by omega] at hnext
    · rw [hkept k (by omega), hset, if_neg (by omega)]

/-- The told headers by their numbers. -/
theorem toldHeaders_eq {f : Nat → PartitionHeader}
    (hf : ∀ (j : Nat) (h : PartitionHeader), hs[j]? = some h → f (index + j) = h) :
    toldHeaders cpu index hs =
      ((List.range' index hs.length).filter fun k => ToldToAtf (f k) cpu k).map f := by
  induction hs generalizing index with
  | nil => rfl
  | cons h hs ih =>
    have hhead : f index = h := hf 0 h rfl
    have htail := @ih (index + 1) fun j g hg => by
      rw [show index + 1 + j = index + (j + 1) by omega]
      exact hf (j + 1) g hg
    rw [toldHeaders, List.length_cons, List.range'_succ, htail]
    by_cases htold : ToldToAtf h cpu index
    · rw [if_pos htold, List.filter_cons_of_pos (by rw [hhead]; exact decide_eq_true htold),
        List.map_cons, hhead]
    · rw [if_neg htold, List.filter_cons_of_neg (by rw [hhead]; simpa using htold)]

end Store

/-! ## The whole read -/

section Read

variable {hw : Hw} {cpu F T address : UInt32} {fromImageHdr : Bool}
  {remaining index entryCount : Nat} {w w' : World} {u : Unit}

/-- A loop that succeeds stores the headers it read. -/
theorem readPartitionHeaders_stores (hi : index + remaining ≤ 32)
    (h : readPartitionHeaders hw fromImageHdr F cpu T remaining index address entryCount w =
      .ok u w') :
    ∃ hs, hs.length = remaining ∧
      w'.headers = storeHeaders cpu hs index entryCount w.headers := by
  induction remaining generalizing index address entryCount w with
  | zero =>
    obtain ⟨-, rfl⟩ := pure_ok.1 h
    exact ⟨[], rfl, rfl⟩
  | succ remaining ih =>
    obtain ⟨bytes, v, hread, -⟩ := bind_ok.1 h
    have hticks : Ticks w v := (frame_readHeaderBytes hw _ _ _).ok hread
    have hv : v.headers = w.headers := by
      obtain ⟨k, rfl⟩ := hticks
      rfl
    rw [readPartitionHeaders_read (by omega) hread rfl] at h
    obtain ⟨hs, hlen, hw'⟩ := ih (by omega) h
    refine ⟨PartitionHeader.ofBytes bytes :: hs, by rw [List.length_cons, hlen], ?_⟩
    rw [hw', storeHeaders_cons hv]

/-- A read of all headers fills the entries of the partitions for ATF. -/
theorem readImageHeader_fills
    (hs : validateImageHeaderTable w'.inst.imageHeader.imageHeaderTable = xfsblSuccess)
    (h : readImageHeader hw fromImageHdr F cpu T w = .ok u w') :
    Fills w.atfHandoffParams.numEntries w'.atfHandoffParams
      ((atfPartitions w'.inst.imageHeader cpu).map w'.inst.imageHeader.header) := by
  obtain ⟨bytes, v, hread, -⟩ := bind_ok.1 h
  have hticks : Ticks w v := (frame_readHeaderBytes hw _ _ _).ok hread
  obtain ⟨k, rfl⟩ := hticks
  rw [readImageHeader_read hread rfl] at h
  generalize ImageHeaderTable.ofBytes bytes = t at h
  split at h
  · rename_i hsec
    obtain ⟨-, rfl⟩ := pure_ok.1 h
    have hs : validateImageHeaderTable t = xfsblSuccess := hs
    rw [hsec] at hs
    exact absurd hs (by decide)
  obtain ⟨_, v₁, h1, h⟩ := bind_ok.1 h
  obtain ⟨hval, rfl⟩ := ensure_ok.1 h1
  obtain ⟨-, -, h32⟩ := validateImageHeaderTable_success hval
  obtain ⟨found, hlen, hw'⟩ := readPartitionHeaders_stores (by omega) h
  have hheaders : (w'.inst.imageHeader, w'.atfHandoffParams) = storeHeaders cpu found 0 0
      ({ w.inst.imageHeader with imageHeaderTable := t }, w.atfHandoffParams) := hw'
  have himage := congrArg Prod.fst hheaders
  have hatf := congrArg Prod.snd hheaders
  obtain ⟨hfound, -, htable⟩ := @storeHeaders_headers cpu 0 0 found
    { w.inst.imageHeader with imageHeaderTable := t } w.atfHandoffParams (by omega)
  rw [← himage] at hfound htable
  have hnil : Fills w.atfHandoffParams.numEntries w.atfHandoffParams [] :=
    ⟨Nat.zero_le _, by rw [if_pos rfl], fun j h hj => by simp at hj⟩
  have hfills := @storeHeaders_fills cpu _ 0 found []
    { w.inst.imageHeader with imageHeaderTable := t } w.atfHandoffParams hnil
  have htold := @toldHeaders_eq cpu 0 found w'.inst.imageHeader.header hfound
  rw [List.length_nil, ← hatf, List.nil_append, htold, hlen, ← List.map_take] at hfills
  unfold atfPartitions
  have htable' : w'.inst.imageHeader.imageHeaderTable = t := htable
  rw [htable', List.range_eq_range']
  exact hfills

theorem told_of_mem {i : ImageHeader} {k : Nat} (h : k ∈ atfPartitions i cpu) :
    ToldToAtf (i.header k) cpu k := by
  have hk := List.mem_of_mem_take h
  rw [List.mem_filter] at hk
  exact of_decide_eq_true hk.2

/-- **When the parameters come out right**: the count is zero to begin with or there is an entry, and
each entry's header names its CPU or A53-3 runs the FSBL. -/
theorem atfListed_iff
    (hs : validateImageHeaderTable w'.inst.imageHeader.imageHeaderTable = xfsblSuccess)
    (h : readImageHeader hw fromImageHdr F cpu T w = .ok u w') :
    AtfListed w'.atfHandoffParams w'.inst.imageHeader cpu ↔
      (atfPartitions w'.inst.imageHeader cpu = [] → w.atfHandoffParams.numEntries = 0) ∧
        ∀ k ∈ atfPartitions w'.inst.imageHeader cpu,
          (w'.inst.imageHeader.header k).getDestinationCpu = xihPhAttrbDestCpuNone →
            cpu = xihPhAttrbDestCpuA53_3 := by
  obtain ⟨hfits, hcount, hentries⟩ := readImageHeader_fills hs h
  have hmem {k : Nat} (hk : k ∈ atfPartitions w'.inst.imageHeader cpu) := told_of_mem hk
  generalize w'.inst.imageHeader = i at *
  -- what the code wrote for the entries
  have hentry (j k : Nat) (hj : (atfPartitions i cpu)[j]? = some k) :
      w'.atfHandoffParams.entry[j]? = some ((i.header k).destinationExecutionAddress,
        (atfPartitionFlags (i.header k)).toUInt64) :=
    hentries j _ (by rw [List.getElem?_map, hj, Option.map_some])
  have hdecode {k : Nat} (hk : k ∈ atfPartitions i cpu) :=
    decode_iff (hmem hk).2.2.1 (hmem hk).2.2.2
  have hnum : w'.atfHandoffParams.numEntries.toNat = (atfPartitions i cpu).length ↔
      (atfPartitions i cpu = [] → w.atfHandoffParams.numEntries = 0) := by
    rw [List.length_map] at hfits
    generalize atfPartitions i cpu = ks at hcount hfits ⊢
    cases ks with
    | nil =>
      rw [hcount, List.map_nil, if_pos rfl]
      exact ⟨fun hz _ => UInt32.toNat.inj hz, fun hz => by rw [hz rfl]; rfl⟩
    | cons k ks =>
      have h8 : (k :: ks).length ≤ 8 := hfits
      rw [hcount, if_neg (by simp), List.length_map]
      refine iff_of_true ?_ nofun
      rw [UInt32.toNat_ofNat_of_lt' (by rw [UInt32.size]; omega)]
  constructor
  · rintro ⟨hn, he⟩
    refine ⟨hnum.1 hn, fun k hk => (hdecode hk).1 ?_⟩
    obtain ⟨j, hj⟩ := List.mem_iff_getElem?.1 hk
    obtain ⟨flags, hflags, hd⟩ := he j k hj
    rw [hentry j k hj] at hflags
    obtain ⟨-, rfl⟩ := Prod.mk.inj (Option.some.inj hflags)
    exact hd
  · rintro ⟨hz, hc⟩
    refine ⟨hnum.2 hz, fun j k hj => ⟨_, hentry j k hj, ?_⟩⟩
    have hk := List.mem_of_getElem? hj
    exact (hdecode hk).2 (hc k hk)

/-- Three partitions, of which ATF is told about the last. -/
def atfBoard (attributes : UInt32) : Board := qspiBoard [{}, { attributes }]

/-- The first world, with a boot device. -/
def flashWorld : World :=
  { powerOn.world with inst := { powerOn.world.inst with deviceOps := some .qspi24 } }

/-- The read of a board's headers from flash, by an A53. -/
abbrev Board.readHeaders (b : Board) : EStateM.Result Halt World Unit :=
  readImageHeader b.hw false 0 xihPhAttrbDestCpuA53_0 0x8C0 flashWorld

theorem atfListed_iff_atfBoard :
    AtfListed (final (atfBoard 0x200).readHeaders).atfHandoffParams
        (final (atfBoard 0x200).readHeaders).inst.imageHeader xihPhAttrbDestCpuA53_0 ↔
      (atfPartitions (final (atfBoard 0x200).readHeaders).inst.imageHeader xihPhAttrbDestCpuA53_0 =
          [] → flashWorld.atfHandoffParams.numEntries = 0) ∧
        ∀ k ∈ atfPartitions (final (atfBoard 0x200).readHeaders).inst.imageHeader
            xihPhAttrbDestCpuA53_0,
          ((final (atfBoard 0x200).readHeaders).inst.imageHeader.header k).getDestinationCpu =
              xihPhAttrbDestCpuNone → xihPhAttrbDestCpuA53_0 = xihPhAttrbDestCpuA53_3 :=
  atfListed_iff (by decide +kernel) (eq_ok_final (r := (atfBoard 0x200).readHeaders)
    (by decide +kernel))

/-- A partition for the running CPU is told to ATF as one for A53-3. -/
theorem not_atfListed :
    ¬ ∀ (hw : Hw) (fromImageHdr : Bool) (F cpu T : UInt32) (w w' : World),
      validateImageHeaderTable w'.inst.imageHeader.imageHeaderTable = xfsblSuccess →
      readImageHeader hw fromImageHdr F cpu T w = .ok () w' →
      AtfListed w'.atfHandoffParams w'.inst.imageHeader cpu := by
  intro h
  have hlisted := h (atfBoard 0).hw false 0 xihPhAttrbDestCpuA53_0 0x8C0 _
    (final (atfBoard 0).readHeaders) (by decide +kernel)
    (eq_ok_final (r := (atfBoard 0).readHeaders) (by decide +kernel))
  obtain ⟨flags, hflags, hd⟩ := hlisted.entries 0 2 (by decide +kernel)
  have hwritten : (final (atfBoard 0).readHeaders).atfHandoffParams.entry[0]? =
      some (0x100000, 0x60) := by decide +kernel
  rw [hwritten] at hflags
  obtain ⟨-, rfl⟩ := Prod.mk.inj (Option.some.inj hflags)
  revert hd
  decide +kernel

end Read

end MeasuredBoot
