import MeasuredBoot.DdrSpd
import MeasuredBoot.Lib.Tables

/-!
# The HIF tables of the address map

The routines that fill `HifAddr`, one for each mapping, and the table they leave: its entries are the stretches of
`layout` (`hifAddr_eq`), moved down by one entry for each halving of the bus. Column bit 2 is
then below the index its search starts from (`notMem_hifTable`).
-/

namespace MeasuredBoot.Ddr

open Table

/-! ## Source -/

/-- `u32 HifAddr[40U]`. -/
abbrev HifAddr := Vector Nat 40

def hifColumn (xVal : Nat) : Nat := 100 + xVal
def hifRow (xVal : Nat) : Nat := 200 + xVal
def hifBank (xVal : Nat) : Nat := 300 + xVal
def hifBg (xVal : Nat) : Nat := 400 + xVal
def hifRank (xVal : Nat) : Nat := 500 + xVal

/-- `for (Index = first; Index < last; Index++) { HifAddr[Position] = code(Index); Position++; }` -/
def define (code : Nat → Nat) (first last : Nat) (c : Cursor Nat 40) : Option (Cursor Nat 40) :=
  c.placeRange code first (last - first)

/-- `x - y` in 32 bits. -/
def sub32 (x y : Nat) : Nat := (x + 2 ^ 32 - y) % 2 ^ 32

def ddrCalcDdr4HifAddr (d : DimmParams) (t : HifAddr) : Option HifAddr := do
  let c ← define hifColumn 0 d.numColAddr (.start t)
  let c ← define hifBg 0 d.numBgAddr c
  let c ← define hifBank 0 d.numBankAddr c
  let c ← define hifRow 0 d.numRowAddr c
  let c ← define hifRank 0 d.numRankAddr c
  return c.table

/-- The loop over the sizes of the video buffer. -/
def bufWidthLoop (videoBuf : Nat) : Nat → Nat → Nat → Nat
  | _, 0, bufWidth => bufWidth
  | index, count + 1, _ =>
    if 1 <<< index = videoBuf then index + 20 else bufWidthLoop videoBuf (index + 1) count 20

def calcBufWidth (d : DimmParams) (videoBuf : Nat) : Nat :=
  let bufWidth := bufWidthLoop videoBuf 0 7 0
  let bufWidth := if d.busWidth = 16 then bufWidth + 2 else bufWidth
  if d.busWidth = 32 then bufWidth + 1 else bufWidth

/-- `HifAddr[0U]` to `HifAddr[3U]` of the mappings that fix them. -/
def fixedFour (t : HifAddr) : Option (Cursor Nat 40) := do
  let c ← Cursor.place (hifColumn 0) (.start t)
  let c ← c.place (hifColumn 1)
  let c ← c.place (hifColumn 2)
  c.place (hifBg 0)

/-- The rows behind the banks continue at `BufWidth - NumColAddr - 4U` for every memory type. -/
def ddrCalcHifAddrVideo (d : DimmParams) (t : HifAddr) (videoBuf : Nat) : Option HifAddr := do
  let bufWidth := calcBufWidth d videoBuf
  if d.memType ≠ spdMemtypeDdr4 then
    let rows := sub32 (sub32 bufWidth d.numColAddr) 3
    let c ← define hifColumn 3 d.numColAddr (.start t)
    let c ← define hifRow 0 rows c
    let c ← define hifBank 0 d.numBankAddr c
    let remainingRow := sub32 d.numRowAddr rows
    let c ← define (fun index => hifRow index + sub32 (sub32 bufWidth d.numColAddr) 4) 0 remainingRow c
    let c ← define hifRank 0 d.numRankAddr c
    return c.table
  else
    let rows := sub32 (sub32 bufWidth d.numColAddr) 4
    let c ← fixedFour t
    let c ← define hifColumn 3 d.numColAddr c
    let c ← define hifRow 0 rows c
    let c ← define hifBank 0 d.numBankAddr c
    let remainingRow := sub32 d.numRowAddr rows
    let c ← define (fun index => hifRow index + sub32 (sub32 bufWidth d.numColAddr) 4) 0 remainingRow c
    let c ← define hifRank 0 d.numRankAddr c
    return c.table

def ddrCalcHifAddrBrcMap (d : DimmParams) (t : HifAddr) : Option HifAddr := do
  let c ← fixedFour t
  let c ← define hifColumn 3 d.numColAddr c
  let c ← define hifRow 0 d.numRowAddr c
  let c ← define hifBank 0 d.numBankAddr c
  let c ← define hifRank 0 d.numRankAddr c
  return c.table

def ddrCalcHifAddrMemMap (d : DimmParams) (t : HifAddr) : Option HifAddr := do
  let c ← fixedFour t
  let c ← define hifColumn 3 d.numColAddr c
  let c ← define hifBg 1 d.numBgAddr c
  let c ← define hifBank 0 d.numBankAddr c
  let c ← define hifRow 0 d.numRowAddr c
  let c ← define hifRank 0 d.numRankAddr c
  return c.table

def ddrCalcHifAddr (d : DimmParams) (t : HifAddr) : Option HifAddr := do
  let c ← define hifColumn 0 d.numColAddr (.start t)
  let c ← define hifBank 0 d.numBankAddr c
  let c ← define hifRow 0 d.numRowAddr c
  let c ← define hifRank 0 d.numRankAddr c
  return c.table

/-- The constants of a build. `VideoBuf`, which `XFsbl_DdrCalcAddrMap` passes on if `XFSBL_VIDEOBUF` is set, is
declared nowhere in the source: it stands for what a build gives it. -/
structure Build where
  xfsblVideobuf : Nat
  videoBuf : Nat
  xfsblBrcmapping : Nat
  xfsblDdr4addrmapping : Nat
  deriving DecidableEq, Inhabited

/-- The routine that is called. -/
inductive Mapping
  | video
  | hif
  | brc
  | memMap
  | ddr4
  deriving DecidableEq, Inhabited

def Build.mapping (b : Build) (d : DimmParams) : Mapping :=
  if b.xfsblVideobuf ≠ 0 then .video
  else if b.xfsblBrcmapping = 1 then
    if d.memType ≠ spdMemtypeDdr4 then .hif else .brc
  else if d.memType ≠ spdMemtypeDdr4 then .hif
  else if b.xfsblDdr4addrmapping = 1 ∨ d.uDimm = 1 then .memMap
  else .ddr4

def hifAddr (b : Build) (d : DimmParams) (t : HifAddr) : Option HifAddr :=
  match b.mapping d with
  | .video => ddrCalcHifAddrVideo d t b.videoBuf
  | .hif => ddrCalcHifAddr d t
  | .brc => ddrCalcHifAddrBrcMap d t
  | .memMap => ddrCalcHifAddrMemMap d t
  | .ddr4 => ddrCalcDdr4HifAddr d t

/-- One entry down, the last one cleared. -/
def shiftHifAddr (t : HifAddr) : Option HifAddr := do
  let t ← moveDown 0 39 t
  return t.set 39 0

/-- `HifAddr` when the searches begin. -/
def hifTable (b : Build) (d : DimmParams) : Option HifAddr := do
  let t ← hifAddr b d (.replicate 40 0)
  let t ← if d.busWidth ≤ 32 then shiftHifAddr t else some t
  if d.busWidth = 16 then shiftHifAddr t else some t

/-! ## The stretches -/

/-- The stretches of codes each routine writes. -/
def layout (b : Build) (d : DimmParams) : List (Nat × Nat) :=
  match b.mapping d with
  | .video =>
    let bufWidth := calcBufWidth d b.videoBuf
    let behind := sub32 (sub32 bufWidth d.numColAddr) 4
    if d.memType ≠ spdMemtypeDdr4 then
      let rows := sub32 (sub32 bufWidth d.numColAddr) 3
      [(103, d.numColAddr - 3), (200, rows), (300, d.numBankAddr),
        (200 + behind, sub32 d.numRowAddr rows), (500, d.numRankAddr)]
    else
      [(100, 3), (400, 1), (103, d.numColAddr - 3), (200, behind), (300, d.numBankAddr),
        (200 + behind, sub32 d.numRowAddr behind), (500, d.numRankAddr)]
  | .hif =>
    [(100, d.numColAddr), (300, d.numBankAddr), (200, d.numRowAddr), (500, d.numRankAddr)]
  | .brc =>
    [(100, 3), (400, 1), (103, d.numColAddr - 3), (200, d.numRowAddr), (300, d.numBankAddr),
      (500, d.numRankAddr)]
  | .memMap =>
    [(100, 3), (400, 1), (103, d.numColAddr - 3), (401, d.numBgAddr - 1), (300, d.numBankAddr),
      (200, d.numRowAddr), (500, d.numRankAddr)]
  | .ddr4 =>
    [(100, d.numColAddr), (400, d.numBgAddr), (300, d.numBankAddr), (200, d.numRowAddr),
      (500, d.numRankAddr)]

theorem define_add (k first last : Nat) (c : Cursor Nat 40) :
    define (k + ·) first last c = c.placeAll (List.range' (k + first) (last - first)) := by
  rw [define, Cursor.placeRange_eq, List.map_add_range']

theorem fixedFour_eq (t : HifAddr) :
    fixedFour t = (Cursor.start t).placeAll (List.range' 100 3 ++ List.range' 400 1) := by
  simp [fixedFour, Cursor.placeAll, List.range'_succ, hifColumn, hifBg]

section
variable (first last : Nat) (c : Cursor Nat 40)

theorem define_column : define hifColumn first last c =
    c.placeAll (List.range' (100 + first) (last - first)) := define_add 100 first last c

theorem define_bg : define hifBg first last c =
    c.placeAll (List.range' (400 + first) (last - first)) := define_add 400 first last c

theorem define_row : define hifRow 0 last c = c.placeAll (List.range' 200 last) :=
  define_add 200 0 last c

theorem define_bank : define hifBank 0 last c = c.placeAll (List.range' 300 last) :=
  define_add 300 0 last c

theorem define_rank : define hifRank 0 last c = c.placeAll (List.range' 500 last) :=
  define_add 500 0 last c

/-- The rows that were left out, behind the banks. -/
theorem define_row_behind (behind : Nat) : define (fun index => hifRow index + behind) 0 last c =
    c.placeAll (List.range' (200 + behind) last) := by
  have hcode : (fun index => hifRow index + behind) = ((200 + behind) + ·) := by
    funext index
    simp only [hifRow]
    omega
  rw [hcode, define_add, Nat.add_zero, Nat.sub_zero]

end

/-- **Every routine writes the stretches of its layout, one after another.** -/
theorem hifAddr_eq (b : Build) (d : DimmParams) (t : HifAddr) :
    hifAddr b d t = ((Cursor.start t).placeAll (expand (layout b d))).map (·.table) := by
  unfold hifAddr layout
  rw [Option.map_eq_bind]
  cases b.mapping d with
  | video =>
    simp only [ddrCalcHifAddrVideo]
    split <;>
      simp only [fixedFour_eq, define_column, define_row, define_bank, define_row_behind,
        define_rank, placeAll_expand_cons, placeAll_expand_nil, Cursor.placeAll_append,
        Option.bind_eq_bind, Option.bind_assoc] <;>
      rfl
  | hif =>
    simp only [ddrCalcHifAddr, define_column, define_row, define_bank, define_rank,
      placeAll_expand_cons, placeAll_expand_nil, Option.bind_eq_bind, Option.bind_assoc]
    rfl
  | brc =>
    simp only [ddrCalcHifAddrBrcMap, fixedFour_eq, define_column, define_row, define_bank,
      define_rank, placeAll_expand_cons, placeAll_expand_nil, Cursor.placeAll_append,
      Option.bind_eq_bind, Option.bind_assoc]
    rfl
  | memMap =>
    simp only [ddrCalcHifAddrMemMap, fixedFour_eq, define_column, define_row, define_bank,
      define_bg, define_rank, placeAll_expand_cons, placeAll_expand_nil, Cursor.placeAll_append,
      Option.bind_eq_bind, Option.bind_assoc]
    rfl
  | ddr4 =>
    simp only [ddrCalcDdr4HifAddr, define_column, define_row, define_bank, define_bg, define_rank,
      placeAll_expand_cons, placeAll_expand_nil, Option.bind_eq_bind, Option.bind_assoc]
    rfl

variable {b : Build} {d : DimmParams} {t t' : HifAddr}

/-- **The table holds the stretches of the layout, and zeros behind them.** -/
theorem toList_of_hifAddr (h : hifAddr b d (.replicate 40 0) = some t) :
    (expand (layout b d)).length ≤ 40 ∧ t.toList =
      expand (layout b d) ++ List.replicate (40 - (expand (layout b d)).length) 0 := by
  rw [hifAddr_eq, Option.map_eq_some_iff] at h
  obtain ⟨c, hc, rfl⟩ := h
  obtain ⟨hlen, hlist⟩ := Cursor.start_placeAll_some hc
  refine ⟨hlen, ?_⟩
  rw [hlist, Vector.toList_replicate, List.drop_replicate]

/-- A layout that fits the table is written. -/
theorem hifAddr_of_length (h : (expand (layout b d)).length ≤ 40) :
    ∃ t, hifAddr b d (.replicate 40 0) = some t := by
  have hsome := (Cursor.placeAll_isSome (c := Cursor.start (Vector.replicate 40 0))).mpr
    (by simpa [Cursor.start] using h)
  obtain ⟨c, hc⟩ := Option.isSome_iff_exists.mp hsome
  exact ⟨c.table, by rw [hifAddr_eq, hc]; rfl⟩

theorem hifTable_wide (h : 32 < d.busWidth) : hifTable b d = hifAddr b d (.replicate 40 0) := by
  have h32 : ¬ d.busWidth ≤ 32 := by omega
  have h16 : d.busWidth ≠ 16 := by omega
  simp [hifTable, h32, h16]

/-- A shift takes the first entry out. -/
theorem toList_shiftHifAddr (h : shiftHifAddr t = some t') : t'.toList = t.toList.tail ++ [0] := by
  obtain ⟨u, hu, hget⟩ := moveDown_eq 0 39 t (by decide)
  simp only [shiftHifAddr, hu, Option.bind_eq_bind, Option.bind_some, Option.pure_def,
    Option.some.injEq] at h
  subst h
  refine List.ext_getElem? fun i => ?_
  rw [Vector.getElem?_toList, Vector.getElem?_set, hget, List.getElem?_append, List.length_tail,
    Vector.length_toList, List.getElem?_tail, Vector.getElem?_toList]
  rcases Nat.lt_trichotomy i 39 with hi | rfl | hi
  · simp [hi, Nat.ne_of_gt hi]
  · simp
  · have h1 : ¬ i < 39 := by omega
    have h2 : t[i]? = none := Vector.getElem?_eq_none (by omega)
    have h3 : [0][i - 39]? = none := List.getElem?_eq_none (by simp; omega)
    simp [h1, h2, h3, Nat.ne_of_lt hi]

/-- A value that is not behind the first `k + 1` entries is not behind the first `k` of the shifted table. -/
theorem notMem_shiftHifAddr {x k : Nat} (h : shiftHifAddr t = some t') (hx : x ≠ 0)
    (hnot : x ∉ t.toList.drop (k + 1)) : x ∉ t'.toList.drop k := by
  rw [toList_shiftHifAddr h, List.drop_append, List.drop_tail, List.mem_append]
  rintro (hm | hm)
  · exact hnot hm
  · exact hx (by simpa using List.mem_of_mem_drop hm)

/-! ## What is in the table -/

/-- A code of the layout is first found where the layout places it. -/
theorem idxOf?_of_layout {x p : Nat} (h : hifAddr b d (.replicate 40 0) = some t)
    (hx : locate (layout b d) x = some p) : t.toList.idxOf? x = some p := by
  rw [(toList_of_hifAddr h).2, List.idxOf?, List.findIdx?_append]
  have hfirst := idxOf?_expand (layout b d) x
  rw [List.idxOf?, hx] at hfirst
  rw [hfirst, Option.some_or]

/-- A code that is in no stretch is nowhere. -/
theorem notMem_of_layout {x : Nat} (h : hifAddr b d (.replicate 40 0) = some t) (h0 : x ≠ 0)
    (hx : x ∉ expand (layout b d)) : x ∉ t.toList := by
  rw [(toList_of_hifAddr h).2, List.mem_append]
  rintro (hm | hm)
  · exact hx hm
  · exact h0 (List.eq_of_mem_replicate hm)

/-- Column bit 2 is among the first three entries of a layout, if it is there at all. -/
theorem column_two_layout (b : Build) (d : DimmParams) :
    hifColumn 2 ∉ (expand (layout b d)).drop 3 := by
  unfold layout
  cases b.mapping d with
  | video =>
    simp only
    split <;>
      exact notMem_drop_expand (by simp [hifColumn]) (by simp [hifColumn]; omega)
  | hif => exact notMem_drop_expand (by simp [hifColumn]) (by simp [hifColumn])
  | brc => exact notMem_drop_expand (by simp [hifColumn]) (by simp [hifColumn])
  | memMap => exact notMem_drop_expand (by simp [hifColumn]) (by simp [hifColumn])
  | ddr4 => exact notMem_drop_expand (by simp [hifColumn]) (by simp [hifColumn])

theorem column_two_hifAddr (h : hifAddr b d (.replicate 40 0) = some t) :
    hifColumn 2 ∉ t.toList.drop 3 := by
  rw [(toList_of_hifAddr h).2, List.drop_append, List.mem_append]
  rintro (hm | hm)
  · exact column_two_layout b d hm
  · exact absurd (List.eq_of_mem_replicate (List.mem_of_mem_drop hm)) (by decide)

/-- **On a bus of 32 bits or less column bit 2 is below the index its search starts from.** -/
theorem column_two_narrow (h : hifTable b d = some t) (hw : d.busWidth ≤ 32) :
    hifColumn 2 ∉ t.toList.drop 2 := by
  have h0 : hifColumn 2 ≠ 0 := by decide
  simp only [hifTable, hw, if_true, Option.bind_eq_bind] at h
  obtain ⟨u, hu, h⟩ := Option.bind_eq_some_iff.mp h
  obtain ⟨v, hv, h⟩ := Option.bind_eq_some_iff.mp h
  have hfirst := notMem_shiftHifAddr hv h0 (column_two_hifAddr hu)
  split at h
  · exact notMem_shiftHifAddr h h0 fun hm =>
      hfirst (List.mem_of_mem_drop (by rwa [List.drop_drop] : hifColumn 2 ∈ (v.toList.drop 2).drop 1))
  · cases h
    exact hfirst

/-- The video mapping of the other memories leaves out the first three columns. -/
theorem column_two_video (h : hifTable b d = some t) (hm : b.mapping d = .video)
    (hd : d.memType ≠ spdMemtypeDdr4) : hifColumn 2 ∉ t.toList.drop 2 := by
  rcases Nat.lt_or_ge 32 d.busWidth with hw | hw
  · rw [hifTable_wide hw] at h
    refine fun hmem => notMem_of_layout h (by decide) ?_ (List.mem_of_mem_drop hmem)
    simp only [layout, hm, hd, ne_eq, not_false_eq_true, if_true, mem_expand]
    simp [hifColumn]
    omega
  · exact column_two_narrow h hw

end MeasuredBoot.Ddr
