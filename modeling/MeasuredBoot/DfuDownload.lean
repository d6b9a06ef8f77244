import MeasuredBoot.Dfu

/-!
# Downloads in blocks

`Download` is what the host means by its `DFU_DNLOAD` requests: a download goes on until a request without
data, the next one starts a new download. `Assembled` says that the buffer and `TotalBytesDnloaded` follow it
through a whole run; `assembled_iff` says which runs do. A block number 0 is taken for the start of a download,
since `TotalTransfers` is never counted up.
-/

namespace MeasuredBoot.Dfu

/-! ## Downloads -/

/-- The bytes received in the current download and its requests so far (none: it has ended), and the offset of
every block that was asked for. -/
structure Download where
  bytes : List UInt8
  requests : Nat
  blocks : List (Nat × List UInt8)

def Download.fresh : Download := ⟨[], 0, []⟩

/-- The bytes a request goes behind. -/
def Download.before (d : Download) : List UInt8 := if d.requests = 0 then [] else d.bytes

def Setup.IsDnload (e : Setup) : Prop :=
  e.packet.bRequestType &&& xfsblReqTypeMask = xfsblCmdClassreq ∧ e.packet.bRequest = dfuDnload

instance (e : Setup) : Decidable e.IsDnload := inferInstanceAs (Decidable (_ ∧ _))

def Download.dnload (d : Download) (e : Setup) : Download :=
  if e.data = [] then { d with bytes := d.before, requests := 0 }
  else
    { bytes := if e.started then d.before ++ e.data else d.before
      requests := d.requests + 1
      blocks := d.blocks ++ [(d.before.length, e.data)] }

def Download.step (d : Download) : Event → Download
  | .setup e => if e.IsDnload then d.dnload e else d
  | .reset => d

/-- What holds for each event of a run. -/
def Always (P : Download → Event → Prop) : Download → List Event → Prop
  | _, [] => True
  | d, e :: es => P d e ∧ Always P (d.step e) es

/-- Blocks are numbered from 0 in every download, modulo `2 ^ 16`. -/
def Numbered (d : Download) : Event → Prop
  | .setup e => e.IsDnload → e.packet.wValue.toNat = d.requests % 2 ^ 16
  | .reset => True

/-- A download starts with block 0, or nothing lies in the buffer; no other request of it has the number 0. The
driver starts each transfer, and its block ends in the DDR. -/
def Fits (d : Download) : Event → Prop
  | .setup e =>
    e.IsDnload →
      (d.requests = 0 → e.packet.wValue = 0 ∨ d.bytes = []) ∧
      (d.requests ≠ 0 → e.packet.wValue ≠ 0) ∧
      (e.data ≠ [] → e.started = true ∧
        dfuVirtFlash + d.before.length + e.data.length ≤ xfsblPsDdrEndAddress.toNat + 1)
  | .reset => True

/-- With blocks numbered from 0, that leaves downloads of at most `2 ^ 16` requests. -/
theorem fits_numbered {d : Download} {e : Setup} (he : e.IsDnload) (hn : Numbered d (.setup e)) :
    Fits d (.setup e) ↔ (d.requests % 2 ^ 16 = 0 → d.requests = 0) ∧
      (e.data ≠ [] → e.started = true ∧
        dfuVirtFlash + d.before.length + e.data.length ≤ xfsblPsDdrEndAddress.toNat + 1) := by
  have hnumber := hn he
  have hzero : e.packet.wValue = 0 ↔ d.requests % 2 ^ 16 = 0 := by
    rw [← hnumber, ← UInt16.toNat_inj]
    rfl
  simp only [Fits, he, hzero, true_imp_iff, ne_eq]
  constructor
  · rintro ⟨-, hlater, hblock⟩
    exact ⟨fun h => by_contra fun hne => hlater hne h, hblock⟩
  · rintro ⟨hwrap, hblock⟩
    exact ⟨fun h => .inl (by rw [h]; rfl), fun h hm => h (hwrap hm), hblock⟩

/-! ## The device -/

def Act.recv? : Act → Option (Nat × List UInt8)
  | .recv address block => some (address, block)
  | _ => none

/-- The transfers the driver was asked for. -/
def Usb.recvs (s : Usb) : List (Nat × List UInt8) := s.acts.filterMap Act.recv?

/-- The buffer starts with the bytes of the download, `TotalBytesDnloaded` counts them, each block was asked
for at its offset, and none ends behind the DDR. -/
structure Stored (s : Usb) (d : Download) : Prop where
  total : s.dfuObj.totalBytesDnloaded.toNat = d.bytes.length
  holds : s.mem.Holds dfuVirtFlash d.bytes
  recvs : s.recvs = d.blocks.map fun r => (dfuVirtFlash + r.1, r.2)
  inDdr : ∀ r ∈ s.recvs, r.1 + r.2.length ≤ xfsblPsDdrEndAddress.toNat + 1

/-- Before the first event and after each. -/
def Assembled : Usb → Download → List Event → Prop
  | s, d, [] => Stored s d
  | s, d, e :: es => Stored s d ∧ Assembled (handle s e) (d.step e) es

/-- The device as `XFsbl_UsbInit` leaves it to the host. -/
def started (downloadDone : UInt32) (mem : Mem) : Usb :=
  xfsblDfuSetState ⟨DfuIf.zero, downloadDone, mem, []⟩ .appIdle

theorem stored_started (downloadDone : UInt32) (mem : Mem) : Stored (started downloadDone mem) .fresh where
  total := rfl
  holds := rfl
  recvs := rfl
  inDdr := fun _ h => nomatch h

/-! ## Other requests -/

/-- The same as far as downloads go. -/
structure SameDownload (s t : Usb) : Prop where
  total : t.dfuObj.totalBytesDnloaded = s.dfuObj.totalBytesDnloaded
  transfers : t.dfuObj.totalTransfers = s.dfuObj.totalTransfers
  mem : t.mem = s.mem
  recvs : t.recvs = s.recvs

theorem recvs_act (s : Usb) {a : Act} (h : a.recv? = none) : (s.act a).recvs = s.recvs := by
  simp [Usb.recvs, Usb.act, List.filterMap_append, h]

theorem sameDownload_error (s : Usb) : SameDownload s (dfuError s) :=
  ⟨rfl, rfl, rfl, recvs_act _ rfl⟩

theorem sameDownload_setState (s : Usb) (state : DfuState) : SameDownload s (xfsblDfuSetState s state) := by
  cases state with
  | appIdle => exact ⟨rfl, rfl, rfl, rfl⟩
  | appDetach =>
    simp only [xfsblDfuSetState]
    split
    · exact ⟨rfl, rfl, rfl, rfl⟩
    · split
      · exact ⟨rfl, rfl, rfl, rfl⟩
      · exact sameDownload_error s
  | dfuIdle => exact ⟨rfl, rfl, rfl, rfl⟩
  | dfuDownloadSync => exact ⟨rfl, rfl, rfl, rfl⟩
  | dfuDownloadBusy => exact sameDownload_error s
  | dfuDownloadIdle => exact sameDownload_error s
  | dfuError => exact sameDownload_error s

theorem sameDownload_setIntf (s : Usb) (e : Setup) : SameDownload s (xfsblDfuSetIntf s e) := by
  unfold xfsblDfuSetIntf
  simp only
  split
  · exact ⟨rfl, rfl, rfl, rfl⟩
  · split
    · exact ⟨rfl, rfl, rfl, rfl⟩
    · exact ⟨rfl, rfl, rfl, rfl⟩

theorem sameDownload_getstatus (s : Usb) (e : Setup) : SameDownload s (xfsblDfuGetstatus s e) := by
  have hobj : SameDownload s { s with dfuObj :=
      if s.dfuObj.gotDnloadRqst then
        if s.dfuObj.currState = .dfuIdle then { s.dfuObj with currState := .dfuDownloadSync }
        else if s.dfuObj.currState = .dfuDownloadSync then { s.dfuObj with currState := .dfuDownloadBusy }
        else s.dfuObj
      else s.dfuObj } := by
    constructor <;> (try split) <;> (try split) <;> (try split) <;> rfl
  unfold xfsblDfuGetstatus
  simp only
  split
  · exact ⟨hobj.total, hobj.transfers, rfl, recvs_act _ rfl⟩
  · exact hobj

theorem sameDownload_handle (s : Usb) {e : Event} (he : ∀ p, e = .setup p → ¬ p.IsDnload) :
    SameDownload s (handle s e) := by
  cases e with
  | reset =>
    show SameDownload s (xfsblDfuReset s)
    unfold xfsblDfuReset
    split <;> exact ⟨rfl, rfl, rfl, rfl⟩
  | setup p =>
    have hp := he p rfl
    show SameDownload s (xfsblCh9Handler s p)
    unfold xfsblCh9Handler
    split
    · unfold xfsblStdDevReq
      split
      · exact ⟨rfl, rfl, rfl, rfl⟩
      · split
        · exact sameDownload_setIntf s p
        · exact ⟨rfl, rfl, rfl, rfl⟩
    · split
      next hclass =>
        unfold xfsblDfuClassReq
        split
        · exact sameDownload_setState s _
        · rw [if_neg fun h => hp ⟨hclass, h⟩]
          split
          · exact sameDownload_getstatus s p
          · exact sameDownload_error s
      next => exact ⟨rfl, rfl, rfl, recvs_act _ rfl⟩

/-! ## Blocks -/

/-- Where the next block goes. -/
def Usb.offset (s : Usb) (e : Setup) : UInt32 :=
  if e.packet.wValue = 0 then 0 else s.dfuObj.totalBytesDnloaded

theorem handle_dnload (s : Usb) {e : Setup} (he : e.IsDnload) : handle s (.setup e) = xfsblDfuDnload s e := by
  show xfsblCh9Handler s e = _
  rw [xfsblCh9Handler, he.1, if_neg (by decide), if_pos rfl, xfsblDfuClassReq, he.2, if_neg (by decide),
    if_pos rfl]

theorem wLength_pos (e : Setup) : e.packet.wLength > 0 ↔ e.data ≠ [] := by
  rw [gt_iff_lt, UInt16.lt_iff_toNat_lt, ← e.length_data, ← List.length_pos_iff]
  rfl

variable {s : Usb} {d : Download} {e : Setup}

/-- What a block leaves. -/
theorem xfsblDfuDnload_block (ht : s.dfuObj.totalTransfers = 0) (hdata : e.data ≠ []) :
    (xfsblDfuDnload s e).dfuObj.totalBytesDnloaded = s.offset e + e.packet.wLength.toUInt32 ∧
      (xfsblDfuDnload s e).dfuObj.totalTransfers = 0 ∧
      (xfsblDfuDnload s e).mem =
        (if e.started then s.mem.store (dfuVirtFlash + (s.offset e).toNat) e.data else s.mem) ∧
      (xfsblDfuDnload s e).recvs = s.recvs ++ [(dfuVirtFlash + (s.offset e).toNat, e.data)] := by
  unfold xfsblDfuDnload dnloadStart Usb.offset
  simp only [ht, true_and, dnloadData, if_pos ((wLength_pos e).mpr hdata)]
  split <;> split <;> exact ⟨rfl, rfl, rfl, by simp [Usb.recvs, epBufferRecv, Usb.act, Act.recv?]⟩

/-- What a request without data leaves. -/
theorem xfsblDfuDnload_end (ht : s.dfuObj.totalTransfers = 0) (hdata : e.data = []) :
    (xfsblDfuDnload s e).dfuObj.totalBytesDnloaded = s.offset e ∧
      (xfsblDfuDnload s e).dfuObj.totalTransfers = 0 ∧ (xfsblDfuDnload s e).mem = s.mem ∧
      (xfsblDfuDnload s e).recvs = s.recvs := by
  unfold xfsblDfuDnload dnloadStart Usb.offset
  simp only [ht, true_and, dnloadData, if_neg (mt (wLength_pos e).mp (not_not_intro hdata))]
  split <;> exact ⟨rfl, rfl, rfl, rfl⟩

/-- The offset is right exactly if block 0 starts a download and nothing else does. -/
theorem toNat_offset_iff (hs : Stored s d) (hopen : d.requests ≠ 0 → d.bytes ≠ []) :
    (s.offset e).toNat = d.before.length ↔
      (d.requests = 0 → e.packet.wValue = 0 ∨ d.bytes = []) ∧ (d.requests ≠ 0 → e.packet.wValue ≠ 0) := by
  have htotal := hs.total
  unfold Usb.offset Download.before
  by_cases hw : e.packet.wValue = 0
  · rw [if_pos hw]
    by_cases hr : d.requests = 0
    · simp [hr, hw]
    · have hne := List.length_pos_iff.mpr (hopen hr)
      rw [if_neg hr]
      exact iff_of_false (by simp; omega) fun h => h.2 hr hw
  · rw [if_neg hw, htotal]
    by_cases hr : d.requests = 0
    · simp [hr, hw]
    · simp [hr, hw]

theorem holds_before (hs : Stored s d) : s.mem.Holds dfuVirtFlash d.before := by
  unfold Download.before
  split
  · rfl
  · exact hs.holds

theorem stored_block_iff (hs : Stored s d) (ht : s.dfuObj.totalTransfers = 0) (hdata : e.data ≠ []) :
    Stored (xfsblDfuDnload s e) (d.dnload e) ↔
      (s.offset e).toNat = d.before.length ∧ e.started = true ∧
        dfuVirtFlash + d.before.length + e.data.length ≤ xfsblPsDdrEndAddress.toNat + 1 := by
  obtain ⟨htotal, -, hmem, hrecvs⟩ := xfsblDfuDnload_block (s := s) ht hdata
  have hpos := List.length_pos_iff.mpr hdata
  have hlen : e.packet.wLength.toUInt32.toNat = e.data.length := by
    rw [e.length_data]
    rfl
  have hlt : e.data.length < 2 ^ 16 := by
    rw [e.length_data]
    exact e.packet.wLength.toNat_lt
  have hend : xfsblPsDdrEndAddress.toNat = 0x7FEFFFFF := rfl
  constructor
  · intro h
    have hoff : (s.offset e).toNat = d.before.length := by
      have hlast := h.recvs
      rw [hrecvs, hs.recvs, Download.dnload, if_neg hdata, List.map_append] at hlast
      have hpair := List.append_cancel_left hlast
      simp only [List.map_cons, List.map_nil, List.cons.injEq, Prod.mk.injEq, and_true] at hpair
      omega
    refine ⟨hoff, ?_, ?_⟩
    · by_contra hno
      have hsum := h.total
      rw [htotal, UInt32.toNat_add, hlen, hoff, Download.dnload, if_neg hdata] at hsum
      simp only [hno, if_false] at hsum
      have hoff32 := (s.offset e).toNat_lt
      omega
    · have hin := h.inDdr (dfuVirtFlash + (s.offset e).toNat, e.data) (by rw [hrecvs]; simp)
      rw [← hoff]
      exact hin
  · rintro ⟨hoff, hstarted, hin⟩
    have hdn : d.dnload e = ⟨d.before ++ e.data, d.requests + 1, d.blocks ++ [(d.before.length, e.data)]⟩ := by
      rw [Download.dnload, if_neg hdata, if_pos hstarted]
    rw [hoff] at hrecvs hmem
    rw [if_pos hstarted] at hmem
    rw [hdn]
    constructor
    · rw [htotal, UInt32.toNat_add, hlen, hoff, List.length_append]
      exact Nat.mod_eq_of_lt (by omega)
    · rw [hmem, Mem.holds_append]
      refine ⟨?_, Mem.holds_store ..⟩
      unfold Mem.Holds
      rw [Mem.load_store_disj (.inl (Nat.le_refl _))]
      exact holds_before hs
    · rw [hrecvs, hs.recvs, List.map_append]
      rfl
    · intro r hr
      rw [hrecvs, List.mem_append, List.mem_singleton] at hr
      rcases hr with hr | rfl
      · exact hs.inDdr r hr
      · exact hin

theorem stored_end_iff (hs : Stored s d) (ht : s.dfuObj.totalTransfers = 0) (hdata : e.data = []) :
    Stored (xfsblDfuDnload s e) (d.dnload e) ↔ (s.offset e).toNat = d.before.length := by
  obtain ⟨htotal, -, hmem, hrecvs⟩ := xfsblDfuDnload_end (s := s) ht hdata
  rw [Download.dnload, if_pos hdata]
  constructor
  · intro h
    rw [← htotal]
    exact h.total
  · intro hoff
    exact ⟨by rw [htotal, hoff], by rw [hmem]; exact holds_before hs, by rw [hrecvs]; exact hs.recvs,
      by rw [hrecvs]; exact hs.inDdr⟩

/-! ## Runs -/

/-- What a run keeps besides. -/
structure Counted (s : Usb) (d : Download) : Prop where
  stored : Stored s d
  transfers : s.dfuObj.totalTransfers = 0
  received : d.requests ≠ 0 → d.bytes ≠ []

theorem stored_step_iff (h : Counted s d) (ev : Event) :
    Stored (handle s ev) (d.step ev) ↔ Fits d ev := by
  obtain ⟨hs, ht, hopen⟩ := h
  have hother (hev : ∀ p, ev = .setup p → ¬ p.IsDnload) : Stored (handle s ev) d := by
    have hsame := sameDownload_handle s hev
    exact ⟨by rw [hsame.total]; exact hs.total, by rw [hsame.mem]; exact hs.holds,
      by rw [hsame.recvs]; exact hs.recvs, by rw [hsame.recvs]; exact hs.inDdr⟩
  cases ev with
  | reset => exact iff_of_true (hother fun _ => nofun) trivial
  | setup e =>
    by_cases he : e.IsDnload
    · simp only [Fits, he, true_imp_iff, Download.step, if_true, handle_dnload s he]
      rw [← and_assoc, ← toNat_offset_iff hs hopen]
      by_cases hdata : e.data = []
      · rw [stored_end_iff hs ht hdata]
        simp [hdata]
      · rw [stored_block_iff hs ht hdata]
        simp only [ne_eq, hdata, not_false_eq_true, true_imp_iff]
    · simp only [Download.step, he, if_false]
      exact iff_of_true (hother fun p hp => by cases hp; exact he) fun h => absurd h he

theorem counted_step (h : Counted s d) {ev : Event} (hfits : Fits d ev) :
    Counted (handle s ev) (d.step ev) := by
  refine ⟨(stored_step_iff h ev).mpr hfits, ?_, ?_⟩
  · by_cases hev : ∀ p, ev = .setup p → ¬ p.IsDnload
    · rw [(sameDownload_handle s hev).transfers]
      exact h.transfers
    · simp only [not_forall, not_not] at hev
      obtain ⟨e, rfl, he⟩ := hev
      rw [handle_dnload s he]
      by_cases hdata : e.data = []
      · exact (xfsblDfuDnload_end h.transfers hdata).2.1
      · exact (xfsblDfuDnload_block h.transfers hdata).2.1
  · cases ev with
    | reset => exact h.received
    | setup e =>
      by_cases he : e.IsDnload
      · obtain ⟨-, -, hblock⟩ := hfits he
        rw [Download.step, if_pos he, Download.dnload]
        split
        next => exact fun hr => absurd rfl hr
        next hdata =>
          rw [if_pos (hblock hdata).1]
          exact fun _ => List.append_ne_nil_of_right_ne_nil _ hdata
      · rw [Download.step, if_neg he]
        exact h.received

/-- From any state that follows a download. -/
theorem assembled_iff_of (h : Counted s d) (es : List Event) : Assembled s d es ↔ Always Fits d es := by
  induction es generalizing s d with
  | nil => exact iff_of_true h.stored trivial
  | cons ev es ih =>
    unfold Assembled Always
    rw [and_iff_right h.stored]
    constructor
    · intro hrun
      have hfits : Fits d ev := by
        rw [← stored_step_iff h]
        cases es with
        | nil => exact hrun
        | cons => exact hrun.1
      exact ⟨hfits, (ih (counted_step h hfits)).mp hrun⟩
    · rintro ⟨hfits, hrest⟩
      exact (ih (counted_step h hfits)).mpr hrest

theorem counted_started (downloadDone : UInt32) (mem : Mem) : Counted (started downloadDone mem) .fresh :=
  ⟨stored_started downloadDone mem, rfl, fun h => absurd rfl h⟩

/-- **For every sequence of requests**, whatever the blocks and their numbers, and whatever lies in memory. -/
theorem assembled_iff (downloadDone : UInt32) (mem : Mem) (es : List Event) :
    Assembled (started downloadDone mem) .fresh es ↔ Always Fits .fresh es :=
  assembled_iff_of (counted_started downloadDone mem) es

/-! ## A download of `2 ^ 16` blocks and one more -/

/-- A block of one byte. -/
def byteBlock (number : Nat) : Setup where
  packet := ⟨0x21, dfuDnload, .ofNat number, 1⟩
  data := [0]
  started := true
  length_data := rfl

/-- The first `n` of them. -/
def byteBlocks (n : Nat) : List Event := (List.range n).map fun i => .setup (byteBlock i)

theorem always_append {P : Download → Event → Prop} (es fs : List Event) (d : Download) :
    Always P d (es ++ fs) ↔ Always P d es ∧ Always P (es.foldl Download.step d) fs := by
  induction es generalizing d with
  | nil => simp [Always]
  | cons e es ih => simp only [List.cons_append, Always, ih, List.foldl_cons, and_assoc]

theorem byteBlocks_succ (n : Nat) : byteBlocks (n + 1) = byteBlocks n ++ [.setup (byteBlock n)] := by
  simp [byteBlocks, List.range_succ]

theorem isDnload_byteBlock (n : Nat) : (byteBlock n).IsDnload :=
  ⟨show (0x21 &&& xfsblReqTypeMask : UInt8) = xfsblCmdClassreq by decide, rfl⟩

theorem step_byteBlock (d : Download) (n : Nat) :
    (d.step (.setup (byteBlock n))).requests = d.requests + 1 := by
  rw [Download.step, if_pos (isDnload_byteBlock n), Download.dnload,
    if_neg (show (byteBlock n).data ≠ [] from List.cons_ne_nil _ _)]

theorem requests_byteBlocks (n : Nat) : ((byteBlocks n).foldl Download.step .fresh).requests = n := by
  induction n with
  | zero => rfl
  | succ n ih => rw [byteBlocks_succ, List.foldl_append, List.foldl_cons, List.foldl_nil, step_byteBlock, ih]

theorem numbered_byteBlocks (n : Nat) : Always Numbered .fresh (byteBlocks n) := by
  induction n with
  | zero => trivial
  | succ n ih =>
    rw [byteBlocks_succ, always_append]
    refine ⟨ih, fun _ => ?_, trivial⟩
    rw [requests_byteBlocks]
    exact UInt16.toNat_ofNat'

/-- Block `n` is numbered 0 again. -/
theorem not_fits_byteBlocks {n : Nat} (hn : n ≠ 0) (hwrap : n % 2 ^ 16 = 0) :
    ¬ Always Fits .fresh (byteBlocks (n + 1)) := by
  intro h
  rw [byteBlocks_succ, always_append] at h
  have hlater := (h.2.1 (isDnload_byteBlock n)).2.1
  rw [requests_byteBlocks] at hlater
  refine hlater hn (UInt16.toNat_inj.mp ?_)
  show (UInt16.ofNat n).toNat = 0
  rw [UInt16.toNat_ofNat', hwrap]

/-- The last one, numbered 0 again, is stored over the first. -/
theorem not_assembled :
    ¬ ∀ (downloadDone : UInt32) (mem : Mem) (es : List Event), Always Numbered .fresh es →
      Assembled (started downloadDone mem) .fresh es := by
  intro h
  obtain ⟨n, hn⟩ : ∃ n, n = 2 ^ 16 := ⟨_, rfl⟩
  have hrun := h 0 (fun _ => 0) _ (numbered_byteBlocks (n + 1))
  rw [assembled_iff_of (counted_started 0 _)] at hrun
  exact not_fits_byteBlocks (by omega) (by omega) hrun

end MeasuredBoot.Dfu
