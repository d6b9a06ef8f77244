import MeasuredBoot.DfuDownload

/-!
# Waiting for a download (`XFsbl_UsbInit`)

The loop polls the driver, which hands the pending requests to the state machine, until `DownloadDone` has
reached 3. It counts the `SET_INTERFACE` requests of the host, not its downloads, and `STATE_DFU_ERROR` is
looked for in `CurrStatus`, which is never set to it. `usbInit_awaits` is about hosts for which that makes no
difference.
-/

namespace MeasuredBoot.Dfu

/-! ## The source -/

/-- What the driver answers while it is set up. -/
structure Controller where
  found : Bool
  cfgInitialize : UInt32
  start : UInt32

def xfsblDownloadComplete : UInt32 := 3

def xfsblCheckTempDfuMemory (offset : UInt32) : UInt32 :=
  if dfuVirtFlash ≠ 0 ∧ dfuVirtFlash + offset.toNat ≤ xfsblPsDdrEndAddress.toNat then xfsblSuccess
  else xfsblFailure

/-- `DfuObj` in `STATE_APP_IDLE`. -/
def usbStart (s : Usb) : Usb := xfsblDfuSetState { s with dfuObj := .zero } .appIdle

def Waits (s : Usb) : Prop :=
  s.downloadDone < xfsblDownloadComplete ∧ s.dfuObj.currStatus ≠ DfuState.dfuError.code

instance (s : Usb) : Decidable (Waits s) := inferInstanceAs (Decidable (_ ∧ _))

/-- The loop over the polls, each with the events it finds; `none` while it goes on. -/
def usbLoop (s : Usb) : List (List Event) → Option Usb
  | [] => if Waits s then none else some s
  | poll :: polls => if Waits s then usbLoop (poll.foldl handle s) polls else some s

def xfsblUsbInit (c : Controller) (s : Usb) (polls : List (List Event)) : Option (UInt32 × Usb) :=
  if xfsblCheckTempDfuMemory 0 = xfsblFailure then some (xfsblFailure, s)
  else if c.found = false then some (xfsblFailure, { s with dfuObj := .zero })
  else if c.cfgInitialize ≠ xfsblSuccess then some (xfsblFailure, { s with dfuObj := .zero })
  else if c.start ≠ xfsblSuccess then some (xfsblFailure, usbStart s)
  else (usbLoop (usbStart s) polls).map fun t =>
    (if t.downloadDone = xfsblDownloadComplete then xfsblSuccess else xfsblFailure, t)

/-! ## What is awaited -/

/-- The events the loop handles. -/
def usbHandled (s : Usb) : List (List Event) → List Event
  | [] => []
  | poll :: polls => if Waits s then poll ++ usbHandled (poll.foldl handle s) polls else []

/-- A block was received, and later the request without data. -/
def Complete (es : List Event) : Prop :=
  ∃ block last : Setup, block.IsDnload ∧ block.data ≠ [] ∧ block.started = true ∧ last.IsDnload ∧ last.data = [] ∧
    [.setup block, .setup last].Sublist es

/-- The state machine enters `STATE_DFU_ERROR`. -/
def Enters (s : Usb) (es : List Event) : Prop :=
  ∃ pre, pre <+: es ∧ (pre.foldl handle s).dfuObj.currState = .dfuError

/-- Success only behind a complete download, and failure once there was an error. -/
structure Awaits (c : Controller) (s : Usb) (polls : List (List Event)) : Prop where
  complete (t : Usb) : xfsblUsbInit c s polls = some (xfsblSuccess, t) → Complete (usbHandled (usbStart s) polls)
  error : Enters (usbStart s) (usbHandled (usbStart s) polls) → ∃ t, xfsblUsbInit c s polls = some (xfsblFailure, t)

/-! ## Hosts -/

/-- A request that reaches `XFsbl_DfuSetIntf`. -/
def Setup.IsSetInterface (e : Setup) : Prop :=
  e.packet.bRequestType &&& xfsblReqTypeMask = xfsblCmdStdreq ∧ ¬ e.packet.wLength > xfsblReqReplyLen ∧
    e.packet.bRequest = xfsblReqSetInterface

/-- With `DownloadDone` at 2 the host selects an interface only behind a complete download, it detaches in
`STATE_APP_IDLE` or `STATE_DFU_IDLE` only, and sends no other class request that is not supported. -/
def OrderlyEvent (seen : List Event) (s : Usb) : Event → Prop
  | .setup e =>
    (e.IsSetInterface → s.downloadDone = 2 → Complete seen) ∧
      (e.packet.bRequestType &&& xfsblReqTypeMask = xfsblCmdClassreq →
        (e.packet.bRequest = dfuDetach ∧ (s.dfuObj.currState = .appIdle ∨ s.dfuObj.currState = .dfuIdle)) ∨
          e.packet.bRequest = dfuDnload ∨ e.packet.bRequest = dfuGetstatus)
  | .reset => True

/-- Each event of a run is orderly. -/
def Orderly : List Event → Usb → List Event → Prop
  | _, _, [] => True
  | seen, s, e :: es => OrderlyEvent seen s e ∧ Orderly (seen ++ [e]) (handle s e) es

/-! ## Single events -/

variable {s : Usb} {seen es : List Event}

theorem Complete.mono {es fs : List Event} (h : Complete es) (hsub : es.Sublist fs) : Complete fs := by
  obtain ⟨block, last, h1, h2, h3, h4, h5, h6⟩ := h
  exact ⟨block, last, h1, h2, h3, h4, h5, h6.trans hsub⟩

/-- What a state change does to the count. -/
theorem downloadDone_setIntf (s : Usb) (e : Setup) :
    (xfsblDfuSetIntf s e).downloadDone = s.downloadDone ∨
      (xfsblDfuSetIntf s e).downloadDone = s.downloadDone + 1 := by
  unfold xfsblDfuSetIntf
  simp only
  split
  · exact .inr rfl
  · split
    · exact .inr rfl
    · simp only [xfsblDfuSetState]
      split
      next h0 =>
        rw [h0]
        exact .inr rfl
      next =>
        split
        · exact .inr rfl
        · exact .inl rfl

theorem downloadDone_detach (s : Usb) : (xfsblDfuSetState s .appDetach).downloadDone = s.downloadDone := by
  simp only [xfsblDfuSetState]
  split
  · rfl
  · split <;> rfl

theorem downloadDone_dnload (s : Usb) (e : Setup) : (xfsblDfuDnload s e).downloadDone = s.downloadDone := by
  have hdata (s : Usb) : (dnloadData s e).1.downloadDone = s.downloadDone := by
    unfold dnloadData
    split
    · rfl
    · split <;> rfl
  unfold xfsblDfuDnload
  simp only
  split <;> exact hdata _

theorem downloadDone_getstatus (s : Usb) (e : Setup) :
    (xfsblDfuGetstatus s e).downloadDone = s.downloadDone := by
  unfold xfsblDfuGetstatus
  simp only
  split <;> rfl

/-- Only an interface is counted. -/
theorem downloadDone_handle (s : Usb) (ev : Event) :
    (handle s ev).downloadDone = s.downloadDone ∨
      (handle s ev).downloadDone = s.downloadDone + 1 ∧ ∃ e, ev = .setup e ∧ e.IsSetInterface := by
  cases ev with
  | reset =>
    refine .inl ?_
    show (xfsblDfuReset s).downloadDone = _
    unfold xfsblDfuReset
    split <;> rfl
  | setup e =>
    show (xfsblCh9Handler s e).downloadDone = _ ∨ (xfsblCh9Handler s e).downloadDone = _ ∧ _
    unfold xfsblCh9Handler
    split
    next hstd =>
      unfold xfsblStdDevReq
      split
      next => exact .inl rfl
      next hlen =>
        split
        next hreq =>
          exact (downloadDone_setIntf s e).imp_right fun h => ⟨h, e, rfl, hstd, hlen, hreq⟩
        next => exact .inl rfl
    next =>
      refine .inl ?_
      split
      · unfold xfsblDfuClassReq
        split
        · exact downloadDone_detach s
        · split
          · exact downloadDone_dnload s e
          · split
            · exact downloadDone_getstatus s e
            · rfl
      · rfl

/-- The states a supported request leaves. -/
theorem currState_setIntf (s : Usb) (e : Setup) : (xfsblDfuSetIntf s e).dfuObj.currState ≠ .dfuError := by
  unfold xfsblDfuSetIntf
  simp only
  split
  · exact nofun
  · split <;> exact nofun

theorem currState_detach (h : s.dfuObj.currState = .appIdle ∨ s.dfuObj.currState = .dfuIdle) :
    (xfsblDfuSetState s .appDetach).dfuObj.currState ≠ .dfuError := by
  simp only [xfsblDfuSetState]
  split
  next =>
    intro herr
    cases herr
  next happ =>
    rw [if_pos (h.resolve_left happ)]
    intro herr
    cases herr

theorem currState_dnload (h : s.dfuObj.currState ≠ .dfuError) (e : Setup) :
    (xfsblDfuDnload s e).dfuObj.currState ≠ .dfuError := by
  have hdata (t : Usb) (ht : t.dfuObj.currState = s.dfuObj.currState) :
      (dnloadData t e).1.dfuObj.currState ≠ .dfuError := by
    unfold dnloadData
    split
    · show t.dfuObj.currState ≠ _
      rw [ht]
      exact h
    · split
      · exact nofun
      · rw [ht]
        exact h
  unfold xfsblDfuDnload
  simp only
  split
  · exact nofun
  · refine hdata _ ?_
    unfold dnloadStart
    simp only
    split <;> rfl

theorem currState_getstatus (h : s.dfuObj.currState ≠ .dfuError) (e : Setup) :
    (xfsblDfuGetstatus s e).dfuObj.currState ≠ .dfuError := by
  have hobj : (if s.dfuObj.gotDnloadRqst then
      if s.dfuObj.currState = .dfuIdle then { s.dfuObj with currState := .dfuDownloadSync }
      else if s.dfuObj.currState = .dfuDownloadSync then { s.dfuObj with currState := .dfuDownloadBusy }
      else s.dfuObj
    else s.dfuObj).currState ≠ .dfuError := by
    split
    · split
      · exact nofun
      · split
        · exact nofun
        · exact h
    · exact h
  unfold xfsblDfuGetstatus
  simp only
  split <;> exact hobj

/-- No orderly event is an error. -/
theorem currState_handle (h : s.dfuObj.currState ≠ .dfuError) {ev : Event} (hev : OrderlyEvent seen s ev) :
    (handle s ev).dfuObj.currState ≠ .dfuError := by
  cases ev with
  | reset =>
    show (xfsblDfuReset s).dfuObj.currState ≠ _
    unfold xfsblDfuReset
    split <;> exact h
  | setup e =>
    show (xfsblCh9Handler s e).dfuObj.currState ≠ _
    unfold xfsblCh9Handler
    split
    next =>
      unfold xfsblStdDevReq
      split
      · exact h
      · split
        · exact currState_setIntf s e
        · exact h
    next =>
      split
      next hclass =>
        rcases hev.2 hclass with ⟨hreq, hstate⟩ | hreq | hreq
        all_goals rw [xfsblDfuClassReq, hreq]
        · exact currState_detach hstate
        · exact currState_dnload h e
        · exact currState_getstatus h e
      next => exact h

/-! ## Runs -/

/-- The count is not 3 before a complete download. -/
theorem complete_handle (h : s.downloadDone = 3 → Complete seen) {ev : Event} (hev : OrderlyEvent seen s ev) :
    (handle s ev).downloadDone = 3 → Complete (seen ++ [ev]) := by
  intro h3
  refine Complete.mono ?_ (List.sublist_append_left seen [ev])
  rcases downloadDone_handle s ev with hsame | ⟨hnext, e, rfl, he⟩
  · exact h (hsame ▸ h3)
  · refine hev.1 he ?_
    have hlt := s.downloadDone.toNat_lt
    have h3' : (s.downloadDone.toNat + 1) % 2 ^ 32 = 3 := by
      rw [hnext, ← UInt32.toNat_inj, UInt32.toNat_add] at h3
      exact h3
    exact UInt32.toNat_inj.mp (show s.downloadDone.toNat = 2 by omega)

theorem orderly_run (hstate : s.dfuObj.currState ≠ .dfuError) (hcount : s.downloadDone = 3 → Complete seen)
    (h : Orderly seen s es) :
    ((es.foldl handle s).downloadDone = 3 → Complete (seen ++ es)) ∧ ¬ Enters s es := by
  induction es generalizing s seen with
  | nil =>
    refine ⟨by simpa using hcount, ?_⟩
    rintro ⟨pre, hpre, herr⟩
    rw [List.prefix_nil.mp hpre] at herr
    exact hstate herr
  | cons ev es ih =>
    obtain ⟨hev, hrest⟩ := h
    obtain ⟨h1, h2⟩ := ih (currState_handle hstate hev) (complete_handle hcount hev) hrest
    refine ⟨by simpa using h1, ?_⟩
    rintro ⟨pre, hpre, herr⟩
    cases pre with
    | nil => exact hstate herr
    | cons x pre =>
      obtain ⟨hx, htail⟩ := List.cons_prefix_cons.mp hpre
      subst hx
      exact h2 ⟨pre, htail, herr⟩

/-- The loop ends behind the events it handles. -/
theorem usbLoop_handled (s : Usb) (polls : List (List Event)) {t : Usb} (h : usbLoop s polls = some t) :
    t = (usbHandled s polls).foldl handle s := by
  induction polls generalizing s with
  | nil =>
    rw [usbLoop] at h
    split at h
    · exact absurd h (by simp)
    · exact (Option.some.inj h).symm
  | cons poll polls ih =>
    rw [usbLoop] at h
    rw [usbHandled]
    split at h
    next hw =>
      rw [if_pos hw, List.foldl_append]
      exact ih _ h
    next hw =>
      rw [if_neg hw]
      exact (Option.some.inj h).symm

theorem downloadDone_usbStart (h2 : s.downloadDone ≠ 2) (h3 : s.downloadDone ≠ 3) :
    (usbStart s).downloadDone ≠ 3 := by
  show (if s.downloadDone = 0 then 1 else if s.downloadDone = 2 then s.downloadDone + 1 else s.downloadDone) ≠ 3
  rw [if_neg h2]
  split
  · decide
  · exact h3

/-- Success comes with the count of 3. -/
theorem usbInit_success {c : Controller} {polls : List (List Event)} {t : Usb}
    (h : xfsblUsbInit c s polls = some (xfsblSuccess, t)) :
    usbLoop (usbStart s) polls = some t ∧ t.downloadDone = xfsblDownloadComplete := by
  have hfail : xfsblFailure ≠ xfsblSuccess := by decide
  unfold xfsblUsbInit at h
  split at h
  · exact absurd (congrArg Prod.fst (Option.some.inj h)) hfail
  split at h
  · exact absurd (congrArg Prod.fst (Option.some.inj h)) hfail
  split at h
  · exact absurd (congrArg Prod.fst (Option.some.inj h)) hfail
  split at h
  · exact absurd (congrArg Prod.fst (Option.some.inj h)) hfail
  obtain ⟨t', hloop, hres⟩ := Option.map_eq_some_iff.mp h
  obtain ⟨hstatus, rfl⟩ := Prod.mk.inj hres
  refine ⟨hloop, ?_⟩
  by_contra hcount
  rw [if_neg hcount] at hstatus
  exact hfail hstatus

/-- **`XFsbl_UsbInit` waits for a download** as long as the host is orderly, from any count that has not
reached 3 at the start of the loop. -/
theorem usbInit_awaits (c : Controller) (s : Usb) (polls : List (List Event)) (h2 : s.downloadDone ≠ 2)
    (h3 : s.downloadDone ≠ 3) (h : Orderly [] (usbStart s) (usbHandled (usbStart s) polls)) :
    Awaits c s polls := by
  have hrun := @orderly_run (usbStart s) [] _ (show (usbStart s).dfuObj.currState ≠ .dfuError from nofun)
    (fun hd => absurd hd (downloadDone_usbStart h2 h3)) h
  constructor
  · intro t ht
    obtain ⟨hloop, hcount⟩ := usbInit_success ht
    rw [usbLoop_handled _ _ hloop] at hcount
    exact hrun.1 hcount
  · exact fun herr => absurd herr hrun.2


/-! ## Other hosts -/

/-- A driver that can be set up. -/
structure Controller.Ready (c : Controller) : Prop where
  found : c.found = true
  cfgInitialize : c.cfgInitialize = xfsblSuccess
  start : c.start = xfsblSuccess

theorem usbInit_ready {c : Controller} (hc : c.Ready) (s : Usb) (polls : List (List Event)) :
    xfsblUsbInit c s polls = (usbLoop (usbStart s) polls).map fun t =>
      (if t.downloadDone = xfsblDownloadComplete then xfsblSuccess else xfsblFailure, t) := by
  rw [xfsblUsbInit, if_neg (by decide), if_neg (by simp [hc.found]), if_neg (not_not_intro hc.cfgInitialize),
    if_neg (not_not_intro hc.start)]

theorem downloadDone_interface (h : s.downloadDone = 2) {e : Setup} (he : e.IsSetInterface) :
    (handle s (.setup e)).downloadDone = 3 := by
  have hnext : (xfsblDfuSetIntf s e).downloadDone = 3 := by
    unfold xfsblDfuSetIntf
    simp only
    split
    · simp only [xfsblDfuSetState, h]
      rfl
    · split
      · simp only [xfsblDfuSetState, h]
        rfl
      · simp only [xfsblDfuSetState, h]
        rfl
  show (xfsblCh9Handler s e).downloadDone = 3
  rw [xfsblCh9Handler, if_pos he.1, xfsblStdDevReq, if_neg he.2.1, if_pos he.2.2]
  exact hnext

/-- The last event of a complete download is a `DFU_DNLOAD` request. -/
theorem Complete.of_append {e : Setup} (he : ¬ e.IsDnload) (h : Complete (seen ++ [.setup e])) : Complete seen := by
  obtain ⟨block, last, h1, h2, h3, h4, h5, hsub⟩ := h
  refine ⟨block, last, h1, h2, h3, h4, h5, ?_⟩
  obtain ⟨l1, l2, hl, hsub1, hsub2⟩ := List.sublist_append_iff.mp hsub
  rcases List.sublist_singleton.mp hsub2 with rfl | rfl
  · rw [List.append_nil] at hl
    rw [hl]
    exact hsub1
  · have hlast := congrArg List.getLast? hl
    simp only [List.getLast?_append, List.getLast?_cons_cons, List.getLast?_singleton, Option.some_or,
      Option.some.injEq, Event.setup.injEq] at hlast
    exact absurd (hlast ▸ h4) he

/-- A class request that is not orderly. -/
theorem handle_disorderly {e : Setup}
    (hclass : e.packet.bRequestType &&& xfsblReqTypeMask = xfsblCmdClassreq)
    (h : ¬ ((e.packet.bRequest = dfuDetach ∧ (s.dfuObj.currState = .appIdle ∨ s.dfuObj.currState = .dfuIdle)) ∨
      e.packet.bRequest = dfuDnload ∨ e.packet.bRequest = dfuGetstatus)) :
    handle s (.setup e) = dfuError s := by
  simp only [not_or, not_and] at h
  obtain ⟨hdetach, hdnload, hgetstatus⟩ := h
  show xfsblCh9Handler s e = _
  rw [xfsblCh9Handler, hclass, if_neg (by decide), if_pos rfl, xfsblDfuClassReq]
  split
  next hreq =>
    obtain ⟨hidle, hdfu⟩ := hdetach hreq
    rw [xfsblDfuSetState, if_neg hidle, if_neg hdfu]
  next => rfl

/-- An event that is not orderly is the last one of a run that ends wrong, or does not end. -/
theorem orderlyEvent_of_step {ev : Event} (hw : Waits s)
    (hdone : (handle s ev).downloadDone = 3 → Complete (seen ++ [ev]))
    (herror : (handle s ev).dfuObj.currState = .dfuError → ¬ Waits (handle s ev)) : OrderlyEvent seen s ev := by
  cases ev with
  | reset => trivial
  | setup e =>
    refine ⟨fun he h2 => ?_, fun hclass => ?_⟩
    · refine Complete.of_append (fun hd => ?_) (hdone (downloadDone_interface h2 he))
      exact absurd (he.1.symm.trans hd.1) (by decide)
    · by_contra hno
      rw [handle_disorderly hclass hno] at herror
      exact herror rfl hw

/-- The runs of one event a poll, from the loop. -/
theorem orderly_of_runs
    (hdone : ∀ pre, pre <+: es → ∀ t, usbLoop s (pre.map fun e => [e]) = some t → t.downloadDone = 3 →
      Complete (seen ++ usbHandled s (pre.map fun e => [e])))
    (herror : ∀ pre, pre <+: es → Enters s (usbHandled s (pre.map fun e => [e])) →
      usbLoop s (pre.map fun e => [e]) ≠ none) :
    Orderly seen s (usbHandled s (es.map fun e => [e])) := by
  induction es generalizing s seen with
  | nil => trivial
  | cons ev es ih =>
    by_cases hw : Waits s
    · have hloop (pre : List Event) : usbLoop s ((ev :: pre).map fun e => [e]) =
          usbLoop (handle s ev) (pre.map fun e => [e]) := if_pos hw
      have hhandled (pre : List Event) : usbHandled s ((ev :: pre).map fun e => [e]) =
          ev :: usbHandled (handle s ev) (pre.map fun e => [e]) := if_pos hw
      have henters {fs : List Event} (h : Enters (handle s ev) fs) : Enters s (ev :: fs) := by
        obtain ⟨pre, hpre, herr⟩ := h
        exact ⟨ev :: pre, List.cons_prefix_cons.mpr ⟨rfl, hpre⟩, herr⟩
      have hone : [ev] <+: ev :: es := ⟨es, rfl⟩
      rw [hhandled]
      refine ⟨orderlyEvent_of_step hw (fun h3 => ?_) (fun herr hw' => ?_), ih (fun pre hpre t ht h3 => ?_)
        (fun pre hpre h => ?_)⟩
      · have h := hdone [ev] hone (handle s ev)
        rw [hhandled, hloop] at h
        exact h (if_neg fun hw' => absurd hw'.1 (by rw [h3]; decide)) h3
      · refine herror [ev] hone ?_ ?_
        · rw [hhandled]
          exact henters ⟨[], List.nil_prefix, herr⟩
        · rw [hloop]
          exact if_pos hw'
      · have h := hdone (ev :: pre) (List.cons_prefix_cons.mpr ⟨rfl, hpre⟩) t (by rw [hloop]; exact ht) h3
        rw [hhandled] at h
        rwa [List.append_assoc]
      · rw [← hloop]
        refine herror (ev :: pre) (List.cons_prefix_cons.mpr ⟨rfl, hpre⟩) ?_
        rw [hhandled]
        exact henters h
    · rw [show usbHandled s ((ev :: es).map fun e => [e]) = [] from if_neg hw]
      trivial

/-- **Only orderly hosts are waited for**, where the loop looks at the count after every event. -/
theorem orderly_of_awaits {c : Controller} (hc : c.Ready)
    (h : ∀ pre, pre <+: es → Awaits c s (pre.map fun e => [e])) :
    s.downloadDone ≠ 2 ∧ s.downloadDone ≠ 3 ∧
      Orderly [] (usbStart s) (usbHandled (usbStart s) (es.map fun e => [e])) := by
  have hempty : ¬ Complete [] := by
    rintro ⟨block, last, -, -, -, -, -, hsub⟩
    exact absurd (List.sublist_nil.mp hsub) (List.cons_ne_nil _ _)
  have hdone {pre : List Event} (hpre : pre <+: es) {t : Usb}
      (hloop : usbLoop (usbStart s) (pre.map fun e => [e]) = some t) (h3 : t.downloadDone = 3) :
      Complete (usbHandled (usbStart s) (pre.map fun e => [e])) := by
    refine (h pre hpre).complete t ?_
    rw [usbInit_ready hc, hloop, Option.map_some, if_pos (show t.downloadDone = xfsblDownloadComplete from h3)]
  have hstart (h3 : (usbStart s).downloadDone = 3) : False := by
    refine hempty (hdone List.nil_prefix (t := usbStart s) ?_ h3)
    exact if_neg fun hw => absurd hw.1 (by rw [h3]; decide)
  have hcount : (usbStart s).downloadDone =
      if s.downloadDone = 0 then 1 else if s.downloadDone = 2 then s.downloadDone + 1 else s.downloadDone := rfl
  refine ⟨fun h2 => hstart ?_, fun h3 => hstart ?_, orderly_of_runs (fun pre hpre t ht h3 => hdone hpre ht h3)
    fun pre hpre herr hnone => ?_⟩
  · rw [hcount, h2]
    rfl
  · rw [hcount, h3]
    rfl
  · obtain ⟨t, ht⟩ := (h pre hpre).error herr
    rw [usbInit_ready hc, hnone] at ht
    exact absurd ht (by simp)

/-! ## Two hosts -/

/-- The device before it is set up, nothing counted. -/
def offDevice : Usb := ⟨.zero, 0, fun _ => 0, []⟩

def readyController : Controller := ⟨true, xfsblSuccess, xfsblSuccess⟩

/-- `SET_INTERFACE` -/
def interfaceRequest (alternate : UInt16) : Setup where
  packet := ⟨0x01, xfsblReqSetInterface, alternate, 0⟩
  data := []
  started := true
  length_data := rfl

/-- The `DFU_DNLOAD` request that ends a download. -/
def lastRequest (number : UInt16) : Setup where
  packet := ⟨0x21, dfuDnload, number, 0⟩
  data := []
  started := true
  length_data := rfl

/-- A block of one byte between two interfaces. -/
theorem usbInit_awaits_download :
    Awaits readyController offDevice
      [[.setup (interfaceRequest 1)], [.setup (byteBlock 0)], [.setup (lastRequest 1)],
        [.setup (interfaceRequest 0)]] := by
  have hclass (e : Setup) (s : Usb) (h : e.packet.bRequest = dfuDnload) :
      (e.packet.bRequest = dfuDetach ∧ (s.dfuObj.currState = .appIdle ∨ s.dfuObj.currState = .dfuIdle)) ∨
        e.packet.bRequest = dfuDnload ∨ e.packet.bRequest = dfuGetstatus := .inr (.inl h)
  refine usbInit_awaits _ _ _ (by decide) (by decide)
    ⟨⟨fun _ h => absurd h (by decide), fun h => absurd h (by decide)⟩,
      ⟨fun h => absurd h.1 (by decide), fun _ => hclass _ _ rfl⟩,
      ⟨fun h => absurd h.1 (by decide), fun _ => hclass _ _ rfl⟩,
      ⟨fun _ _ => ⟨byteBlock 0, lastRequest 1, isDnload_byteBlock 0, List.cons_ne_nil _ _, rfl,
        ⟨by decide, rfl⟩, rfl, ?_⟩, fun h => absurd h (by decide)⟩, trivial⟩
  exact .cons _ (.refl _)

/-- The host selects an interface twice and nothing else. -/
theorem not_awaits :
    ¬ ∀ (c : Controller) (s : Usb) (polls : List (List Event)), s.downloadDone = 0 → Awaits c s polls := by
  intro h
  obtain ⟨block, last, -, -, -, hlast, -, hsub⟩ := (h readyController offDevice
    [[.setup (interfaceRequest 1)], [.setup (interfaceRequest 1)]] rfl).complete _ rfl
  have hmem : Event.setup last ∈ [.setup (interfaceRequest 1), .setup (interfaceRequest 1)] :=
    hsub.subset (List.mem_cons_of_mem _ (List.mem_singleton_self _))
  obtain rfl : last = interfaceRequest 1 := by simpa using hmem
  exact absurd hlast.1 (by decide)

end MeasuredBoot.Dfu
