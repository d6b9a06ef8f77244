import MeasuredBoot.LogBuffer

/-!
# The FSBL event

Each header pass of stage 2 hashes `fsblHashedBytes` bytes from the load address of partition
header 0 and records one FSBL event, whatever was read. A table that names a
secondary device ends the first pass before partition header 0 is read, and the second pass
records a second event (`fsbl_once_iff`). The partition loop starts at partition 1,
so no run tests the checksum of header 0, and the length in the header plays no
part (`fsbl_unbound`).
-/

namespace MeasuredBoot

open Prog TransSys

/-! ## Runs behind the boot device -/

/-- Acts of the loads: no header is read, no FSBL measured, header 0 not tested. -/
def LaterAct : Act → Prop
  | .logHeader => False
  | .tableRead _ => False
  | .headerRead _ => False
  | .hashed .fsbl _ _ => False
  | .hashed .rom _ _ => False
  | .recorded .fsbl _ => False
  | .recorded .rom _ => False
  | .recorded (.partition _) e => ∃ p d, ladderEvent p d = some e
  | .recorded (.bitstream _) e => ∃ d, e = bitstreamEvent d
  | .headerChecked n _ => 1 ≤ n
  | _ => True

theorem laterAct_of_loadAct {n : Nat} (hn : 1 ≤ n) (a : Act) (h : LoadAct n a) : LaterAct a := by
  cases a with
  | hashed s start input => cases s <;> trivial
  | recorded s e =>
    cases s with
    | rom => exact h
    | fsbl => exact h
    | partition m => exact h.2
    | bitstream m => exact h.2
  | headerChecked m ok =>
    obtain rfl : m = n := h
    exact hn
  | _ => trivial

section Loads

variable {hw : Hw} {P : Nat → World → Prop} {w w' : World} {n : Nat}

theorem Loaded.later (h : Loaded hw P w n w') : Emits LaterAct w w' := by
  induction h with
  | none => exact refl_of _ w
  | @next n v v' mask _ _ hl ih =>
    have hload := ((frame_partitionLoad hw (n + 1)).ok hl).emits.mono
      (laterAct_of_loadAct (Nat.le_add_left 1 n))
    have hcall : Emits LaterAct v (v.apply (.loadCalled (n + 1))) := emits_act trivial
    have hreturn : Emits LaterAct v' (v'.apply (.loadReturned (n + 1) xfsblSuccess)) :=
      emits_act trivial
    have hmarked (u : World) : Emits LaterAct u (u.apply (.r5Used mask)) := emits_act trivial
    exact trans_of _ (trans_of _ ih (trans_of _ hcall hload)) (trans_of _ hreturn (hmarked _))

/-- A JTAG end of stage 2 comes before anything is done. -/
theorem bootDevice_jtag (h : bootDeviceInitAndValidate hw w = .error (.status xfsblStatusJtag) w') :
    Does [] w w' := by
  rcases bind_error.1 h with h | ⟨_, v, -, h⟩
  · have hk : Inits (fun _ => False) w w' :=
      (frame_primaryBootDeviceInit hw (fun _ _ => rfl) fun _ _ => rfl).error h
    exact hk.does
  · have hrest : Raises BootError (do
        validateHeader hw
        modifyInst fun i =>
          { i with secondaryBootDevice := i.imageHeader.imageHeaderTable.partitionPresentDevice }
        secondaryBootDeviceInit hw) :=
      raises_bind (bootError_validateHeader hw) fun _ => raises_bind (raises_modifyInst _) fun _ =>
        bootError_secondaryBootDeviceInit hw
    exact absurd rfl (hrest _ _ _ h).2

theorem bootAct_of_passActs {t : ImageHeaderTable} {start : Nat} {input : List UInt8} {d : Digest} :
    ∀ a ∈ passActs t start input d, BootAct a := by
  intro a ha
  rcases List.mem_append.1 ha with ha | ha
  · rcases List.mem_cons.1 ha with rfl | ha
    · trivial
    · split at ha
      · obtain ⟨i, -, rfl⟩ := List.mem_map.1 ha
        trivial
      · cases ha
  · rcases List.mem_cons.1 ha with rfl | ha
    · trivial
    · obtain rfl := List.mem_singleton.1 ha
      exact ⟨d, rfl⟩

/-- The last header pass of a successful stage 2. -/
theorem DeviceBooted.last (h : DeviceBooted hw w w') :
    ∃ (u : World) (t : ImageHeaderTable), Emits BootAct w u ∧ HeaderPass hw t u w' := by
  cases h with
  | primary _ hp => exact ⟨w, _, refl_of _ w, hp⟩
  | @secondary t t' u _ hp hp' =>
    obtain ⟨d, -, ha⟩ := hp.acts
    exact ⟨u, t', ⟨_, bootAct_of_passActs, ha⟩, hp'⟩

end Loads

/-! ## What is hashed -/

/-- The measurement of the FSBL binds the partition that header 0 describes: the range is the one
in the header, and the header was tested before. -/
def FsblBound (s : MainState) : Prop :=
  let h := s.world.inst.imageHeader.partitionHeader[0]
  ∀ pre post start input, s.world.trace = pre ++ .hashed .fsbl start input :: post →
    (start = h.destinationLoadAddress.toNat ∧
      input.length = h.unEncryptedDataWordLength.toNat * 4) ∧
    .headerChecked 0 true ∈ pre

section Hashed

variable {hw : Hw} {s₀ s : MainState}

/-- The hash of the FSBL behind stage 2, and no test of header 0 in all of the trace. -/
theorem fsbl_hashed (h₀ : (boot hw).init s₀) (h : (boot hw).Run (fun _ => True) s₀ s)
    (hs : s.locals.fsblStage = .stage3) :
    (∃ pre post,
      let start := s.world.inst.imageHeader.partitionHeader[0].destinationLoadAddress.toNat
      let input := (s₀.world.replay pre).mem.load start fsblHashedBytes
      s.world.trace = pre ++ .hashed .fsbl start input :: post) ∧
      ∀ ok, .headerChecked 0 ok ∉ s.world.trace := by
  cases run_history h₀ h with
  | @loading w v n _ _ hi hb _ hl =>
    obtain ⟨⟨ini, hini, hdi⟩, -⟩ := (frame_fsblInitialize hw).ok hi
    obtain ⟨u, t, ⟨bs, hbs, hdb⟩, hp⟩ := (bootDevice_ok hb).1.last
    obtain ⟨d, -, hdp⟩ := hp.acts
    obtain ⟨later, hlater, hdl⟩ := hl.later
    have hfix : s.world.inst.imageHeader = v.inst.imageHeader := imageHeader_of_fixed hl.fixed
    have hmem : (s₀.world.replay (ini ++ bs ++ headerActs t)).mem = u.mem := by
      rw [World.replay_append, headerActs_mem, (hdi.trans hdb).mem]
    have htrace := ((hdi.trans hdb).trans (hdp.trans ((Does.act v .r5UsageCleared).trans hdl))).trace
    rw [h₀.2.trace, List.nil_append] at htrace
    refine ⟨⟨ini ++ bs ++ headerActs t, ?_⟩, fun ok hc => ?_⟩
    · rw [hfix, hmem, htrace, passActs]
      simp only [List.append_assoc, List.cons_append, List.nil_append]
      exact ⟨_, rfl⟩
    · rw [htrace] at hc
      simp only [List.mem_append, List.mem_cons, List.not_mem_nil, or_false, reduceCtorEq,
        false_or] at hc
      rcases hc with (hc | hc) | hc | hc
      · exact hini _ hc
      · exact hbs _ hc
      · exact bootAct_of_passActs _ hc
      · exact absurd (hlater _ hc) (by simp [LaterAct])
  | failed ho => simp [MainState.Over, hs] at ho
  | _ hs' => simp [hs] at hs'

/-- **The measurement never binds the FSBL partition**: once the headers are accepted, header 0 is
not tested in any run, and the hash takes `fsblHashedBytes` bytes whatever length the header has. -/
theorem fsbl_unbound (h₀ : (boot hw).init s₀) (h : (boot hw).Run (fun _ => True) s₀ s)
    (hs : s.locals.fsblStage = .stage3) :
    ¬ FsblBound s ∧ (∀ ok, .headerChecked 0 ok ∉ s.world.trace) ∧
      ∃ pre post,
        let start := s.world.inst.imageHeader.partitionHeader[0].destinationLoadAddress.toNat
        let input := (s₀.world.replay pre).mem.load start fsblHashedBytes
        s.world.trace = pre ++ .hashed .fsbl start input :: post := by
  obtain ⟨⟨pre, post, ht⟩, hc⟩ := fsbl_hashed h₀ h hs
  refine ⟨fun hb => ?_, hc, pre, post, ht⟩
  obtain ⟨-, htested⟩ := hb pre post _ _ ht
  exact hc true (by rw [ht]; exact List.mem_append_left _ htested)

end Hashed

/-- The headers of a boot of one partition are accepted, and header 0 was never tested. -/
theorem fsbl_unbound_plainBoard :
    (plainBoard.after 2).locals.fsblStage = .stage3 ∧ ¬ FsblBound (plainBoard.after 2) := by
  have hr : (boot plainBoard.hw).Run (fun _ => True) powerOn (plainBoard.after 2) :=
    plainBoard.run 0 2 (by decide +kernel)
  have hs : (plainBoard.after 2).locals.fsblStage = .stage3 := by decide +kernel
  exact ⟨hs, (fsbl_unbound (init_powerOn _) hr hs).1⟩

theorem not_fsblBound :
    ¬ ∀ (hw : Hw) (s₀ s : MainState), (boot hw).init s₀ → (boot hw).Run (fun _ => True) s₀ s →
      s.locals.fsblStage = .stage3 → FsblBound s := by
  intro h
  have hr : (boot plainBoard.hw).Run (fun _ => True) powerOn (plainBoard.after 2) :=
    plainBoard.run 0 2 (by decide +kernel)
  have hs : (plainBoard.after 2).locals.fsblStage = .stage3 := by decide +kernel
  obtain ⟨⟨pre, post, ht⟩, hc⟩ := fsbl_hashed (init_powerOn _) hr hs
  obtain ⟨-, hpre⟩ := h _ _ _ (init_powerOn _) hr hs pre post _ _ ht
  exact hc true (by rw [ht]; exact List.mem_append_left _ hpre)

/-! ## How often -/

/-- The event has this name. -/
def Event.named (e : Event) (name : CStr) : Bool := e.name.map CStr.chars == some name.chars

/-- The events named FSBL. -/
def fsblEvents (as : List Act) : List Event := (logged as).filter fun e => e.named fsblName

def tableAt : Act → Option ImageHeaderTable
  | .tableRead t => some t
  | _ => none

/-- The image header tables read. -/
def tablesRead (as : List Act) : List ImageHeaderTable := as.filterMap tableAt

/-- One FSBL event, of a hash that comes behind the reading of header 0. -/
def FsblOnce (as : List Act) : Prop :=
  (fsblEvents as).length = 1 ∧
    ∀ pre post e, as = pre ++ .recorded .fsbl e :: post →
      ∃ pre' start input, pre = pre' ++ [.hashed .fsbl start input] ∧ .headerRead 0 ∈ pre'

theorem fsblEvents_append (as bs : List Act) :
    fsblEvents (as ++ bs) = fsblEvents as ++ fsblEvents bs := by
  simp [fsblEvents, logged_append]

theorem tablesRead_append (as bs : List Act) :
    tablesRead (as ++ bs) = tablesRead as ++ tablesRead bs := List.filterMap_append

/-- An act that neither reads a table nor records an FSBL event. -/
structure Act.Plain (a : Act) : Prop where
  table : tableAt a = none
  events : fsblEvents [a] = []
  fsbl : ∀ e, a ≠ .recorded .fsbl e

theorem plain_acts {as : List Act} (h : ∀ a ∈ as, a.Plain) :
    tablesRead as = [] ∧ fsblEvents as = [] ∧ ∀ e, .recorded .fsbl e ∉ as := by
  refine ⟨List.filterMap_eq_nil_iff.2 fun a ha => (h a ha).table, ?_, fun e he => (h _ he).fsbl e rfl⟩
  induction as with
  | nil => rfl
  | cons a as ih =>
    rw [List.forall_mem_cons] at h
    rw [← List.singleton_append, fsblEvents_append, h.1.events, ih h.2]
    rfl

theorem fsblEvents_recorded (s : Subject) (e : Event) (h : e.named fsblName = false) :
    fsblEvents [.recorded s e] = [] := by
  simp [fsblEvents, logged, h]

theorem ladderEvent_named {p : Nat} {d : Digest} {e : Event} (h : ladderEvent p d = some e) :
    e.named fsblName = false := by
  unfold ladderEvent at h
  split at h <;> [skip; split at h <;> [skip; split at h <;> [skip; split at h]]] <;>
    cases h <;> rfl

theorem plain_of_laterAct (a : Act) (h : LaterAct a) : a.Plain := by
  cases a with
  | recorded s e =>
    cases s with
    | rom => exact h.elim
    | fsbl => exact h.elim
    | partition m =>
      obtain ⟨p, d, he⟩ := h
      exact ⟨rfl, fsblEvents_recorded _ e (ladderEvent_named he), nofun⟩
    | bitstream m =>
      obtain ⟨d, rfl⟩ := h
      exact ⟨rfl, fsblEvents_recorded _ _ rfl, nofun⟩
  | tableRead t => exact h.elim
  | _ => exact ⟨rfl, rfl, nofun⟩

theorem plain_of_initAct {hw : Hw} (a : Act) (h : InitAct hw a) : a.Plain := by
  cases a with
  | recorded s e =>
    cases s with
    | rom =>
      obtain rfl : e = romEvent hw := h
      exact ⟨rfl, fsblEvents_recorded _ _ rfl, nofun⟩
    | _ => exact h.elim
  | tableRead t => exact h.elim
  | _ => exact ⟨rfl, rfl, nofun⟩

theorem plain_headerReads (is : List Nat) : ∀ a ∈ is.map Act.headerRead, a.Plain := by
  intro a ha
  obtain ⟨i, -, rfl⟩ := List.mem_map.1 ha
  exact ⟨rfl, rfl, nofun⟩

section Once

variable {hw : Hw} {s : MainState}

theorem headerActs_plain (t : ImageHeaderTable) :
    tablesRead (headerActs t) = [t] ∧ fsblEvents (headerActs t) = [] ∧
      ∀ e, .recorded .fsbl e ∉ headerActs t := by
  have hreads : ∀ a ∈ (if t.Same then (List.range t.noOfPartitions.toNat).map Act.headerRead else []),
      a.Plain := by
    split
    · exact plain_headerReads _
    · nofun
  obtain ⟨h1, h2, h3⟩ := plain_acts hreads
  unfold headerActs
  rw [← List.singleton_append, tablesRead_append, fsblEvents_append, h1, h2]
  refine ⟨rfl, rfl, fun e he => ?_⟩
  rcases List.mem_append.1 he with he | he
  · simp at he
  · exact h3 e he

theorem tablesRead_passActs (t : ImageHeaderTable) (start : Nat) (input : List UInt8) (d : Digest) :
    tablesRead (passActs t start input d) = [t] := by
  rw [passActs, tablesRead_append, (headerActs_plain t).1]
  rfl

theorem fsblEvents_passActs (t : ImageHeaderTable) (start : Nat) (input : List UInt8) (d : Digest) :
    fsblEvents (passActs t start input d) = [fsblEvent d] := by
  rw [passActs, fsblEvents_append, (headerActs_plain t).2.1]
  rfl

/-- Header 0 is among the headers read. -/
theorem headerRead_zero {t : ImageHeaderTable} (hs : t.Same) (hn : 2 ≤ t.noOfPartitions.toNat) :
    .headerRead 0 ∈ headerActs t := by
  unfold headerActs
  rw [if_pos hs]
  refine List.mem_cons_of_mem _ (List.mem_map_of_mem (List.mem_range.2 ?_))
  omega

/-- The only member of its kind is where it is. -/
theorem split_unique {α : Type} {P : α → Prop} (xs : List α) {ys pre post : List α} {a b : α}
    (h : xs ++ a :: ys = pre ++ b :: post) (hb : P b) (hx : ∀ c ∈ xs, ¬ P c)
    (hy : ∀ c ∈ ys, ¬ P c) : pre = xs := by
  rcases List.append_eq_append_iff.1 h with ⟨as, rfl, has⟩ | ⟨as, rfl, has⟩
  · cases as with
    | nil => simp
    | cons c as =>
      simp only [List.cons_append, List.cons.injEq] at has
      exact absurd hb (hy b (by rw [has.2]; simp))
  · cases as with
    | nil => simp
    | cons c as =>
      simp only [List.cons_append, List.cons.injEq] at has
      exact absurd hb (hx b (by simp [has.1]))

/-- **Exactly one FSBL event, of a header that was read**: at handoff this holds if and only if the
first image header table of the run names no secondary device. -/
theorem fsbl_once_iff (h : (boot hw).Reachable s) (hs : s.locals.fsblStage = .stage4) :
    FsblOnce s.world.trace ↔ ∃ t, (tablesRead s.world.trace).head? = some t ∧ t.Same := by
  obtain ⟨s₀, h₀, hr⟩ := h
  cases run_history h₀ hr with
  | @loaded w v n _ _ hi hb _ hl =>
    obtain ⟨⟨ini, hini, hdi⟩, -⟩ := (frame_fsblInitialize hw).ok hi
    obtain ⟨later, hlater, hdl⟩ := hl.later
    have hdl := (Does.act v .r5UsageCleared).trans hdl
    obtain ⟨hi1, hi2, hi3⟩ := plain_acts fun a ha => plain_of_initAct a (hini a ha)
    have hplain : ∀ a ∈ .r5UsageCleared :: later, a.Plain := by
      intro a ha
      rcases List.mem_cons.1 ha with rfl | ha
      · exact ⟨rfl, rfl, by simp⟩
      · exact plain_of_laterAct a (hlater a ha)
    obtain ⟨hl1, hl2, hl3⟩ := plain_acts hplain
    cases (bootDevice_ok hb).1 with
    | @primary t hsame hp =>
      obtain ⟨d, -, hdp⟩ := hp.acts
      have htrace := ((hdi.trans hdp).trans hdl).trace
      rw [h₀.2.trace, List.nil_append] at htrace
      refine iff_of_true ⟨?_, fun pre post e he => ?_⟩ ⟨t, ?_, hsame⟩
      · rw [htrace, List.singleton_append]
        simp only [fsblEvents_append, hi2, fsblEvents_passActs, hl2]
        rfl
      · obtain ⟨-, -, ht3⟩ := headerActs_plain t
        have he' := htrace.symm.trans he
        simp only [passActs, List.append_assoc, List.cons_append, List.nil_append] at he'
        have hpre := split_unique (P := fun a => ∃ e, a = .recorded .fsbl e)
          (ini ++ headerActs t ++ [.hashed .fsbl _ _]) (by simpa using he') ⟨e, rfl⟩ ?_ ?_
        · exact ⟨ini ++ headerActs t, _, _, hpre,
            List.mem_append_right _ (headerRead_zero hsame (hp.count hsame).1)⟩
        · rintro c hc ⟨e, rfl⟩
          simp only [List.mem_append, List.mem_singleton, reduceCtorEq, or_false] at hc
          rcases hc with hc | hc
          · exact hi3 e hc
          · exact ht3 e hc
        · rintro c hc ⟨e, rfl⟩
          exact hl3 e hc
      · rw [htrace, List.singleton_append]
        simp only [tablesRead_append, hi1, tablesRead_passActs, hl1]
        rfl
    | @secondary t t' u hnot hp hp' =>
      obtain ⟨d, -, hdp⟩ := hp.acts
      obtain ⟨d', -, hdp'⟩ := hp'.acts
      have htrace := (((hdi.trans hdp).trans hdp').trans hdl).trace
      rw [h₀.2.trace, List.nil_append, List.singleton_append] at htrace
      refine iff_of_false (fun ho => ?_) ?_
      · have hone := ho.1
        rw [htrace] at hone
        simp only [fsblEvents_append, hi2, fsblEvents_passActs, hl2] at hone
        cases hone
      · rintro ⟨t'', hhead, hsame⟩
        rw [htrace] at hhead
        simp only [tablesRead_append, hi1, tablesRead_passActs] at hhead
        cases hhead
        exact hnot hsame
  | @jtag w v mask _ _ hi hb hw' =>
    obtain ⟨⟨ini, hini, hdi⟩, -⟩ := (frame_fsblInitialize hw).ok hi
    obtain ⟨hi1, hi2, -⟩ := plain_acts fun a ha => plain_of_initAct a (hini a ha)
    have htrace := ((hdi.trans (bootDevice_jtag hb)).trans (.act v (.r5Used mask))).trace
    rw [← hw', h₀.2.trace, List.nil_append, List.append_nil] at htrace
    refine iff_of_false (fun ho => ?_) ?_
    · have hone := ho.1
      rw [htrace, fsblEvents_append, hi2] at hone
      cases hone
    · rintro ⟨t, hhead, -⟩
      rw [htrace, tablesRead_append, hi1] at hhead
      cases hhead
  | failed ho => simp [MainState.Over, hs] at ho
  | _ hs' => simp [hs] at hs'

end Once

/-- A boot of one device: one event, of a header that was read. -/
theorem fsbl_once_iff_plainBoard :
    FsblOnce (plainBoard.after 3).world.trace ↔
      ∃ t, (tablesRead (plainBoard.after 3).world.trace).head? = some t ∧ t.Same := by
  have hr : (boot plainBoard.hw).Run (fun _ => True) powerOn (plainBoard.after 3) :=
    plainBoard.run 0 3 (by decide +kernel)
  exact fsbl_once_iff ⟨_, init_powerOn _, hr⟩ (by decide +kernel)

/-- A boot that goes on to an SD card: two events at handoff. -/
theorem not_fsblOnce :
    ¬ ∀ (hw : Hw) (s : MainState), (boot hw).Reachable s → s.locals.fsblStage = .stage4 →
      FsblOnce s.world.trace := by
  intro h
  have hr : (boot secondaryBoard.hw).Run (fun _ => True) powerOn (secondaryBoard.after 3) :=
    secondaryBoard.run 0 3 (by decide +kernel)
  have hone := (h _ _ ⟨_, init_powerOn _, hr⟩ (by decide +kernel)).1
  have htwo : (fsblEvents (secondaryBoard.after 3).world.trace).length = 2 := by decide +kernel
  omega

end MeasuredBoot
