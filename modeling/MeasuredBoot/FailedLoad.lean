import MeasuredBoot.Errors
import MeasuredBoot.PartitionLoaded

/-!
# What a failed load did

`partitionLoad_failed`: a load that returned an error code placed bytes of its partition and logged
nothing, with one exception: what fails behind the download of an unsigned bitstream comes behind
its event. The measurement of any other partition is the last step that can end a load, and returns
no error code.
-/

namespace MeasuredBoot

open Prog

/-- Anything but an error code. -/
def NoStatus (e : Halt) : Prop := ∀ code, e ≠ .status code

section Raises

variable (hw : Hw)

theorem noStatus_header (n : Nat) : Raises NoStatus (header n) := by
  intro w e w' h
  unfold header at h
  split at h
  · cases h
  · cases h
    exact nofun

theorem noStatus_wait (c : Call) : Raises NoStatus (wait hw c) := raises_wait hw nofun

theorem noStatus_shaDigest (input : List UInt8) : Raises NoStatus (shaDigest hw input) :=
  raises_shaDigest hw nofun

theorem noStatus_updateHandoff (n : Nat) (h : PartitionHeader) (destinationCpu : UInt32) :
    Raises NoStatus (updateHandoff n h destinationCpu) := by
  refine raises_bind raises_get fun _ => raises_ite (fun _ => ?_) fun _ => raises_pure _
  exact raises_ite (fun _ => raises_act _) fun _ => raises_throw nofun

theorem noStatus_flushPrinted (run : PrintRun) : Raises NoStatus (flushPrinted run) := by
  unfold flushPrinted
  split
  · exact raises_act _
  · exact raises_throw nofun
  · exact raises_throw nofun

theorem noStatus_recordLadder (n p : Nat) (d : Digest) : Raises NoStatus (recordLadder n p d) := by
  have record (pcr : UInt32) (name : CStr) : Raises NoStatus (recordPartition n d pcr name) :=
    raises_bind (raises_act _) fun _ => raises_act _
  have print : Raises NoStatus printEventLog :=
    raises_bind raises_get fun _ => noStatus_flushPrinted _
  unfold recordLadder
  refine raises_ite (fun _ => record _ _) fun _ => raises_ite (fun _ => record _ _) fun _ => ?_
  refine raises_ite (fun _ => record _ _) fun _ => raises_ite (fun _ => ?_) fun _ => raises_pure _
  exact raises_bind (record _ _) fun _ => print

theorem noStatus_tpmMeasurePartition (n : Nat) (loadAddress : UInt64) :
    Raises NoStatus (tpmMeasurePartition hw n loadAddress) := by
  refine raises_bind (noStatus_header n) fun _ => raises_bind (raises_loadMem _ _) fun _ => ?_
  refine raises_bind (noStatus_shaDigest hw _) fun _ => raises_bind (raises_act _) fun _ => ?_
  exact raises_bind raises_get fun _ => noStatus_recordLadder n _ _

theorem noStatus_finishPartition (n : Nat) (h : PartitionHeader) (destinationCpu : UInt32)
    (loadAddress : UInt64) : Raises NoStatus (finishPartition hw n h destinationCpu loadAddress) := by
  refine raises_when fun _ => raises_bind (raises_when fun _ => ?_) fun _ => ?_
  · exact noStatus_updateHandoff n h _
  · exact noStatus_tpmMeasurePartition hw n _

theorem noStatus_checkPmuFw (n : Nat) : Raises NoStatus (checkPmuFw hw n) := by
  refine raises_bind (raises_bind (noStatus_header n) fun _ => raises_ite (fun _ => ?_) fun _ => ?_)
    fun _ => raises_when fun _ => ?_
  · refine raises_bind raises_get fun _ => raises_ite (fun _ => ?_) fun _ => raises_pure _
    exact raises_bind (noStatus_header _) fun _ => raises_pure _
  · exact raises_pure _
  · exact raises_bind (raises_act _) fun _ => noStatus_wait hw _

/-- `Tpm_Measure_Pl` returns its status and raises no error code. -/
theorem noStatus_tpmMeasurePl (n : Nat) (source : UInt64) :
    Raises NoStatus (tpmMeasurePl hw n source) := by
  have record (r : UInt32 × Digest) : Raises NoStatus (recordBitstream n r) :=
    raises_ite (fun _ => raises_pure _) fun _ =>
      raises_bind (raises_act _) fun _ => raises_pure _
  refine raises_bind (noStatus_header n) fun h => raises_ite (fun _ => ?_) fun _ => ?_
  · refine raises_bind (raises_bind (raises_loadMem _ _) fun _ => raises_bind ?_ fun _ => ?_)
      fun _ => record _
    · refine raises_bind (raises_when fun _ => raises_throw nofun) fun _ => ?_
      exact raises_bind (noStatus_wait hw _) fun _ => raises_call hw _
    · refine raises_bind (noStatus_shaDigest hw _) fun _ => ?_
      exact raises_bind (raises_act _) fun _ => raises_pure _
  · refine raises_bind (raises_bind (raises_ask _) fun blocks => ?_) fun _ => record _
    cases aesBlockLoop (h.unEncryptedDataWordLength <<< 2) 0 blocks with
    | none => exact raises_throw nofun
    | some status =>
      refine raises_bind (raises_ask _) fun _ => raises_bind (raises_ask _) fun finish => ?_
      refine raises_bind (raises_call hw _) fun _ => ?_
      cases finish with
      | stuck => exact raises_throw nofun
      | done => exact raises_pure _
      | timeout => exact raises_pure _

end Raises

/-! ## The parts of the validation -/

/-- The code of a failure behind the download of a bitstream: of the wait for the PL, or of the hook
behind it. -/
def AfterDownload (hw : Hw) (code : UInt32) : Prop :=
  (∃ t, code = hw.call t .plWaitForDone ∧ code ≠ xfsblSuccess) ∨
    code = xfsblErrorHookAfterBitstreamDownload ∧
      ∃ t, hw.call t .hookAfterBSDownload ≠ xfsblSuccess

/-- An act of a load that neither logs nor counts. -/
def UnloggedAct (n : Nat) (a : Act) : Prop :=
  BodyPlaceAct n a ∨ ∃ start input, a = .hashed (.bitstream n) start input

/-- What a load of partition `n` with an error code did: the acts `pre`, and the event of a bitstream
if the failure came behind its download. -/
inductive FailedLoad (hw : Hw) (n : Nat) (h : PartitionHeader) (code : UInt32) (w w' : World) :
    Prop where
  | unlogged {pre : List Act} : (∀ a ∈ pre, UnloggedAct n a) → Moves pre w w' →
      FailedLoad hw n h code w w'
  | logged {pre : List Act} (d : Digest) : h.toPl = true → h.authenticated = false →
      AfterDownload hw code → (∀ a ∈ pre, UnloggedAct n a) →
      Moves (pre ++ [.recorded (.bitstream n) (bitstreamEvent d)]) w w' →
      FailedLoad hw n h code w w'

section Failed

variable {hw : Hw} {n : Nat} {h : PartitionHeader} {code : UInt32} {w v w' : World} {u : Unit}

theorem FailedLoad.of_loads (hl : Loads (BodyPlaceAct n) w w') : FailedLoad hw n h code w w' := by
  obtain ⟨as, has, hm⟩ := hl
  exact .unlogged (fun a ha => .inl (has a ha)) hm

/-- Placed bytes before a failed part. -/
theorem FailedLoad.after (hf : FailedLoad hw n h code v w') (hl : Loads (BodyPlaceAct n) w v) :
    FailedLoad hw n h code w w' := by
  obtain ⟨as, has, hm⟩ := hl
  have unlogged {pre : List Act} (hpre : ∀ a ∈ pre, UnloggedAct n a) : ∀ a ∈ as ++ pre,
      UnloggedAct n a := forall_mem_append (fun a ha => .inl (has a ha)) hpre
  cases hf with
  | unlogged hpre hm' => exact .unlogged (unlogged hpre) (hm.trans hm')
  | logged d hpl ha hc hpre hm' =>
    refine .logged d hpl ha hc (unlogged hpre) ?_
    rw [List.append_assoc]
    exact hm.trans hm'

theorem loads_of_ticks {A : Act → Prop} (ht : Ticks w w') : Loads A w w' := ⟨[], by simp, ht.moves⟩

/-- A failed download has no event: only the encrypted branch looks at the status. -/
theorem downloadBitstream_failed (hn : n < 32) {loadAddress : UInt64}
    (hh : w.inst.imageHeader.partitionHeader[n] = h)
    (hd : downloadBitstream hw n h loadAddress w = .error (.status code) w') :
    FailedLoad hw n h code w w' := by
  unfold downloadBitstream when at hd
  split at hd
  · rcases bind_error.1 hd with hd | ⟨status, v, hs, hd⟩
    · exact absurd rfl (noStatus_tpmMeasurePl hw n _ _ _ _ hd code)
    · unfold ensure at hd
      split at hd
      · simp at hd
      · rename_i hne
        obtain ⟨he, hne⟩ := not_or.1 hne
        rw [Bool.not_eq_false] at he
        obtain ⟨-, rfl⟩ := throw_error.1 hd
        obtain ⟨d, hm⟩ := tpmMeasurePl_encrypted hn (by rw [hh, he]) hs
        rw [bitstreamActs, if_pos hne] at hm
        exact .unlogged (by simp) hm
  · simp at hd

theorem afterBitstream_failed (ha : afterBitstream hw h w = .error (.status code) w') :
    Ticks w w' ∧ h.toPl = true ∧ AfterDownload hw code := by
  refine ⟨(frame_afterBitstream (R := Ticks) hw h).error ha, ?_⟩
  unfold afterBitstream when at ha
  split at ha
  · refine ⟨by assumption, ?_⟩
    rcases bind_error.1 ha with ha | ⟨_, v, -, ha⟩
    · rcases bind_error.1 ha with ha | ⟨status, v, hc, ha⟩
      · exact absurd ha (by simp [call, ask])
      · rw [call_ok hc] at ha
        unfold ensure at ha
        split at ha
        · simp at ha
        · rename_i hne
          obtain ⟨rfl, -⟩ : hw.call w.tick .plWaitForDone = code ∧ _ := by simpa using ha
          exact .inl ⟨_, rfl, hne⟩
    · rcases bind_error.1 ha with ha | ⟨status, v', hc, ha⟩
      · exact absurd ha (by simp [call, ask])
      · rw [call_ok hc] at ha
        unfold ensure at ha
        split at ha
        · simp at ha
        · rename_i hne
          obtain ⟨rfl, -⟩ : xfsblErrorHookAfterBitstreamDownload = code ∧ _ := by simpa using ha
          exact .inr ⟨rfl, _, hne⟩
  · simp at ha

/-- What a download did before a failure behind it. -/
theorem ValidActs.failedLoad {loadAddress : UInt64} {as : List Act}
    (hv : ValidActs hw n h w loadAddress as) (hpl : h.toPl = true) (hm : Moves as w w')
    (hc : AfterDownload hw code) : FailedLoad hw n h code w w' := by
  cases hv with
  | signedPl => exact .unlogged (by simp) hm
  | @plainPl input status d t _ ha _ _ _ _ _ =>
    have hhashed : ∀ a ∈ [Act.hashed (.bitstream n) (plLoadAddress h loadAddress).toNat input],
        UnloggedAct n a := by
      intro a ha
      exact .inr ⟨_, _, List.mem_singleton.1 ha⟩
    unfold bitstreamActs at hm
    split at hm
    · exact .unlogged hhashed hm
    · exact .logged d hpl ha hc hhashed hm
  | encryptedPl d _ ha =>
    rw [bitstreamActs, if_neg (by simp)] at hm
    have hnone : ∀ a ∈ ([] : List Act), UnloggedAct n a := nofun
    exact .logged d hpl ha hc hnone hm
  | plain hp => rw [hp] at hpl; cases hpl
  | decrypted _ hp => rw [hp] at hpl; cases hpl

theorem validatePlaced_failed (hn : n < 32) (hh : w.inst.imageHeader.partitionHeader[n] = h)
    (hv : validatePlaced hw n h w.inst (h.effectiveCpu w.inst.processorID) w =
      .error (.status code) w') : FailedLoad hw n h code w w' := by
  rcases bind_error.1 hv with hv | ⟨loadAddress, v₀, h0, hv⟩
  · exact .of_loads ((frame_ofExcept _).error hv)
  obtain ⟨-, rfl⟩ := ofExcept_ok.1 h0
  rcases bind_error.1 hv with hv | ⟨_, v₁, h1, hv⟩
  · exact .of_loads ((frame_checkPartition hw n h w.inst _).error hv)
  have m1 := (frame_checkPartition (R := Loads (BodyPlaceAct n)) hw n h w.inst _).ok h1
  refine FailedLoad.after ?_ m1
  rcases bind_error.1 hv with hv | ⟨_, v₂, h2, hv⟩
  · exact .of_loads ((frame_decryptPartition hw n h _).error hv)
  have m2 := (frame_decryptPartition hw n h _).ok h2
  refine FailedLoad.after ?_ m2
  have hh₂ : v₂.inst.imageHeader.partitionHeader[n] = h := by
    obtain ⟨_, -, m1⟩ := m1
    obtain ⟨_, -, m2⟩ := m2
    rw [m2.imageHeader, m1.imageHeader, hh]
  rcases bind_error.1 hv with hv | ⟨_, v₃, h3, hv⟩
  · exact downloadBitstream_failed hn hh₂ hv
  rcases bind_error.1 hv with hv | ⟨_, v₄, h4, hv⟩
  · obtain ⟨ht, hpl, hc⟩ := afterBitstream_failed hv
    obtain ⟨as, hva, hm⟩ := downloadBitstream_ok hn hh₂ hpl h3
    have hall := hm.trans ht.moves
    rw [List.append_nil] at hall
    exact hva.failedLoad hpl hall hc
  · exact absurd rfl (noStatus_finishPartition hw n h _ _ _ _ _ hv code)

/-- **What a failed load did.** -/
theorem partitionLoad_failed (hf : partitionLoad hw n w = .error (.status code) w') :
    FailedLoad hw n (w.inst.imageHeader.header n) code w w' := by
  rcases bind_error.1 hf with hf | ⟨owned, v, h1, hf⟩
  · exact .of_loads ((frame_partitionHeaderValidation hw n).error hf)
  have m1 := (frame_partitionHeaderValidation (R := Loads (BodyPlaceAct n)) hw n).ok h1
  obtain ⟨hn, -⟩ := partitionHeaderValidation_ok h1
  unfold when at hf
  split at hf
  · refine FailedLoad.after ?_ m1
    rcases bind_error.1 hf with hf | ⟨_, v₁, h2, hf⟩
    · exact .of_loads ((frame_partitionCopy hw n).error hf)
    have m2 := (frame_partitionCopy hw n).ok h2
    refine FailedLoad.after ?_ m2
    have hh : v₁.inst.imageHeader.partitionHeader[n] = w.inst.imageHeader.header n := by
      obtain ⟨_, -, m1⟩ := m1
      obtain ⟨_, -, m2⟩ := m2
      rw [m2.imageHeader, m1.imageHeader, header_eq hn]
    rcases bind_error.1 hf with hf | ⟨_, v₂, h3, hf⟩
    · rcases bind_error.1 hf with hf | ⟨ph, v', hv, hf⟩
      · exact absurd rfl (noStatus_header n _ _ _ hf code)
      obtain ⟨⟨_, hph⟩, rfl⟩ := header_ok.1 hv
      rw [hh] at hph
      subst hph
      rcases bind_error.1 hf with hf | ⟨v', v'', hv, hf⟩
      · simp at hf
      obtain ⟨rfl, rfl⟩ := get_ok.1 hv
      split at hf
      · simp at hf
      · exact validatePlaced_failed hn hh hf
    · exact absurd rfl (noStatus_checkPmuFw hw n _ _ _ hf code)
  · simp at hf

end Failed

end MeasuredBoot
