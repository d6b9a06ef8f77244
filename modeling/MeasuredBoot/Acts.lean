import MeasuredBoot.Platform

/-!
# What a program does

`Does as w w'`: the state `w'` comes from `w` by the acts `as`. The part of the
state acts change is the `View`, so memory, log pointer, counter and handoff table of
`w'` are those of `w.replay as`. `Emits A` is the relation of the programs whose
acts are all `A`; `Loads A` adds that only the TCM status and the handoff table of
the instance changed, and `Ticks` that nothing but the clock did. Each primitive has
its frame for every relation with the clock's step (`Silent`) and the inversion
of its success.
-/

namespace MeasuredBoot

open Prog

/-! ## Views -/

/-- The part of the state acts change. -/
structure View where
  mem : Mem
  logPtr2 : Nat
  partition : Nat
  handoffValues : List HandoffValue

namespace World

def view (w : World) : View := ⟨w.mem, w.logPtr2, w.partition, w.inst.handoffValues⟩

/-- The effects of a list of acts. -/
def replay (w : World) (as : List Act) : World := as.foldl effect w

@[simp] theorem replay_nil (w : World) : w.replay [] = w := rfl

@[simp] theorem replay_cons (w : World) (a : Act) (as : List Act) :
    w.replay (a :: as) = (w.effect a).replay as := rfl

theorem replay_append (w : World) (as bs : List Act) :
    w.replay (as ++ bs) = (w.replay as).replay bs := List.foldl_append ..

theorem effect_view_congr {w v : World} (h : w.view = v.view) (a : Act) :
    (w.effect a).view = (v.effect a).view := by
  obtain ⟨h1, h2, h3, h4⟩ := View.mk.inj h
  cases a <;> simp only [effect, view, h1, h2, h3, h4]

theorem replay_view_congr {w v : World} (h : w.view = v.view) (as : List Act) :
    (w.replay as).view = (v.replay as).view := by
  induction as generalizing w v with
  | nil => exact h
  | cons a as ih => exact ih (effect_view_congr h a)

@[simp] theorem view_apply (w : World) (a : Act) : (w.apply a).view = (w.effect a).view := rfl

@[simp] theorem trace_apply (w : World) (a : Act) : (w.apply a).trace = w.trace ++ [a] := rfl

end World

/-- The instance structure without the fields partition loading changes. -/
def XFsblPs.fixed (i : XFsblPs) : XFsblPs := { i with handoffValues := [], tcmEccInitStatus := 0 }

theorem World.fixed_apply (w : World) (a : Act) : (w.apply a).inst.fixed = w.inst.fixed := by
  cases a <;> rfl

/-! ## `Does` -/

structure Does (as : List Act) (w w' : World) : Prop where
  trace : w'.trace = w.trace ++ as
  view : w'.view = (w.replay as).view

namespace Does

variable {w w' w'' : World} {as bs : List Act}

theorem refl (w : World) : Does [] w w := ⟨(List.append_nil _).symm, rfl⟩

theorem trans (h : Does as w w') (h' : Does bs w' w'') : Does (as ++ bs) w w'' where
  trace := by rw [h'.trace, h.trace, List.append_assoc]
  view := by rw [h'.view, World.replay_view_congr h.view, World.replay_append]

theorem act (w : World) (a : Act) : Does [a] w (w.apply a) := ⟨rfl, rfl⟩

theorem unique (h : Does as w w') (h' : Does bs w w') : as = bs :=
  List.append_cancel_left (h.trace.symm.trans h'.trace)

theorem mem (h : Does as w w') : w'.mem = (w.replay as).mem := congrArg View.mem h.view

theorem logPtr2 (h : Does as w w') : w'.logPtr2 = (w.replay as).logPtr2 :=
  congrArg View.logPtr2 h.view

theorem partition (h : Does as w w') : w'.partition = (w.replay as).partition :=
  congrArg View.partition h.view

theorem handoffValues (h : Does as w w') :
    w'.inst.handoffValues = (w.replay as).inst.handoffValues :=
  congrArg View.handoffValues h.view

end Does

/-- The acts of a program that loads. -/
structure Moves (as : List Act) (w w' : World) : Prop extends Does as w w' where
  inst : w'.inst.fixed = w.inst.fixed

namespace Moves

variable {w w' w'' : World} {as bs : List Act}

theorem refl (w : World) : Moves [] w w := ⟨.refl w, rfl⟩

theorem trans (h : Moves as w w') (h' : Moves bs w' w'') : Moves (as ++ bs) w w'' :=
  ⟨h.toDoes.trans h'.toDoes, h'.inst.trans h.inst⟩

theorem act (w : World) (a : Act) : Moves [a] w (w.apply a) := ⟨.act w a, w.fixed_apply a⟩

theorem processorID (h : Moves as w w') : w'.inst.processorID = w.inst.processorID := by
  simpa [XFsblPs.fixed] using congrArg XFsblPs.processorID h.inst

theorem resetReason (h : Moves as w w') : w'.inst.resetReason = w.inst.resetReason := by
  simpa [XFsblPs.fixed] using congrArg XFsblPs.resetReason h.inst

theorem imageHeader (h : Moves as w w') : w'.inst.imageHeader = w.inst.imageHeader := by
  simpa [XFsblPs.fixed] using congrArg XFsblPs.imageHeader h.inst

end Moves

/-- Acts of one kind only. -/
def Emits (A : Act → Prop) (w w' : World) : Prop := ∃ as, (∀ a ∈ as, A a) ∧ Does as w w'

/-- Acts of one kind, and a fixed instance. -/
def Loads (A : Act → Prop) (w w' : World) : Prop := ∃ as, (∀ a ∈ as, A a) ∧ Moves as w w'

/-- Only the clock moved. -/
def Ticks (w w' : World) : Prop := ∃ k, w' = { w with tick := k }

theorem forall_mem_append {A : Act → Prop} {as bs : List Act} (ha : ∀ a ∈ as, A a)
    (hb : ∀ a ∈ bs, A a) : ∀ a ∈ as ++ bs, A a := by
  intro a hab
  rcases List.mem_append.1 hab with hab | hab
  · exact ha a hab
  · exact hb a hab

instance (A : Act → Prop) : IsPreorder World (Emits A) where
  refl w := ⟨[], by simp, .refl w⟩
  trans := by
    rintro w w' w'' ⟨as, ha, h⟩ ⟨bs, hb, h'⟩
    exact ⟨as ++ bs, forall_mem_append ha hb, h.trans h'⟩

instance (A : Act → Prop) : IsPreorder World (Loads A) where
  refl w := ⟨[], by simp, .refl w⟩
  trans := by
    rintro w w' w'' ⟨as, ha, h⟩ ⟨bs, hb, h'⟩
    exact ⟨as ++ bs, forall_mem_append ha hb, h.trans h'⟩

instance : IsPreorder World Ticks where
  refl w := ⟨w.tick, rfl⟩
  trans := by
    rintro w w' w'' ⟨j, rfl⟩ ⟨k, rfl⟩
    exact ⟨k, rfl⟩

theorem Emits.mono {A B : Act → Prop} (hAB : ∀ a, A a → B a) {w w' : World} (h : Emits A w w') :
    Emits B w w' := by
  obtain ⟨as, ha, hd⟩ := h
  exact ⟨as, fun a h => hAB a (ha a h), hd⟩

theorem Loads.mono {A B : Act → Prop} (hAB : ∀ a, A a → B a) {w w' : World} (h : Loads A w w') :
    Loads B w w' := by
  obtain ⟨as, ha, hd⟩ := h
  exact ⟨as, fun a h => hAB a (ha a h), hd⟩

theorem Loads.emits {A : Act → Prop} {w w' : World} (h : Loads A w w') : Emits A w w' := by
  obtain ⟨as, ha, hd⟩ := h
  exact ⟨as, ha, hd.toDoes⟩

theorem Ticks.moves {w w' : World} (h : Ticks w w') : Moves [] w w' := by
  obtain ⟨k, rfl⟩ := h
  exact ⟨⟨(List.append_nil _).symm, rfl⟩, rfl⟩

theorem Ticks.inst {w w' : World} (h : Ticks w w') : w'.inst = w.inst := by
  obtain ⟨k, rfl⟩ := h
  rfl

theorem Ticks.mem {w w' : World} (h : Ticks w w') : w'.mem = w.mem := by
  obtain ⟨k, rfl⟩ := h
  rfl

theorem emits_act {A : Act → Prop} {a : Act} {w : World} (h : A a) : Emits A w (w.apply a) :=
  ⟨[a], by simpa using h, .act w a⟩

theorem loads_act {A : Act → Prop} {a : Act} {w : World} (h : A a) : Loads A w (w.apply a) :=
  ⟨[a], by simpa using h, .act w a⟩

/-- A change outside view and trace. -/
theorem emits_of_view {A : Act → Prop} {w w' : World} (ht : w'.trace = w.trace)
    (hv : w'.view = w.view) : Emits A w w' := ⟨[], by simp, by rw [ht, List.append_nil], hv⟩

/-! ## Frames of the primitives -/

/-- A relation with the step of the clock. -/
class Silent (R : World → World → Prop) : Prop extends IsPreorder World R where
  tick : ∀ w : World, R w { w with tick := w.tick + 1 }

instance (A : Act → Prop) : Silent (Emits A) where
  tick _ := emits_of_view rfl rfl

instance (A : Act → Prop) : Silent (Loads A) where
  tick _ := ⟨[], by simp, ⟨(List.append_nil _).symm, rfl⟩, rfl⟩

instance : Silent Ticks where
  tick w := ⟨w.tick + 1, rfl⟩

/-- A relation with the steps of the clock and of the acts `A`. -/
class Steps (A : Act → Prop) (R : World → World → Prop) : Prop extends Silent R where
  act (w : World) (a : Act) : A a → R w (w.apply a)

instance (A : Act → Prop) : Steps A (Emits A) where
  act _ _ := emits_act

instance (A : Act → Prop) : Steps A (Loads A) where
  act _ _ := loads_act

theorem Steps.of_imp {A B : Act → Prop} {R : World → World → Prop} [Steps B R]
    (h : ∀ a, A a → B a) : Steps A R where
  act w a ha := Steps.act w a (h a ha)

section Frames

variable {R : World → World → Prop} [Silent R] {α : Type} (hw : Hw)

theorem frame_ask (f : Nat → α) : Frame R (ask f) := fun w => Silent.tick w

omit [Silent R] in
theorem frame_act {a : Act} (h : ∀ w : World, R w (w.apply a)) : Frame R (act a) :=
  frame_modify h

omit [Silent R] in
theorem frame_step {A : Act → Prop} [Steps A R] {a : Act} (h : A a) : Frame R (act a) :=
  frame_act fun w => Steps.act w a h

theorem frame_ensure (p : Prop) [Decidable p] (code : UInt32) : Frame R (ensure p code) :=
  frame_ite (fun _ => frame_pure _) (fun _ => frame_throw _)

omit [Silent R] in
theorem frame_when [IsPreorder World R] {p : Prop} [Decidable p] {c : Fsbl Unit}
    (h : p → Frame R c) : Frame R (when p c) := frame_ite h fun _ => frame_pure _

theorem frame_ofExcept (x : Except UInt32 α) : Frame R (ofExcept x) := by
  cases x with
  | ok a => exact frame_pure _
  | error code => exact frame_throw _

theorem frame_header (n : Nat) : Frame R (header n) := by
  intro w
  unfold header
  split <;> exact refl_of R w

omit [Silent R] in
theorem frame_statusOf {c : Fsbl Unit} (h : Frame R c) : Frame R (statusOf c) := by
  intro w
  have hc := h w
  unfold statusOf
  split <;> simpa [*] using hc

theorem frame_readReg (r : Reg) : Frame R (readReg hw r) := frame_ask _

theorem frame_call (c : Call) : Frame R (call hw c) := frame_ask _

theorem frame_checked (c : Call) : Frame R (checked hw c) :=
  frame_bind (frame_call hw c) fun _ => frame_ensure _ _

theorem frame_checkedAs (c : Call) (code : UInt32) : Frame R (checkedAs hw c code) :=
  frame_bind (frame_call hw c) fun _ => frame_ensure _ _

theorem frame_wait (c : Call) : Frame R (wait hw c) :=
  frame_bind (frame_call hw c) fun _ => frame_ite (fun _ => frame_pure _) (fun _ => frame_throw _)

theorem frame_deviceOpsCopy (srcAddress : UInt32) (length : Nat) :
    Frame R (deviceOpsCopy hw srcAddress length) := by
  refine frame_bind frame_get fun w => ?_
  cases h : w.inst.deviceOps with
  | none => exact frame_throw _
  | some device => exact frame_ask _

theorem frame_deviceRead (srcAddress : UInt32) (length : Nat) :
    Frame R (deviceRead hw srcAddress length) :=
  frame_bind (frame_deviceOpsCopy hw _ _) fun _ =>
    frame_bind (frame_ensure _ _) fun _ => frame_pure _

theorem frame_deviceLoad (n : Nat) (srcAddress : UInt32) (loadAddress length : Nat)
    (h : ∀ w : World, ∀ data, R w (w.apply (.placed n loadAddress length data))) :
    Frame R (deviceLoad hw n srcAddress loadAddress length) :=
  frame_bind (frame_deviceOpsCopy hw _ _) fun r =>
    frame_bind (frame_act fun w => h w r.2) fun _ => frame_ensure _ _

theorem frame_loadMem (start length : Nat) : Frame R (loadMem start length) :=
  frame_bind frame_get fun _ => frame_pure _

theorem frame_shaDigest (input : List UInt8) : Frame R (shaDigest hw input) := by
  refine frame_bind (frame_ask _) fun x => ?_
  cases x with
  | done => exact frame_pure _
  | timeout => exact frame_pure _
  | stuck => exact frame_throw _

end Frames

/-! ## Successful primitives -/

section Success

variable {w w' : World} {u : Unit}

theorem ensure_ok {p : Prop} [Decidable p] {code : UInt32} :
    ensure p code w = .ok u w' ↔ p ∧ w = w' := by
  unfold ensure
  split <;> simp [*]

theorem when_ok {p : Prop} [Decidable p] {c : Fsbl Unit} :
    when p c w = .ok u w' ↔ p ∧ c w = .ok u w' ∨ ¬ p ∧ w = w' := by
  unfold when
  split <;> simp [*]

theorem act_ok {a : Act} : act a w = .ok u w' ↔ w.apply a = w' := modify_ok

/-- Partition header `n`, zero outside the array. -/
def ImageHeader.header (i : ImageHeader) (n : Nat) : PartitionHeader :=
  if h : n < 32 then i.partitionHeader[n] else .zero

theorem header_eq {i : ImageHeader} {n : Nat} (hn : n < 32) : i.header n = i.partitionHeader[n] :=
  dif_pos hn

theorem header_ok {n : Nat} {h : PartitionHeader} :
    header n w = .ok h w' ↔
      (∃ hn : n < 32, w.inst.imageHeader.partitionHeader[n] = h) ∧ w = w' := by
  unfold header
  split <;> rename_i hn <;> simp [hn]

theorem ofExcept_ok {α : Type} {x : Except UInt32 α} {a : α} :
    ofExcept x w = .ok a w' ↔ x = .ok a ∧ w = w' := by
  cases x <;> simp [ofExcept]

theorem loadMem_ok {start length : Nat} {bytes : List UInt8} :
    loadMem start length w = .ok bytes w' ↔ w.mem.load start length = bytes ∧ w = w' := by
  unfold loadMem
  rw [bind_ok]
  constructor
  · rintro ⟨v, t, h1, h2⟩
    obtain ⟨rfl, rfl⟩ := get_ok.1 h1
    exact pure_ok.1 h2
  · rintro ⟨h1, h2⟩
    exact ⟨w, w, get_ok.2 ⟨rfl, rfl⟩, pure_ok.2 ⟨h1, h2⟩⟩

theorem modifyInst_ok {f : XFsblPs → XFsblPs} :
    modifyInst f w = .ok u w' ↔ { w with inst := f w.inst } = w' := modify_ok

theorem call_ok {hw : Hw} {c : Call} {status : UInt32} (h : call hw c w = .ok status w') :
    status = hw.call w.tick c := by
  injection h with h _
  exact h.symm

/-- The digest of a use of the SHA3 engine: the hash, or the zeroed buffer where it timed out. -/
theorem shaDigest_ok {hw : Hw} {input : List UInt8} {d : Digest}
    (h : shaDigest hw input w = .ok d w') :
    Ticks w w' ∧ (d = sha3 hw input ∨ d = zeroDigest ∧ ∃ t, hw.sha t = .timeout) := by
  refine ⟨(frame_shaDigest (R := Ticks) hw input).ok h, ?_⟩
  obtain ⟨x, v, hx, h⟩ := bind_ok.1 h
  injection hx with hx _
  cases x with
  | done => exact .inl (pure_ok.1 h).1.symm
  | timeout => exact .inr ⟨(pure_ok.1 h).1.symm, _, hx⟩
  | stuck => exact absurd h (by simp)

end Success

end MeasuredBoot
