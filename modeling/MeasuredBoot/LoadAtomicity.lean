import MeasuredBoot.BitstreamSources
import MeasuredBoot.Boards
import MeasuredBoot.LogAppendOnly
import MeasuredBoot.LogFlush

/-!
# What a failed load leaves in the log

A load with an error code left counter and log pointer alone, and of the recorded bytes only those
that it placed its partition over may differ. One kind of failure comes behind an event: of the wait
for the PL, or of the hook behind it, after the download of an unsigned bitstream.
-/

namespace MeasuredBoot

open Prog TransSys

/-- The acts `as` of a load of partition `n` that failed with `code`, and what they did to the log. -/
structure FailedAtomic (hw : Hw) (n : Nat) (code : UInt32) (w w' : World) (as : List Act) : Prop where
  trace : w'.trace = w.trace ++ as
  counter : w'.partition = w.partition
  bytes : ∀ x, eventLogStart ≤ x → x < w.logPtr2 → x < eventLogEnd →
    w'.mem x = w.mem x ∨ ∃ start len data, .placed n start len data ∈ as ∧ start ≤ x ∧ x < start + len
  events : (logged as = [] ∧ w'.logPtr2 = w.logPtr2) ∨
    ((w.inst.imageHeader.header n).toPl = true ∧ (w.inst.imageHeader.header n).authenticated = false ∧
      AfterDownload hw code ∧ ∃ d, logged as = [bitstreamEvent d] ∧
        w'.logPtr2 = w.logPtr2 + (bitstreamEvent d).bytes.length)

section Acts

variable {n : Nat} {a : Act} {as : List Act}

theorem UnloggedAct.growth (h : UnloggedAct n a) : a.logGrowth = 0 := by
  rcases h with h | ⟨start, input, rfl⟩
  · exact bodyPlaceAct_growth a h
  · rfl

theorem UnloggedAct.flushless (h : UnloggedAct n a) : a.Flushless := by
  rcases h with h | ⟨start, input, rfl⟩
  · exact flushless_bodyPlaceAct a h
  · trivial

theorem UnloggedAct.away (h : UnloggedAct n a) : a.Away := by
  rcases h with ⟨h, -⟩ | ⟨start, input, rfl⟩
  · cases a with
    | eccInit start len => exact away_of_tcmBase h
    | stored => exact h.elim
    | _ => trivial
  · trivial

theorem UnloggedAct.placed {m start len : Nat} {data : Mem}
    (h : UnloggedAct n (.placed m start len data)) : m = n := by
  rcases h with ⟨h, -⟩ | ⟨_, _, h⟩
  · exact h
  · cases h

theorem logged_unlogged (h : ∀ a ∈ as, UnloggedAct n a) : logged as = [] := by
  refine List.filterMap_eq_nil_iff.2 fun a ha => ?_
  cases a with
  | recorded s e =>
    rcases h _ ha with ⟨h, -⟩ | ⟨_, _, h⟩
    · exact h.elim
    · cases h
  | _ => rfl

end Acts

section Failed

variable {hw : Hw} {n : Nat} {code : UInt32} {w w' : World}

/-- Acts of the load in front of at most one event. -/
theorem bytes_of_unlogged {pre as : List Act} (hd : Does as w w')
    (hpre : ∀ a ∈ pre, UnloggedAct n a) (has : ∀ a ∈ as, a ∈ pre ∨ ∃ s e, a = .recorded s e) {x : Nat}
    (h1 : eventLogStart ≤ x) (h2 : x < w.logPtr2) (h3 : x < eventLogEnd) :
    w'.mem x = w.mem x ∨
      ∃ start len data, .placed n start len data ∈ as ∧ start ≤ x ∧ x < start + len := by
  have haway : ∀ a ∈ as, a.Away := by
    intro a ha
    rcases has a ha with hmem | ⟨s, e, rfl⟩
    · exact (hpre a hmem).away
    · trivial
  rw [hd.mem]
  rcases replay_mem_recorded haway h1 h2 h3 with hsame | ⟨m, start, len, data, hmem, hx⟩
  · exact .inl hsame
  · rcases has _ hmem with hin | ⟨s, e, he⟩
    · obtain rfl := (hpre _ hin).placed
      exact .inr ⟨start, len, data, hmem, hx⟩
    · cases he

theorem FailedLoad.atomic (hf : FailedLoad hw n (w.inst.imageHeader.header n) code w w') :
    ∃ as, FailedAtomic hw n code w w' as := by
  cases hf with
  | @unlogged pre hpre hm =>
    refine ⟨pre, hm.trace, ?_, fun x h1 h2 h3 => ?_, .inl ⟨logged_unlogged hpre, ?_⟩⟩
    · rw [hm.partition, replay_flushless w fun a ha => (hpre a ha).flushless]
    · exact bytes_of_unlogged hm.toDoes hpre (fun a ha => .inl ha) h1 h2 h3
    · rw [hm.toDoes.logPtr2_eq, logSize_eq_zero fun a ha => (hpre a ha).growth, Nat.add_zero]
  | @logged pre d hpl hauth hafter hpre hm =>
    refine ⟨_, hm.trace, ?_, fun x h1 h2 h3 => ?_, .inr ⟨hpl, hauth, hafter, d, ?_, ?_⟩⟩
    · have hall : ∀ a ∈ pre ++ [.recorded (.bitstream n) (bitstreamEvent d)], a.Flushless :=
        forall_mem_append (fun a ha => (hpre a ha).flushless) (by simp [Act.Flushless])
      rw [hm.partition, replay_flushless w hall]
    · refine bytes_of_unlogged hm.toDoes hpre (fun a ha => ?_) h1 h2 h3
      rcases List.mem_append.1 ha with ha | ha
      · exact .inl ha
      · exact .inr ⟨_, _, List.mem_singleton.1 ha⟩
    · rw [logged_append, logged_unlogged hpre]
      rfl
    · rw [hm.toDoes.logPtr2_eq, logSize_append, logSize_eq_zero fun a ha => (hpre a ha).growth,
        Nat.zero_add]
      rfl

end Failed

/-- **Failed loads and the log**: the load of any partition, and that of an unsigned bitstream in every
build, down to its chunks and blocks. -/
theorem failed_load_atomic :
    (∀ (hw : Hw) (n : Nat) (code : UInt32) (w w' : World),
      partitionLoad hw n w = .error (.status code) w' → ∃ as, FailedAtomic hw n code w w' as) ∧
    (∀ (b : Stream.PlBuild) (hw : Stream.PlLoadHw) (h : PartitionHeader) (inst : XFsblPs)
      (code : UInt32) (s s' : Stream.PlState),
      Stream.partitionLoad b hw h inst s = .error (.status code) s' →
        s'.events = s.events ∨ Stream.AfterDownload hw code ∧
          ∃ d, s'.events = s.events ++ [bitstreamEvent d]) :=
  ⟨fun _ _ _ _ _ hf => (partitionLoad_failed hf).atomic,
    fun _ _ _ _ _ _ _ hf => Stream.partitionLoad_failed hf⟩

/-! ## A bitstream that does not start -/

/-- One bitstream, behind which the PL does not come up. -/
def unstartedPlBoard : Board := qspiBoard [{ attributes := 0x120 }]

def unstartedPlHw : Hw :=
  { unstartedPlBoard.hw with
    call := fun _ c => if c = .plWaitForDone then xfsblFailure else xfsblSuccess
    callStatus := fun _ c _ => by split <;> decide }

/-- The state in which its load starts. -/
def unstartedPlWorld : World := (passes unstartedPlHw 2 powerOn).world

/-- The load fails, with an event behind what was logged before. -/
def failsLogged (w : World) : EStateM.Result Halt World Unit → Bool
  | .error e w' => e == .status xfsblFailure && w.logPtr2 < w'.logPtr2
  | .ok _ _ => false

theorem failsLogged_unstartedPl :
    failsLogged unstartedPlWorld (partitionLoad unstartedPlHw 1 unstartedPlWorld) = true := by
  decide +kernel

theorem unstartedPl_fails :
    ∃ w', partitionLoad unstartedPlHw 1 unstartedPlWorld = .error (.status xfsblFailure) w' ∧
      unstartedPlWorld.logPtr2 < w'.logPtr2 := by
  have hf := failsLogged_unstartedPl
  cases hload : partitionLoad unstartedPlHw 1 unstartedPlWorld with
  | ok _ w' => simp [hload, failsLogged] at hf
  | error e w' =>
    simp only [hload, failsLogged, Bool.and_eq_true, beq_iff_eq, decide_eq_true_eq] at hf
    exact ⟨w', by rw [hf.1], hf.2⟩

theorem failed_load_atomic_unstartedPl :
    ∃ w' as, FailedAtomic unstartedPlHw 1 xfsblFailure unstartedPlWorld w' as := by
  obtain ⟨w', hf, -⟩ := unstartedPl_fails
  exact ⟨w', failed_load_atomic.1 _ _ _ _ _ hf⟩

/-- The event of a bitstream stays where the PL does not come up. -/
theorem not_failed_load_atomic :
    ¬ ∀ (hw : Hw) (n : Nat) (code : UInt32) (w w' : World),
      partitionLoad hw n w = .error (.status code) w' →
        w'.partition = w.partition ∧ w'.logPtr2 = w.logPtr2 ∧
          ∀ x, eventLogStart ≤ x → x < w.logPtr2 → w'.mem x = w.mem x := by
  intro h
  obtain ⟨w', hf, hlt⟩ := unstartedPl_fails
  obtain ⟨-, hptr, -⟩ := h _ _ _ _ _ hf
  omega

end MeasuredBoot
