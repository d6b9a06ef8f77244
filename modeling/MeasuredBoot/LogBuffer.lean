import MeasuredBoot.BootStages

/-!
# Acts and the log buffer

`logSize as` is what the acts `as` add to the log (`replay_logPtr2`). `Act.Spares a x`
says the byte `x` is not in a range `a` places, initialises or stores, and
`effect_mem_recorded` that a spared byte below the log pointer stays. `LogHolds w es`:
the log is the header and the events `es`; a log of a run keeps that form as long as the acts
spare the buffer (`LogHolds.replay`).
-/

namespace MeasuredBoot

open Prog TransSys

/-! ## Growth -/

/-- The bytes an act adds to the log. -/
def Act.logGrowth : Act → Nat
  | .logHeader => headerBytes.length
  | .recorded _ e => e.bytes.length
  | _ => 0

def logSize (as : List Act) : Nat := (as.map Act.logGrowth).sum

@[simp] theorem logSize_nil : logSize [] = 0 := rfl

@[simp] theorem logSize_cons (a : Act) (as : List Act) :
    logSize (a :: as) = a.logGrowth + logSize as := rfl

@[simp] theorem logSize_append (as bs : List Act) :
    logSize (as ++ bs) = logSize as + logSize bs := by simp [logSize]

theorem logSize_eq_zero {as : List Act} (h : ∀ a ∈ as, a.logGrowth = 0) : logSize as = 0 := by
  induction as with
  | nil => rfl
  | cons a as ih =>
    rw [List.forall_mem_cons] at h
    rw [logSize_cons, h.1, ih h.2]

theorem effect_logPtr2 (w : World) (a : Act) :
    (w.effect a).logPtr2 = w.logPtr2 + a.logGrowth := by
  cases a with
  | logHeader => simp only [World.effect, eventLogWriteHeader_eq, Act.logGrowth, length_headerBytes]
  | recorded s e => simp only [World.effect, eventLogRecord_eq, Act.logGrowth]
  | _ => rfl

theorem replay_logPtr2 (w : World) (as : List Act) :
    (w.replay as).logPtr2 = w.logPtr2 + logSize as := by
  induction as generalizing w with
  | nil => rfl
  | cons a as ih => rw [World.replay_cons, ih, effect_logPtr2, logSize_cons, Nat.add_assoc]

theorem Does.logPtr2_eq {as : List Act} {w w' : World} (h : Does as w w') :
    w'.logPtr2 = w.logPtr2 + logSize as := by rw [h.logPtr2, replay_logPtr2]

theorem effect_partition_le (w : World) (a : Act) : w.partition ≤ (w.effect a).partition := by
  cases a <;> first | exact Nat.le_refl _ | exact Nat.le_succ _

theorem replay_partition_le (w : World) (as : List Act) :
    w.partition ≤ (w.replay as).partition := by
  induction as generalizing w with
  | nil => exact Nat.le_refl _
  | cons a as ih => exact Nat.le_trans (effect_partition_le w a) (ih _)

/-! ## Other writes -/

/-- The byte `x` is outside what the act places, initialises or stores. -/
def Act.Spares (x : Nat) : Act → Prop
  | .eccInit start len => x < start ∨ start + len ≤ x
  | .stored start bytes => x < start ∨ start + bytes.length ≤ x
  | .placed _ start len _ => x < start ∨ start + len ≤ x
  | _ => True

/-- Initialisations and stores are outside the log buffer. -/
def Act.Away : Act → Prop
  | .eccInit start _ => eventLogEnd ≤ start
  | .stored start bytes => start + bytes.length ≤ eventLogStart ∨ eventLogEnd ≤ start
  | _ => True

/-- A spared byte outside the new entry stays. -/
theorem effect_mem_spared {w : World} {a : Act} {x : Nat} (h : a.Spares x)
    (hx : x < w.logPtr2 ∨ w.logPtr2 + a.logGrowth ≤ x) : (w.effect a).mem x = w.mem x := by
  cases a with
  | logHeader =>
    simp only [World.effect, eventLogWriteHeader_eq]
    exact Mem.store_out hx
  | recorded s e =>
    simp only [World.effect, eventLogRecord_eq]
    exact Mem.store_out hx
  | eccInit start len => exact Mem.fill_out h
  | stored start bytes => exact Mem.store_out h
  | placed n start len data => exact Mem.fill_out h
  | _ => rfl

/-- An act away from the log spares a byte of it, or places a partition over it. -/
theorem Act.Away.spares {a : Act} {x : Nat} (h : a.Away) (h1 : eventLogStart ≤ x)
    (h2 : x < eventLogEnd) :
    a.Spares x ∨ ∃ n start len data, a = .placed n start len data ∧ start ≤ x ∧
      x < start + len := by
  cases a with
  | eccInit start len => exact .inl (.inl (Nat.lt_of_lt_of_le h2 h))
  | stored start bytes =>
    rcases h with h | h
    · exact .inl (.inr (Nat.le_trans h h1))
    · exact .inl (.inl (Nat.lt_of_lt_of_le h2 h))
  | placed n start len data =>
    by_cases hx : start ≤ x ∧ x < start + len
    · exact .inr ⟨n, start, len, data, rfl, hx⟩
    · left
      simp only [Spares]
      omega
  | _ => exact .inl trivial

theorem away_of_tcmBase {start len : Nat} (h : tcmBase ≤ start) : (Act.eccInit start len).Away := by
  simp only [Act.Away, eventLogEnd, tcmBase] at *
  omega

theorem passAct_away {hw : Hw} {l : Locals} {a : Act} (h : PassAct hw l a) : a.Away := by
  obtain ⟨stage, n, status⟩ := l
  cases a with
  | eccInit start len =>
    cases stage with
    | stage1 => exact away_of_tcmBase h
    | stage2 => simp [PassAct, BootAct] at h
    | stage3 =>
      have h : tcmBase ≤ start := by simpa [PassAct, LoadAct] using h
      exact away_of_tcmBase h
    | stage4 => simp [PassAct, HandoffAct] at h
    | _ => exact h.elim
  | stored start bytes =>
    cases stage with
    | stage1 =>
      obtain ⟨rfl, rfl⟩ := h
      exact .inl (by decide)
    | stage2 => simp [PassAct, BootAct] at h
    | stage3 => simp [PassAct, LoadAct, MeasureAct] at h
    | stage4 =>
      obtain ⟨rfl, -⟩ : start = 0xFFFC0000 ∧ bytes.length = 4 := by
        simpa [PassAct, HandoffAct] using h
      exact .inr (by decide)
    | _ => exact h.elim
  | _ => trivial

/-- Every act of a run is one of a pass. -/
theorem run_acts {hw : Hw} {G : MainState → Prop} {s₀ s : MainState} (h₀ : (boot hw).init s₀)
    (h : (boot hw).Run G s₀ s) : ∀ a ∈ s.world.trace, ∃ l, PassAct hw l a := by
  induction h with
  | refl => simp [h₀.2.trace]
  | snoc _ _ hn ih =>
    obtain ⟨-, rfl⟩ := hn
    obtain ⟨as, ha, hd⟩ := pass_emits hw _
    rw [hd.trace]
    exact forall_mem_append ih fun a h => ⟨_, ha a h⟩

/-! ## The contents of the log -/

/-- The events among acts. -/
def logged (as : List Act) : List Event :=
  as.filterMap fun
    | .recorded _ e => some e
    | _ => none

theorem logged_append (as bs : List Act) : logged (as ++ bs) = logged as ++ logged bs :=
  List.filterMap_append

/-- The log is the header and the events `es`. -/
structure LogHolds (w : World) (es : List Event) : Prop where
  holds : w.mem.Holds eventLogStart (headerBytes ++ eventsBytes es)
  ptr : w.logPtr2 = eventLogStart + (headerBytes ++ eventsBytes es).length

theorem eventsBytes_append (es fs : List Event) :
    eventsBytes (es ++ fs) = eventsBytes es ++ eventsBytes fs := List.flatMap_append ..

theorem holds_of_eq {m m' : Mem} {a : Nat} {bs : List UInt8} (h : m.Holds a bs)
    (he : ∀ x, a ≤ x → x < a + bs.length → m' x = m x) : m'.Holds a bs :=
  (Mem.load_congr he).trans h

/-- An act that spares the log keeps it, and a recorded event comes at its end. -/
theorem LogHolds.effect {w : World} {es : List Event} {a : Act} (h : LogHolds w es)
    (ha : a ≠ .logHeader) (hs : ∀ x, eventLogStart ≤ x → x < w.logPtr2 → a.Spares x) :
    LogHolds (w.effect a) (es ++ logged [a]) := by
  have hp := h.ptr
  have old : (w.effect a).mem.Holds eventLogStart (headerBytes ++ eventsBytes es) :=
    holds_of_eq h.holds fun x h1 h2 => effect_mem_spared (hs x h1 (by omega)) (.inl (by omega))
  cases a with
  | logHeader => exact absurd rfl ha
  | recorded s e =>
    have hb : headerBytes ++ eventsBytes (es ++ logged [.recorded s e]) =
        (headerBytes ++ eventsBytes es) ++ e.bytes := by
      rw [eventsBytes_append, ← List.append_assoc]
      simp [logged, eventsBytes]
    constructor
    · rw [hb, Mem.holds_append]
      refine ⟨old, ?_⟩
      simp only [World.effect, eventLogRecord_eq, ← hp]
      exact Mem.holds_store _ _ _
    · rw [effect_logPtr2, hp, hb, Nat.add_assoc]
      exact congrArg _ List.length_append.symm
  | _ =>
    simp only [logged, List.filterMap_cons, List.filterMap_nil, List.append_nil]
    exact ⟨old, hp⟩

/-- Acts that spare the log, up to where they leave it, keep it. -/
theorem LogHolds.replay {w : World} {es : List Event} {as : List Act} (h : LogHolds w es)
    (hh : .logHeader ∉ as)
    (hs : ∀ a ∈ as, ∀ x, eventLogStart ≤ x → x < w.logPtr2 + logSize as → a.Spares x) :
    LogHolds (w.replay as) (es ++ logged as) := by
  induction as generalizing w es with
  | nil => simpa [logged] using h
  | cons a as ih =>
    rw [List.forall_mem_cons] at hs
    rw [List.mem_cons, not_or] at hh
    rw [logSize_cons] at hs
    have h1 : LogHolds (w.effect a) (es ++ logged [a]) :=
      h.effect (Ne.symm hh.1) fun x hx hx' => hs.1 x hx (by omega)
    have h2 := ih h1 hh.2 fun b hb x hx hx' => hs.2 b hb x hx (by rw [effect_logPtr2] at hx'; omega)
    rwa [List.append_assoc, ← logged_append] at h2

theorem LogHolds.of_does {w w' : World} {es : List Event} {as : List Act} (hd : Does as w w')
    (h : LogHolds (w.replay as) es) : LogHolds w' es := by
  constructor
  · rw [hd.mem]
    exact h.holds
  · rw [hd.logPtr2]
    exact h.ptr

/-- The first log of a run. -/
theorem logHolds_header {w : World} (h : w.logPtr2 = eventLogStart) :
    LogHolds (w.effect .logHeader) [] := by
  simp only [World.effect, eventLogWriteHeader_eq, h]
  refine ⟨?_, ?_⟩
  · simpa [eventsBytes] using Mem.holds_store w.mem eventLogStart headerBytes
  · simp [eventsBytes, length_headerBytes]

end MeasuredBoot
