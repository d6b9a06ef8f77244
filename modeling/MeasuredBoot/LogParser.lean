import MeasuredBoot.LogRoundTrip

/-!
# When the printer is safe

`PrintSafe` is what the commented-out assertions of `event_print.c` were for:
the print ends, every read lies in the log, the unset `sha_size` is not used and
the size decreases to 0 without wrapping. Nothing checks the log, so this holds
exactly of the logs of one grammar, `WellFormedLog`. `eventLogPrint_safe_iff` says
so; `event2Print_of_events` and `events_of_event2Print` are its two
directions for one event.
-/

namespace MeasuredBoot

/-- The byte range `r` lies in the `size` bytes at `start`. -/
def InLog (start size : Nat) (r : Nat × Nat) : Prop := start ≤ r.1 ∧ r.1 + r.2 ≤ start + size

structure PrintSafe (start size : Nat) (run : PrintRun) : Prop where
  stop : run.stop = .done
  reads : ∀ r ∈ run.reads, InLog start size r
  decreasing : List.IsChain (· > ·) (size :: run.sizes)
  idEvent : run.idEvent.logAddr + run.idEvent.logSize = start + size
  events : ∀ p ∈ run.events, p.logAddr + p.logSize = start + size

/-! ## The grammar of a log -/

/-- `count` tagged digests, each with the size its algorithm has. -/
inductive TaggedDigests : Nat → Option Nat → List UInt8 → Prop where
  | nil (shaSize : Option Nat) : TaggedDigests 0 shaSize []
  | cons {count size : Nat} {shaSize : Option Nat} {alg digest rest : List UInt8}
      (halg : alg.length = 2) (hsize : shaSizeOf (ofLE alg) shaSize = some size)
      (hdigest : digest.length = size) (hrest : TaggedDigests count (some size) rest) :
      TaggedDigests (count + 1) shaSize (alg ++ digest ++ rest)

/-- Events one after the other up to the end; behind the start of each event's data there is
a NUL. -/
inductive WellFormedEvents : List UInt8 → Prop where
  | nil : WellFormedEvents []
  | cons {header count digests size data rest : List UInt8} (hheader : header.length = 8)
      (hcount : count.length = 4) (hdigests : TaggedDigests (ofLE count) none digests)
      (hsize : size.length = 4) (hdata : data.length = ofLE size) (hnul : (0 : UInt8) ∈ data ++ rest)
      (hrest : WellFormedEvents rest) :
      WellFormedEvents (header ++ (count ++ (digests ++ (size ++ (data ++ rest)))))

/-- The specification ID event, with a NUL behind the start of its signature, then events. -/
inductive WellFormedLog : List UInt8 → Prop where
  | mk {header signature count algorithms vendor rest : List UInt8} {infoSize : UInt8}
      (hheader : header.length = 60) (hsignature : signature.length = 24) (hcount : count.length = 4)
      (halgorithms : algorithms.length = ofLE count * 4) (hvendor : vendor.length = infoSize.toNat)
      (hnul : (0 : UInt8) ∈ signature ++ (count ++ (algorithms ++ (infoSize :: (vendor ++ rest)))))
      (hevents : WellFormedEvents rest) :
      WellFormedLog
        (header ++ (signature ++ (count ++ (algorithms ++ (infoSize :: (vendor ++ rest))))))

/-! ## Reads of strings -/

/-- The scan stops within `k` bytes exactly if there is a NUL among them. -/
theorem strnlen_lt_iff {m : Mem} {a k n : Nat} (h : k ≤ n) :
    strnlen m a n < k ↔ (0 : UInt8) ∈ m.load a k := by
  induction k generalizing a n with
  | zero => simp [Mem.load]
  | succ k ih =>
    obtain ⟨n, rfl⟩ : ∃ j, n = j + 1 := ⟨n - 1, by omega⟩
    rw [strnlen, Mem.load, List.mem_cons, ← ih (Nat.le_of_succ_le_succ h)]
    by_cases h0 : m a = 0
    · simp [h0]
    · rw [if_neg h0, Nat.add_lt_add_iff_right]
      exact ⟨.inr, fun h => h.resolve_left fun e => h0 e.symm⟩

theorem stringRead_inLog {m : Mem} {start size a k : Nat} (h1 : start ≤ a)
    (h2 : a + k = start + size) (hs : size < 2 ^ 64) :
    InLog start size (stringRead m a) ↔ (0 : UInt8) ∈ m.load a k := by
  rw [← strnlen_lt_iff (show k ≤ 2 ^ 64 by omega)]
  simp only [InLog, stringRead]
  omega

/-- `strcmp` reads no further than the NUL of the string in memory. -/
theorem strcmpAt_read (m : Mem) (a : Nat) {n : Nat} {cs : List UInt8} (h : cs.length ≤ n) :
    (strcmpAt m a cs).2 ≤ strnlen m a n + 1 := by
  induction cs generalizing a n with
  | nil => exact Nat.zero_le _
  | cons c cs ih =>
    obtain ⟨n, rfl⟩ : ∃ j, n = j + 1 := ⟨n - 1, by simp at h; omega⟩
    have ih := ih (a + 1) (Nat.le_of_succ_le_succ h)
    rw [strcmpAt, strnlen]
    by_cases hc : m a = c
    · by_cases h0 : c = 0
      · simp [hc, h0]
      · simp only [hc, h0, ne_eq, not_true_eq_false, if_false]
        omega
    · simp [hc]

theorem eventTextPrint_reads {m : Mem} {start size a k eventSize : Nat} (h1 : start ≤ a)
    (h2 : a + k = start + size) (h3 : eventSize ≤ k) (hs : size < 2 ^ 64) :
    (∀ r ∈ (eventTextPrint m a eventSize).2, InLog start size r) ↔ (0 : UInt8) ∈ m.load a k := by
  have hstr := stringRead_inLog (m := m) h1 h2 hs
  rw [← hstr]
  constructor
  · intro h
    apply h
    unfold eventTextPrint
    by_cases h17 : eventSize = startupLocalityEventSize
    · rw [if_pos h17]
      simp only
      by_cases hcmp : (strcmpAt m a tcgStartupLocalitySignature.bytes).1
      · simp [hcmp]
      · simp [hcmp]
    · simp [h17]
  · intro h
    have hcmp : (strcmpAt m a tcgStartupLocalitySignature.bytes).2 ≤ strnlen m a (2 ^ 64) + 1 :=
      strcmpAt_read m a (by decide)
    have hcmp : InLog start size (a, (strcmpAt m a tcgStartupLocalitySignature.bytes).2) := by
      simp only [InLog, stringRead] at h ⊢
      omega
    unfold eventTextPrint
    by_cases h17 : eventSize = startupLocalityEventSize
    · have hloc : InLog start size (a + 16, 1) := by
        simp only [InLog]
        rw [startupLocalityEventSize] at h17
        omega
      rw [if_pos h17]
      simp only
      by_cases hc : (strcmpAt m a tcgStartupLocalitySignature.bytes).1
      · simp only [hc, if_true, List.forall_mem_cons]
        exact ⟨hcmp, h, hloc, by simp⟩
      · simp only [hc, if_false, List.forall_mem_cons, Bool.false_eq_true]
        exact ⟨hcmp, h, by simp⟩
    · simp only [h17, if_false, List.forall_mem_cons]
      exact ⟨h, by simp⟩

/-! ## Digests -/

/-- Tagged digests in memory are printed, and nothing but them is read. -/
theorem digestsPrint_holds {m : Mem} {count : Nat} {shaSize : Option Nat} {bs : List UInt8}
    (hg : TaggedDigests count shaSize bs) {a : Nat} (h : m.Holds a bs) :
    ∃ ds reads, digestsPrint m count a shaSize = some (ds, a + bs.length, reads) ∧
      ∀ r ∈ reads, InLog a bs.length r := by
  induction hg generalizing a with
  | nil => exact ⟨[], [], rfl, by simp⟩
  | @cons count size shaSize alg digest rest halg hsize hdigest hrest ih =>
    rw [Mem.holds_append, Mem.holds_append, List.length_append] at h
    obtain ⟨⟨hma, hmd⟩, hmr⟩ := h
    obtain ⟨ds, reads, hds, hreads⟩ := ih hmr
    have hfield : fieldAt m a 2 = ofLE alg := by
      rw [Mem.Holds, halg] at hma
      rw [fieldAt, hma]
    rw [halg, hdigest, ← Nat.add_assoc] at hds
    refine ⟨(ofLE alg, m.load (a + 2) size) :: ds, (a, 2) :: (a + 2, size) :: reads, ?_, ?_⟩
    · simp only [digestsPrint, hfield, hsize, hds, List.length_append, halg, hdigest]
      rw [show a + 2 + size + rest.length = a + (2 + size + rest.length) by omega]
    · simp only [InLog, List.length_append, List.forall_mem_cons] at hreads ⊢
      refine ⟨by omega, by omega, fun r hr => ?_⟩
      have := hreads r hr
      omega

/-- What the digest loop went over is tagged digests. -/
theorem taggedDigests_of_print {m : Mem} {count ptr ptr' : Nat} {shaSize : Option Nat}
    {ds : List (Nat × List UInt8)} {reads : List (Nat × Nat)}
    (h : digestsPrint m count ptr shaSize = some (ds, ptr', reads)) :
    ∃ n, ptr' = ptr + n ∧ TaggedDigests count shaSize (m.load ptr n) := by
  induction count generalizing ptr shaSize ds reads with
  | zero =>
    cases h
    exact ⟨0, rfl, .nil _⟩
  | succ count ih =>
    rw [digestsPrint] at h
    cases hsize : shaSizeOf (fieldAt m ptr 2) shaSize with
    | none => simp [hsize] at h
    | some size =>
      simp only [hsize] at h
      cases hrest : digestsPrint m count (ptr + 2 + size) (some size) with
      | none => simp [hrest] at h
      | some r =>
        obtain ⟨ds', ptr'', reads'⟩ := r
        simp only [hrest, Option.some.injEq, Prod.mk.injEq] at h
        obtain ⟨-, rfl, -⟩ := h
        obtain ⟨n, rfl, hg⟩ := ih hrest
        refine ⟨2 + size + n, by omega, ?_⟩
        rw [Mem.load_add, Mem.load_add, ← Nat.add_assoc]
        exact .cons (by simp) hsize (by simp) hg

/-! ## One event -/

/-- **An event of the grammar is printed safely**, up to the rest of the log. -/
theorem event2Print_of_events {m : Mem} {a start size : Nat}
    {header count digests sizeField data rest : List UInt8} (hheader : header.length = 8)
    (hcount : count.length = 4) (hdigests : TaggedDigests (ofLE count) none digests)
    (hsizeField : sizeField.length = 4) (hdata : data.length = ofLE sizeField)
    (hnul : (0 : UInt8) ∈ data ++ rest)
    (h : m.Holds a (header ++ (count ++ (digests ++ (sizeField ++ (data ++ rest))))))
    (ha : start ≤ a)
    (hlen : a + (header ++ (count ++ (digests ++ (sizeField ++ (data ++ rest))))).length =
      start + size) (hs : size < 2 ^ 64) :
    ∃ p, event2Print m a (start + size - a) = some p ∧ (∀ r ∈ p.reads, InLog start size r) ∧
      m.Holds p.logAddr rest ∧ p.logAddr + rest.length = start + size ∧ p.logSize = rest.length ∧
      a < p.logAddr := by
  simp only [Mem.holds_append, hheader, hcount, hsizeField] at h
  obtain ⟨-, hmc, hmd, hms, hmt, hmr⟩ := h
  simp only [List.length_append, hheader, hcount, hsizeField] at hlen
  have hfc : fieldAt m (a + 8) 4 = ofLE count := by
    rw [Mem.Holds, hcount] at hmc
    rw [fieldAt, hmc]
  obtain ⟨ds, reads, hds, hreads⟩ := digestsPrint_holds hdigests hmd
  have hptr : a + 8 + 4 + digests.length = a + 12 + digests.length := by omega
  have hfs : fieldAt m (a + 12 + digests.length) 4 = ofLE sizeField := by
    rw [Mem.Holds, hsizeField, hptr] at hms
    rw [fieldAt, hms]
  have hds : digestsPrint m (ofLE count) (a + 12) none = some (ds, a + 12 + digests.length, reads) :=
    hds
  have hmem : (0 : UInt8) ∈ m.load (a + 12 + digests.length + 4) (data.length + rest.length) := by
    rw [hptr] at hmt hmr
    have := Mem.holds_append.mpr ⟨hmt, hmr⟩
    rw [Mem.Holds, List.length_append] at this
    rwa [this]
  have htext : ∀ r ∈ (eventTextPrint m (a + 12 + digests.length + 4) (ofLE sizeField)).2,
      InLog start size r :=
    (eventTextPrint_reads (by omega) (by omega) (by omega) hs).mpr hmem
  rw [hptr, hdata] at hmr
  unfold event2Print
  simp only [hfc, hds, hfs]
  refine ⟨_, rfl, ?_, hmr, by simp only; omega, ?_, by simp only; omega⟩
  · simp only [InLog] at hreads htext ⊢
    simp only [List.mem_append, List.mem_cons, List.not_mem_nil, or_false]
    rintro r ((((rfl | rfl | rfl) | hr) | rfl) | hr)
    · exact ⟨by omega, by omega⟩
    · exact ⟨by simp only; omega, by simp only; omega⟩
    · exact ⟨by simp only; omega, by simp only; omega⟩
    · have := hreads r hr
      omega
    · exact ⟨by simp only; omega, by simp only; omega⟩
    · exact htext r hr
  · simp only
    rw [sizeSub_eq (by omega) (by omega)]
    omega

theorem event2Print_advances {m : Mem} {a size : Nat} {p : Printed Event2}
    (hp : event2Print m a size = some p) : a < p.logAddr := by
  unfold event2Print at hp
  simp only at hp
  cases hd : digestsPrint m (fieldAt m (a + 8) 4) (a + 12) none with
  | none => simp [hd] at hp
  | some r =>
    obtain ⟨ds, ptr, reads⟩ := r
    simp only [hd, Option.some.injEq] at hp
    obtain ⟨n, rfl, -⟩ := taggedDigests_of_print hd
    subst hp
    simp only
    omega

/-- **What is printed safely is an event of the grammar**, before what the cursor stops at. -/
theorem events_of_event2Print {m : Mem} {a start size : Nat} {p : Printed Event2} (ha : start ≤ a)
    (hp : event2Print m a (start + size - a) = some p) (hreads : ∀ r ∈ p.reads, InLog start size r)
    (hend : p.logAddr + p.logSize = start + size) (hs : size < 2 ^ 64)
    (hrest : WellFormedEvents (m.load p.logAddr p.logSize)) :
    WellFormedEvents (m.load a (start + size - a)) := by
  unfold event2Print at hp
  simp only at hp
  cases hd : digestsPrint m (fieldAt m (a + 8) 4) (a + 12) none with
  | none => simp [hd] at hp
  | some r =>
    obtain ⟨ds, ptr, reads⟩ := r
    simp only [hd, Option.some.injEq] at hp
    obtain ⟨n, rfl, hdigests⟩ := taggedDigests_of_print hd
    subst hp
    simp only at hreads hend hrest ⊢
    have htext : ∀ r ∈ (eventTextPrint m (a + 12 + n + 4) (fieldAt m (a + 12 + n) 4)).2,
        InLog start size r := fun r hr => hreads r (List.mem_append_right _ hr)
    generalize sizeSub (start + size - a) _ = left at hend hrest
    have hnul := (eventTextPrint_reads (k := fieldAt m (a + 12 + n) 4 + left) (by omega) (by omega)
      (by omega) hs).mp htext
    rw [Mem.load_add] at hnul
    rw [show start + size - a = 8 + (4 + (n + (4 + (fieldAt m (a + 12 + n) 4 + left)))) by omega]
    simp only [Mem.load_add]
    exact .cons (by simp) (by simp) hdigests (by simp) (by simp [fieldAt, Nat.add_assoc]) hnul hrest

/-! ## The loop -/

/-- What the loop's steps from size `left` on have to keep. -/
structure StepsSafe (start size left : Nat) (ps : List (Printed Event2)) : Prop where
  reads : ∀ p ∈ ps, ∀ r ∈ p.reads, InLog start size r
  decreasing : List.IsChain (· > ·) (left :: ps.map (·.logSize))
  ends : ∀ p ∈ ps, p.logAddr + p.logSize = start + size

theorem stepsSafe_cons {start size left : Nat} {p : Printed Event2} {ps : List (Printed Event2)} :
    StepsSafe start size left (p :: ps) ↔
      ((∀ r ∈ p.reads, InLog start size r) ∧ p.logSize < left ∧
        p.logAddr + p.logSize = start + size) ∧ StepsSafe start size p.logSize ps := by
  constructor
  · rintro ⟨hreads, hdec, hends⟩
    rw [List.map_cons, List.isChain_cons_cons] at hdec
    rw [List.forall_mem_cons] at hreads hends
    exact ⟨⟨hreads.1, hdec.1, hends.1⟩, ⟨hreads.2, hdec.2, hends.2⟩⟩
  · rintro ⟨⟨hr, hd, he⟩, ⟨hreads, hdec, hends⟩⟩
    exact ⟨List.forall_mem_cons.mpr ⟨hr, hreads⟩, List.isChain_cons_cons.mpr ⟨hd, hdec⟩,
      List.forall_mem_cons.mpr ⟨he, hends⟩⟩

theorem event2Loop_of_wellFormed {m : Mem} {start size a : Nat} {bs : List UInt8}
    (hg : WellFormedEvents bs) (h : m.Holds a bs) (ha : start ≤ a)
    (hlen : a + bs.length = start + size) (hs : size < 2 ^ 64) :
    ∃ fuel ps, event2Loop m fuel a bs.length = (ps, .done) ∧ StepsSafe start size bs.length ps := by
  induction hg generalizing a with
  | nil => exact ⟨0, [], rfl, by simp, .singleton _, by simp⟩
  | @cons header count digests sizeField data rest hheader hcount hdigests hsizeField hdata hnul _
      ih =>
    obtain ⟨p, hp, hreads, hrest, hend, hleft, hadv⟩ := event2Print_of_events hheader hcount hdigests
      hsizeField hdata hnul h ha hlen hs
    obtain ⟨fuel, ps, hps, hsafe⟩ := ih hrest (by omega) hend
    have hpos : start + size - a = (header ++ (count ++ (digests ++ (sizeField ++
        (data ++ rest))))).length := by omega
    rw [hpos] at hp
    refine ⟨fuel + 1, p :: ps, ?_, ?_⟩
    · rw [event2Loop_some (by omega) hp, hleft, hps]
    · rw [← hleft] at hsafe
      exact stepsSafe_cons.mpr ⟨⟨hreads, by omega, by omega⟩, hsafe⟩

theorem wellFormed_of_event2Loop {m : Mem} {start size a fuel : Nat} {ps : List (Printed Event2)}
    (hloop : event2Loop m fuel a (start + size - a) = (ps, .done)) (ha : start ≤ a)
    (hle : a ≤ start + size) (hsafe : StepsSafe start size (start + size - a) ps)
    (hs : size < 2 ^ 64) : WellFormedEvents (m.load a (start + size - a)) := by
  induction fuel generalizing a ps with
  | zero =>
    rw [event2Loop.eq_def] at hloop
    by_cases h0 : start + size - a = 0
    · rw [h0]
      exact .nil
    · simp [h0] at hloop
  | succ fuel ih =>
    by_cases h0 : start + size - a = 0
    · rw [h0]
      exact .nil
    cases hp : event2Print m a (start + size - a) with
    | none =>
      rw [event2Loop.eq_def] at hloop
      simp [h0, hp] at hloop
    | some p =>
      rw [event2Loop_some h0 hp, Prod.mk.injEq] at hloop
      obtain ⟨rfl, hdone⟩ := hloop
      obtain ⟨⟨hreads, -, hend⟩, hsafe⟩ := stepsSafe_cons.mp hsafe
      have hadv := event2Print_advances hp
      have hleft : p.logSize = start + size - p.logAddr := by omega
      rw [hleft] at hdone hsafe
      refine events_of_event2Print ha hp hreads hend hs ?_
      rw [hleft]
      exact ih (Prod.ext rfl hdone) (by omega) (by omega) hsafe

/-! ## The whole print -/

/-- The end of the specification ID event at `a`. -/
def idEventEnd (m : Mem) (a : Nat) : Nat :=
  a + 88 + fieldAt m (a + 84) 4 * 4 + 1 + (m (a + 88 + fieldAt m (a + 84) 4 * 4)).toNat

/-- The specification ID event is safe if it ends in the log and there is a NUL behind the start of
its signature. -/
theorem idEventPrint_safe {m : Mem} {start size : Nat} (hs : size < 2 ^ 64) :
    ((∀ r ∈ (idEventPrint m start size).reads, InLog start size r) ∧
        (idEventPrint m start size).logAddr + (idEventPrint m start size).logSize = start + size) ↔
      idEventEnd m start ≤ start + size ∧ (0 : UInt8) ∈ m.load (start + 60) (size - 60) := by
  have hfield : fieldAt m (start + 84) 4 < 2 ^ 32 := by
    have := ofLE_lt (m.load (start + 84) 4)
    rw [Mem.length_load] at this
    exact this
  have hbyte := (m (start + 88 + fieldAt m (start + 84) 4 * 4)).toNat_lt
  unfold idEventPrint idEventEnd
  simp only [List.forall_mem_cons]
  generalize fieldAt m (start + 84) 4 = n at *
  generalize (m (start + 88 + n * 4)).toNat = v at *
  constructor
  · rintro ⟨⟨h0, -, -, -, h60, -, -, -, -, -, -, -, -, hv, -⟩, hend⟩
    simp only [InLog] at h0 hv
    have hsig := (stringRead_inLog (k := start + size - (start + 60)) (by omega) ?_ hs).mp h60
    · rw [show start + size - (start + 60) = size - 60 by omega] at hsig
      exact ⟨by omega, hsig⟩
    · simp only [InLog, stringRead] at h60
      omega
  · rintro ⟨hle, hnul⟩
    have hsig : InLog start size (stringRead m (start + 60)) :=
      (stringRead_inLog (by omega) (by omega) hs).mpr hnul
    have hsub : sizeSub size (start + 88 + n * 4 + 1 + v - start) = size - (88 + n * 4 + 1 + v) := by
      rw [sizeSub_eq (by omega) hs]
      omega
    rw [hsub]
    simp only [InLog] at hsig ⊢
    refine ⟨⟨by omega, by omega, by omega, by omega, hsig, by omega, by omega, by omega, by omega,
      by omega, by omega, by omega, by omega, by omega, by simp⟩, by omega⟩

theorem idEventPrint_logAddr (m : Mem) (start size : Nat) :
    (idEventPrint m start size).logAddr = idEventEnd m start := rfl

/-- A print is safe if its specification ID event is and the loop behind it is. -/
theorem printSafe_iff {m : Mem} {start size : Nat} (hs : size < 2 ^ 64) :
    (∃ fuel, PrintSafe start size (eventLogPrint m fuel start size)) ↔
      (idEventEnd m start ≤ start + size ∧ (0 : UInt8) ∈ m.load (start + 60) (size - 60)) ∧
      ∃ fuel ps, event2Loop m fuel (idEventEnd m start) (start + size - idEventEnd m start) =
          (ps, .done) ∧ StepsSafe start size (start + size - idEventEnd m start) ps := by
  have hadv : start + 89 ≤ idEventEnd m start := by
    unfold idEventEnd
    omega
  have hid := @idEventPrint_safe m start size hs
  rw [idEventPrint_logAddr] at hid
  unfold eventLogPrint
  simp only [idEventPrint_logAddr]
  generalize hi : idEventPrint m start size = i at hid ⊢
  have haddr : i.logAddr = idEventEnd m start := by rw [← hi, idEventPrint_logAddr]
  constructor
  · rintro ⟨fuel, hstop, hreads, hdec, hend, hends⟩
    simp only [PrintRun.reads, PrintRun.sizes, List.mem_append, haddr] at hstop hreads hdec hend hends
    rw [List.isChain_cons_cons] at hdec
    have hin := hid.mp ⟨fun r hr => hreads r (.inl hr), hend⟩
    have hleft : i.logSize = start + size - idEventEnd m start := by omega
    rw [hleft] at hstop hreads hdec hends
    refine ⟨hin, fuel, _, Prod.ext rfl hstop, fun p hp r hr => ?_, hdec.2, hends⟩
    exact hreads r (.inr (List.mem_flatMap.mpr ⟨p, hp, hr⟩))
  · rintro ⟨hin, fuel, ps, hloop, hsafe⟩
    obtain ⟨hreads, hend⟩ := hid.mpr hin
    have hleft : i.logSize = start + size - idEventEnd m start := by omega
    refine ⟨fuel, ?_, ?_, ?_, ?_, ?_⟩
    · simp only [hleft, hloop]
    · intro r hr
      simp only [PrintRun.reads, hleft, hloop, List.mem_append, List.mem_flatMap] at hr
      rcases hr with hr | ⟨p, hp, hr⟩
      · exact hreads r hr
      · exact hsafe.reads p hp r hr
    · simp only [PrintRun.sizes, hleft, hloop]
      exact List.isChain_cons_cons.mpr ⟨by omega, hsafe.decreasing⟩
    · rw [haddr]
      exact hend
    · simp only [hleft, hloop]
      exact hsafe.ends

/-- The bytes from the signature on, cut where the printer cuts them. -/
theorem load_signature {m : Mem} {start size : Nat} (h : idEventEnd m start ≤ start + size) :
    m.load (start + 60) (size - 60) = m.load (start + 60) 24 ++ (m.load (start + 84) 4 ++
      (m.load (start + 88) (fieldAt m (start + 84) 4 * 4) ++
        (m (start + 88 + fieldAt m (start + 84) 4 * 4) ::
          (m.load (start + 88 + fieldAt m (start + 84) 4 * 4 + 1)
              (m (start + 88 + fieldAt m (start + 84) 4 * 4)).toNat ++
            m.load (idEventEnd m start) (start + size - idEventEnd m start))))) := by
  unfold idEventEnd at h ⊢
  generalize fieldAt m (start + 84) 4 * 4 = n at *
  generalize hv : (m (start + 88 + n)).toNat = v at *
  have hcut : size - 60 = 24 + (4 + (n + (v + (start + size - (start + 88 + n + 1 + v)) + 1))) := by
    omega
  rw [hcut, Mem.load_add, Mem.load_add, Mem.load_add, Mem.load_succ m _ (v + _), Mem.load_add m _ v]

/-- **When the printer is safe.** The print of `size` bytes ends, reads only these bytes, never uses
the unset `sha_size` and counts the size down to 0, exactly if the bytes are a log of the
grammar. -/
theorem eventLogPrint_safe_iff (m : Mem) (start : Nat) (size : UInt64) :
    (∃ fuel, PrintSafe start size.toNat (eventLogPrint m fuel start size.toNat)) ↔
      WellFormedLog (m.load start size.toNat) := by
  have hs := size.toNat_lt
  generalize size.toNat = size at *
  rw [printSafe_iff hs]
  constructor
  · rintro ⟨⟨hle, hnul⟩, fuel, ps, hloop, hsafe⟩
    have hle' : 89 ≤ size := by
      unfold idEventEnd at hle
      omega
    have hev := wellFormed_of_event2Loop hloop (by unfold idEventEnd; omega) hle hsafe hs
    rw [show size = 60 + (size - 60) by omega, Mem.load_add]
    rw [load_signature hle] at hnul ⊢
    exact .mk (by simp) (by simp) (by simp) (by simp [fieldAt]) (by simp) hnul hev
  · generalize hbs : m.load start size = bs
    intro hg
    cases hg with
    | @mk header signature count algorithms vendor rest infoSize hheader hsignature hcount
        halgorithms hvendor hnul hevents =>
      have hlen : size - 60 = (signature ++ (count ++ (algorithms ++
          (infoSize :: (vendor ++ rest))))).length := by
        have := congrArg List.length hbs
        rw [Mem.length_load, List.length_append, hheader] at this
        omega
      have h60 : 60 ≤ size := by
        have := congrArg List.length hbs
        rw [Mem.length_load, List.length_append, hheader] at this
        omega
      have hm : m.Holds start (m.load start size) := m.holds_load start size
      rw [hbs, Mem.holds_append, hheader] at hm
      have htail := hm.2
      rw [Mem.Holds, ← hlen] at htail
      have hsplit := hm.2
      simp only [Mem.holds_append, Mem.holds_cons, hsignature, hcount, halgorithms] at hsplit
      obtain ⟨-, hmc, -, hmi, -, hmr⟩ := hsplit
      have hfc : fieldAt m (start + 84) 4 = ofLE count := by
        rw [Mem.Holds, hcount] at hmc
        rw [fieldAt, hmc]
      have hinfo : m (start + 88 + ofLE count * 4) = infoSize := hmi
      have hend : idEventEnd m start = start + 88 + ofLE count * 4 + 1 + vendor.length := by
        rw [idEventEnd, hfc, hinfo, hvendor]
      simp only [List.length_append, List.length_cons, hsignature, hcount, halgorithms] at hlen
      have hrest : m.Holds (idEventEnd m start) rest := by
        rw [hend]
        exact hmr
      have hleft : rest.length = start + size - idEventEnd m start := by omega
      rw [htail, ← hleft]
      refine ⟨⟨by omega, hnul⟩, event2Loop_of_wellFormed hevents hrest (by omega) (by omega) hs⟩

/-- A log of one event whose only digest has the algorithm id 4. -/
def unknownAlgorithmLog : List UInt8 :=
  headerBytes ++ (leBytes 4 9 ++ (leBytes 4 1 ++ (leBytes 4 1 ++ (leBytes 2 4 ++
    (List.replicate 20 0 ++ leBytes 4 0)))))

def unknownAlgorithmMem : Mem := Mem.store (fun _ => 0) 0 unknownAlgorithmLog

/-- The printer takes the unset `sha_size` for that event, however far it runs. -/
theorem not_eventLogPrint_safe :
    ¬ ∀ (m : Mem) (start : Nat) (size : UInt64),
      ∃ fuel, PrintSafe start size.toNat (eventLogPrint m fuel start size.toNat) := by
  intro h
  obtain ⟨fuel, hsafe⟩ := h unknownAlgorithmMem 0 214
  have hstop : (event2Loop unknownAlgorithmMem fuel (idEventPrint unknownAlgorithmMem 0 214).logAddr
      (idEventPrint unknownAlgorithmMem 0 214).logSize).2 = .done := hsafe.stop
  have hid : (idEventPrint unknownAlgorithmMem 0 214).logAddr = 93 ∧
      (idEventPrint unknownAlgorithmMem 0 214).logSize = 121 := by decide +kernel
  have hloc : unknownAlgorithmMem.Holds 93 localityBytes := by
    unfold Mem.Holds
    decide +kernel
  have hlast : (event2Print unknownAlgorithmMem 176 38).isNone = true := by decide +kernel
  obtain ⟨p, hp, -, haddr, hsize⟩ := @event2Print_locality _ _ 121 hloc (by decide) (by decide)
  rw [hid.1, hid.2] at hstop
  cases fuel with
  | zero => simp [event2Loop] at hstop
  | succ fuel =>
    rw [event2Loop_some (by decide) hp, haddr, hsize] at hstop
    rw [Option.isNone_iff_eq_none] at hlast
    cases fuel with
    | zero => simp [event2Loop] at hstop
    | succ fuel => simp [event2Loop, hlast] at hstop

end MeasuredBoot
