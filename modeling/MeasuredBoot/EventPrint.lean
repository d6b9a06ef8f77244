import MeasuredBoot.EventLog

/-!
# Event log printer (`event_print.c`)

`idEventPrint` and `event2Print` read a log back from memory at `*log_addr` and
advance `*log_addr` and `*log_size` (a `size_t`, so the subtraction wraps).
Each keeps the byte ranges it reads, in order: the assertions that bounded them
are commented out in the source. `eventLogPrint` is the print path of
`Tpm_Measure_Partition`: the specification ID event, then
`while (size != 0U) event2_print(&start, &size)`.
-/

namespace MeasuredBoot

/-- A little-endian field of `k` bytes. -/
def fieldAt (m : Mem) (a k : Nat) : Nat := ofLE (m.load a k)

/-- The characters before the first NUL from `a` on, among the next `n` bytes. -/
def strnlen (m : Mem) (a : Nat) : Nat → Nat
  | 0 => 0
  | n + 1 => if m a = 0 then 0 else strnlen m (a + 1) n + 1

/-- What `%s` prints at `a`: the scan goes round the address space at most once. -/
def stringAt (m : Mem) (a : Nat) : List UInt8 := m.load a (strnlen m a (2 ^ 64))

/-- The bytes `%s` reads at `a`, the NUL included. -/
def stringRead (m : Mem) (a : Nat) : Nat × Nat := (a, strnlen m a (2 ^ 64) + 1)

/-- `strcmp` of the string at `a` with the bytes `cs` of a C string: whether they are equal, and
how many bytes at `a` were read. -/
def strcmpAt (m : Mem) (a : Nat) : List UInt8 → Bool × Nat
  | [] => (true, 0)
  | c :: cs =>
    if m a ≠ c then (false, 1)
    else if c = 0 then (true, 1)
    else ((strcmpAt m (a + 1) cs).1, (strcmpAt m (a + 1) cs).2 + 1)

/-- `*log_size -= d`. -/
def sizeSub (size d : Nat) : Nat := (size + (2 ^ 64 - d % 2 ^ 64)) % 2 ^ 64

/-- One printed event: what was printed, `*log_addr` and `*log_size` after it, and the byte ranges
read for it. -/
structure Printed (α : Type) where
  out : α
  logAddr : Nat
  logSize : Nat
  reads : List (Nat × Nat)

/-! ## `id_event_print` -/

/-- The fields of the specification ID event, as printed. -/
structure IdEvent where
  pcrIndex : Nat
  eventType : Nat
  digest : List UInt8
  eventSize : Nat
  signature : List UInt8
  platformClass : Nat
  specVersion : Nat × Nat × Nat
  uintnSize : Nat
  digestSizes : List (Nat × Nat)
  vendorInfo : List UInt8
  deriving DecidableEq

def idEventPrint (m : Mem) (logAddr logSize : Nat) : Printed IdEvent :=
  let numberOfAlgorithms := fieldAt m (logAddr + 84) 4
  let algPtr := logAddr + 88
  let digestLen := numberOfAlgorithms * 4
  let infoSizePtr := algPtr + digestLen
  let infoSize := (m infoSizePtr).toNat
  let infoSizePtr := infoSizePtr + 1
  { out :=
      { pcrIndex := fieldAt m logAddr 4
        eventType := fieldAt m (logAddr + 4) 4
        digest := m.load (logAddr + 8) 48
        eventSize := fieldAt m (logAddr + 56) 4
        signature := stringAt m (logAddr + 60)
        platformClass := fieldAt m (logAddr + 76) 4
        specVersion := ((m (logAddr + 81)).toNat, (m (logAddr + 80)).toNat, (m (logAddr + 82)).toNat)
        uintnSize := (m (logAddr + 83)).toNat
        digestSizes := (List.range numberOfAlgorithms).map fun i =>
          (fieldAt m (algPtr + 4 * i) 2, fieldAt m (algPtr + 4 * i + 2) 2)
        vendorInfo := m.load infoSizePtr infoSize }
    logAddr := infoSizePtr + infoSize
    logSize := sizeSub logSize (infoSizePtr + infoSize - logAddr)
    reads :=
      [(logAddr, 4), (logAddr + 4, 4), (logAddr + 8, 48), (logAddr + 56, 4),
        stringRead m (logAddr + 60), (logAddr + 76, 4), (logAddr + 81, 1), (logAddr + 80, 1),
        (logAddr + 82, 1), (logAddr + 83, 1), (logAddr + 84, 4), (algPtr, digestLen),
        (algPtr + digestLen, 1), (infoSizePtr, infoSize)] }

/-! ## `event2_print` -/

/-- The sizes the switch knows; any other algorithm leaves `sha_size` as it is. -/
def shaSizeOf (algorithmId : Nat) (shaSize : Option Nat) : Option Nat :=
  if algorithmId = tpmAlgSha256 then some 32
  else if algorithmId = tpmAlgSha384 then some 48
  else if algorithmId = tpmAlgSha512 then some 64
  else shaSize

/-- The digest loop at `ptr`: the tagged digests, the pointer behind them and the ranges read;
`none` when `sha_size` is used before it is set. -/
def digestsPrint (m : Mem) : Nat → Nat → Option Nat →
    Option (List (Nat × List UInt8) × Nat × List (Nat × Nat))
  | 0, ptr, _ => some ([], ptr, [])
  | count + 1, ptr, shaSize =>
    let algorithmId := fieldAt m ptr 2
    match shaSizeOf algorithmId shaSize with
    | none => none
    | some size =>
      match digestsPrint m count (ptr + 2 + size) (some size) with
      | none => none
      | some (ds, ptr', reads) =>
        some ((algorithmId, m.load (ptr + 2) size) :: ds, ptr', (ptr, 2) :: (ptr + 2, size) :: reads)

/-- The event data as printed: the startup locality, or the text `%s` shows. -/
inductive EventText where
  | locality (signature : List UInt8) (startupLocality : Nat)
  | text (chars : List UInt8)
  deriving DecidableEq

/-- The fields of a `TCG_PCR_EVENT2`, as printed. -/
structure Event2 where
  pcrIndex : Nat
  eventType : Nat
  digests : List (Nat × List UInt8)
  eventSize : Nat
  event : EventText
  deriving DecidableEq

/-- `sizeof(startup_locality_event_t)`. -/
def startupLocalityEventSize : Nat := 17

/-- The event data at `ptr`, and the ranges read for it. -/
def eventTextPrint (m : Mem) (ptr eventSize : Nat) : EventText × List (Nat × Nat) :=
  if eventSize = startupLocalityEventSize then
    let cmp := strcmpAt m ptr tcgStartupLocalitySignature.bytes
    if cmp.1 then
      (.locality (stringAt m ptr) (m (ptr + 16)).toNat,
        [(ptr, cmp.2), stringRead m ptr, (ptr + 16, 1)])
    else (.text (stringAt m ptr), [(ptr, cmp.2), stringRead m ptr])
  else (.text (stringAt m ptr), [stringRead m ptr])

/-- `none`: the unset `sha_size` was used. -/
def event2Print (m : Mem) (logAddr logSize : Nat) : Option (Printed Event2) :=
  let count := fieldAt m (logAddr + 8) 4
  match digestsPrint m count (logAddr + 12) none with
  | none => none
  | some (digests, ptr, reads) =>
    let eventSize := fieldAt m ptr 4
    let text := eventTextPrint m (ptr + 4) eventSize
    some
      { out :=
          { pcrIndex := fieldAt m logAddr 4
            eventType := fieldAt m (logAddr + 4) 4
            digests
            eventSize
            event := text.1 }
        logAddr := ptr + 4 + eventSize
        logSize := sizeSub logSize (ptr + 4 + eventSize - logAddr)
        reads := [(logAddr, 4), (logAddr + 4, 4), (logAddr + 8, 4)] ++ reads ++ [(ptr, 4)] ++ text.2 }

/-! ## The print path -/

/-- How the print loop ends: the size is 0, the unset `sha_size` is used, or not in this many
steps. -/
inductive PrintEnd where
  | done
  | unset
  | running
  deriving DecidableEq

/-- `while (size != 0U) event2_print(&start, &size)`, at most `fuel` times round. -/
def event2Loop (m : Mem) : Nat → Nat → Nat → List (Printed Event2) × PrintEnd
  | fuel, logAddr, logSize =>
    if logSize = 0 then ([], .done)
    else
      match fuel with
      | 0 => ([], .running)
      | fuel + 1 =>
        match event2Print m logAddr logSize with
        | none => ([], .unset)
        | some p =>
          let r := event2Loop m fuel p.logAddr p.logSize
          (p :: r.1, r.2)

/-- The whole print of the log of `size` bytes at `start`. -/
structure PrintRun where
  idEvent : Printed IdEvent
  events : List (Printed Event2)
  stop : PrintEnd

def eventLogPrint (m : Mem) (fuel start size : Nat) : PrintRun :=
  let idEvent := idEventPrint m start size
  let r := event2Loop m fuel idEvent.logAddr idEvent.logSize
  ⟨idEvent, r.1, r.2⟩

namespace PrintRun

variable (r : PrintRun)

/-- Every byte range read. -/
def reads : List (Nat × Nat) := r.idEvent.reads ++ r.events.flatMap (·.reads)

/-- `size` after each step. -/
def sizes : List Nat := r.idEvent.logSize :: r.events.map (·.logSize)

/-- `start` after the last step. -/
def cursor : Nat := ((r.events.map (·.logAddr)).getLast?).getD r.idEvent.logAddr

/-- `size` after the last step. -/
def left : Nat := ((r.events.map (·.logSize)).getLast?).getD r.idEvent.logSize

end PrintRun

/-- The loop ends where it has consumed the size. -/
theorem event2Loop_done {m : Mem} {fuel logAddr logSize : Nat}
    (h : (event2Loop m fuel logAddr logSize).2 = .done) :
    (((event2Loop m fuel logAddr logSize).1.map (·.logSize)).getLast?).getD logSize = 0 := by
  induction fuel generalizing logAddr logSize with
  | zero =>
    unfold event2Loop at h ⊢
    split at h <;> simp_all
  | succ fuel ih =>
    unfold event2Loop at h ⊢
    by_cases h0 : logSize = 0
    · simp [h0]
    · simp only [h0, if_false] at h ⊢
      cases hp : event2Print m logAddr logSize with
      | none => simp [hp] at h
      | some p =>
        simp only [hp] at h ⊢
        have hlast := ih h
        rw [List.map_cons, List.getLast?_cons]
        exact hlast

theorem PrintRun.left_of_done {m : Mem} {fuel start size : Nat}
    (h : (eventLogPrint m fuel start size).stop = .done) :
    (eventLogPrint m fuel start size).left = 0 := event2Loop_done h

end MeasuredBoot
