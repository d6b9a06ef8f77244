import MeasuredBoot.Lib.Bytes

/-!
# Event log writer (`event_log.c`)

The three writers, as the stores they make and the end pointer they return, and
the bytes of what they write: `specIdBytes`, `localityBytes`, `Event.bytes`. The
theorems `eventLogWriteSpecidEvent_eq`, `eventLogWriteHeader_eq` and
`eventLogRecord_eq` say each writer is one store of those bytes.
-/

namespace MeasuredBoot

/-- The bytes of a SHA3-384 digest. -/
abbrev Digest := Vector UInt8 48

def zeroDigest : Digest := Vector.replicate 48 0

/-! ## Constants (`tcg.h`, `event_log.h`, `event_log.c`) -/

def evPostCode : UInt32 := 1
def evNoAction : UInt32 := 3
def tpmAlgSha256 : Nat := 0x000B
def tpmAlgSha384 : Nat := 0x000C
def tpmAlgSha512 : Nat := 0x000D
def tpmAlgId : Nat := tpmAlgSha384
def tcgDigestSize : Nat := 48
def hashAlgCount : Nat := 1

/-- `TCG_ID_EVENT_SIGNATURE_03`. -/
def tcgIdEventSignature03 : CStr :=
  ⟨ascii ['S', 'p', 'e', 'c', ' ', 'I', 'D', ' ', 'E', 'v', 'e', 'n', 't', '0', '3'], by decide⟩

/-- `TCG_STARTUP_LOCALITY_SIGNATURE`. -/
def tcgStartupLocalitySignature : CStr :=
  ⟨ascii ['S', 't', 'a', 'r', 't', 'u', 'p', 'L', 'o', 'c', 'a', 'l', 'i', 't', 'y'], by decide⟩

/-- The log buffer: `EVENT_LOG_END` is the first byte past it. -/
def eventLogStart : Nat := 0x79640000
def eventLogEnd : Nat := 0x79640FFF

/-! ## Specification ID event -/

/-- `id_event_header`: the packed event header and `TCG_EfiSpecIdEvent` header. -/
def idEventHeader : List UInt8 :=
  leBytes 4 0 ++ leBytes 4 evNoAction.toNat ++ zeroDigest.toList ++ leBytes 4 (29 + 4 * hashAlgCount) ++
    tcgIdEventSignature03.bytes ++ leBytes 4 0 ++ [0, 2, 2, 1] ++ leBytes 4 hashAlgCount

def eventLogWriteSpecidEvent (m : Mem) (logPtr : Nat) : Mem × Nat :=
  let m := m.store logPtr idEventHeader
  let ptr := logPtr + 88
  let m := m.store ptr (leBytes 2 tpmAlgId)
  let m := m.store (ptr + 2) (leBytes 2 tcgDigestSize)
  let ptr := ptr + 4
  let m := m.store ptr [0]
  (m, ptr + 1)

def specIdBytes : List UInt8 :=
  idEventHeader ++ leBytes 2 tpmAlgId ++ leBytes 2 tcgDigestSize ++ [0]

theorem length_idEventHeader : idEventHeader.length = 88 := by decide

theorem length_specIdBytes : specIdBytes.length = 93 := by decide

theorem eventLogWriteSpecidEvent_eq (m : Mem) (p : Nat) :
    eventLogWriteSpecidEvent m p = (m.store p specIdBytes, p + 93) := by
  unfold eventLogWriteSpecidEvent
  simp only
  rw [Mem.store_append (by simp), Mem.store_append (by simp),
    Mem.store_append (by rw [length_idEventHeader])]
  simp only [specIdBytes, List.append_assoc]

/-! ## Startup locality event -/

/-- `event_log_write_header`: the specification ID event, then the startup locality event. -/
def eventLogWriteHeader (m : Mem) (logPtr : Nat) : Mem × Nat :=
  let (m, ptr) := eventLogWriteSpecidEvent m logPtr
  let m := m.store ptr (leBytes 4 0 ++ leBytes 4 evNoAction.toNat ++ leBytes 4 hashAlgCount)
  let ptr := ptr + 12
  let m := m.store ptr (leBytes 2 tpmAlgId)
  let m := m.store (ptr + 2) (List.replicate tcgDigestSize 0)
  let ptr := ptr + 2 + tcgDigestSize
  let m := m.store ptr (leBytes 4 17)
  let ptr := ptr + 4
  let m := m.store ptr tcgStartupLocalitySignature.bytes
  let m := m.store (ptr + 16) [0]
  (m, ptr + 17)

def localityBytes : List UInt8 :=
  leBytes 4 0 ++ leBytes 4 evNoAction.toNat ++ leBytes 4 hashAlgCount ++ leBytes 2 tpmAlgId ++
    List.replicate tcgDigestSize 0 ++ leBytes 4 17 ++ tcgStartupLocalitySignature.bytes ++ [0]

/-- Everything `event_log_write_header` writes. -/
def headerBytes : List UInt8 := specIdBytes ++ localityBytes

theorem length_localityBytes : localityBytes.length = 83 := by decide

theorem length_headerBytes : headerBytes.length = 176 := by
  rw [headerBytes, List.length_append, length_specIdBytes, length_localityBytes]

theorem eventLogWriteHeader_eq (m : Mem) (p : Nat) :
    eventLogWriteHeader m p = (m.store p headerBytes, p + 176) := by
  have hsig : tcgStartupLocalitySignature.bytes.length = 16 := by decide
  unfold eventLogWriteHeader
  rw [eventLogWriteSpecidEvent_eq]
  simp only
  rw [Mem.store_append (by rw [hsig]), Mem.store_append (by simp), Mem.store_append (by simp),
    Mem.store_append (by simp), Mem.store_append (by simp),
    Mem.store_append (by rw [length_specIdBytes])]
  simp only [headerBytes, localityBytes, List.append_assoc, tcgDigestSize]

/-! ## Measurement events -/

/-- What one call of `event_log_record` is given. -/
structure Event where
  pcr : UInt32
  eventType : UInt32
  digest : Digest
  name : Option CStr

namespace Event

variable (e : Event)

/-- `name_len`: `(uint32_t)strlen(name) + 1U`, 0 for `NULL`. -/
def nameLen : UInt32 :=
  match e.name with
  | some s => UInt32.ofNat s.chars.length + 1
  | none => 0

/-- The event data: the first `name_len` bytes of the name with its NUL. -/
def nameBytes : List UInt8 :=
  match e.name with
  | some s => s.bytes.take e.nameLen.toNat
  | none => []

def bytes : List UInt8 :=
  leBytes 4 e.pcr.toNat ++ leBytes 4 e.eventType.toNat ++ leBytes 4 hashAlgCount ++
    leBytes 2 tpmAlgId ++ e.digest.toList ++ leBytes 4 e.nameLen.toNat ++ e.nameBytes

end Event

def eventLogRecord (m : Mem) (e : Event) (logPtr : Nat) : Mem × Nat :=
  let nameLen := e.nameLen
  let m := m.store logPtr (leBytes 4 e.pcr.toNat)
  let m := m.store (logPtr + 4) (leBytes 4 e.eventType.toNat)
  let ptr := logPtr + 8
  let m := m.store ptr (leBytes 4 hashAlgCount)
  let ptr := ptr + 4
  let m := m.store ptr (leBytes 2 tpmAlgId)
  let ptr := ptr + 2
  let m := m.store ptr e.digest.toList
  let ptr := ptr + tcgDigestSize
  let m := m.store ptr (leBytes 4 nameLen.toNat)
  let m := match e.name with
    | some s => m.store (ptr + 4) (s.bytes.take nameLen.toNat)
    | none => m
  (m, ptr + 4 + nameLen.toNat)

theorem Event.nameLen_le (e : Event) {s : CStr} (h : e.name = some s) :
    e.nameLen.toNat ≤ s.chars.length + 1 := by
  simp only [nameLen, h, UInt32.toNat_add, UInt32.toNat_ofNat', UInt32.toNat_one]
  omega

@[simp] theorem Event.length_nameBytes (e : Event) : e.nameBytes.length = e.nameLen.toNat := by
  cases h : e.name with
  | none => simp [nameBytes, nameLen, h]
  | some s =>
    have := e.nameLen_le h
    simp only [nameBytes, h, List.length_take, CStr.length_bytes]
    omega

theorem Event.length_bytes (e : Event) : e.bytes.length = 66 + e.nameLen.toNat := by
  simp [bytes]; omega

theorem eventLogRecord_eq (m : Mem) (e : Event) (p : Nat) :
    eventLogRecord m e p = (m.store p e.bytes, p + e.bytes.length) := by
  have hd : e.digest.toList.length = 48 := by simp
  have hname : ∀ m' : Mem, ∀ q, (match e.name with
      | some s => m'.store q (s.bytes.take e.nameLen.toNat)
      | none => m') = m'.store q e.nameBytes := by
    intro m' q
    cases h : e.name with
    | none => simp [Event.nameBytes, h]
    | some s => simp [Event.nameBytes, h]
  unfold eventLogRecord
  simp only
  rw [hname, Mem.store_append (by simp), Mem.store_append (by rw [hd, tcgDigestSize]),
    Mem.store_append (by simp), Mem.store_append (by simp), Mem.store_append (by simp),
    Mem.store_append (by simp), e.length_bytes]
  simp only [Event.bytes, List.append_assoc, tcgDigestSize, Prod.mk.injEq, true_and]
  omega

/-- The bytes of a list of events, one after the other. -/
def eventsBytes (es : List Event) : List UInt8 := es.flatMap Event.bytes

/-- A run of `event_log_record` calls, threading the end pointer. -/
def eventLogRecords (m : Mem) (logPtr : Nat) : List Event → Mem × Nat
  | [] => (m, logPtr)
  | e :: es =>
    let (m, ptr) := eventLogRecord m e logPtr
    eventLogRecords m ptr es

theorem eventLogRecords_eq (m : Mem) (p : Nat) (es : List Event) :
    eventLogRecords m p es = (m.store p (eventsBytes es), p + (eventsBytes es).length) := by
  induction es generalizing m p with
  | nil => simp [eventLogRecords, eventsBytes]
  | cons e es ih =>
    rw [eventLogRecords, eventLogRecord_eq]
    simp only
    rw [ih, Mem.store_append rfl]
    simp only [eventsBytes, List.flatMap_cons, List.length_append, Prod.mk.injEq, true_and]
    omega

end MeasuredBoot
