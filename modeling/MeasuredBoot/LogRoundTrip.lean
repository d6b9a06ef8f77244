import Mathlib.Data.List.Forall2
import MeasuredBoot.EventPrint

/-!
# The printer reads back what the writer wrote

`Prints m a size p` collects what one printed step does to the cursor. The
writer's bytes at the cursor determine the step: `idEventPrint_holds` for the
specification ID event, `event2Print_locality` for the startup locality event,
`event2Print_event` for a recorded event. `event2Loop_events` is the induction
over the events, and `eventLogPrint_roundTrip` the whole log.

A name is written with the 32-bit length `strlen(name) + 1`, and printed up to
the next NUL whatever its length: a name of `2 ^ 32 - 1` characters or more and
the text of a `NULL` name do not come back.
-/

namespace MeasuredBoot

/-! ## Fields and strings held in memory -/

theorem fieldAt_holds {m : Mem} {a k n : Nat} (h : m.Holds a (leBytes k n)) (hn : n < 256 ^ k) :
    fieldAt m a k = n := by
  rw [Mem.Holds, length_leBytes] at h
  rw [fieldAt, h, ofLE_leBytes hn]

theorem strnlen_holds {m : Mem} {a n : Nat} {s : List UInt8} (h0 : (0 : UInt8) ∉ s)
    (h : m.Holds a (s ++ [0])) (hn : s.length < n) : strnlen m a n = s.length := by
  induction s generalizing a n with
  | nil =>
    obtain ⟨n, rfl⟩ : ∃ k, n = k + 1 := ⟨n - 1, by simp at hn; omega⟩
    have := (Mem.holds_cons.mp h).1
    simp [strnlen, this]
  | cons c s ih =>
    simp only [List.length_cons] at hn
    obtain ⟨n, rfl⟩ : ∃ k, n = k + 1 := ⟨n - 1, by omega⟩
    obtain ⟨hc, hs⟩ := Mem.holds_cons.mp h
    have hc0 : m a ≠ 0 := by rw [hc]; exact fun e => h0 (by simp [e])
    rw [strnlen, if_neg hc0, ih (fun e => h0 (by simp [e])) hs (by omega), List.length_cons]

theorem stringAt_holds {m : Mem} {a : Nat} {s : CStr} (h : m.Holds a s.bytes)
    (hlen : s.chars.length < 2 ^ 64) : stringAt m a = s.chars := by
  rw [stringAt, strnlen_holds s.noNul h hlen]
  exact (Mem.holds_append.mp h).1

/-- `strcmp` finds exactly the string's own bytes equal. -/
theorem strcmpAt_iff {m : Mem} {a : Nat} {t : List UInt8} (ht0 : (0 : UInt8) ∉ t) :
    (strcmpAt m a (t ++ [0])).1 = true ↔ m.Holds a (t ++ [0]) := by
  induction t generalizing a with
  | nil =>
    rw [List.nil_append, Mem.holds_cons]
    by_cases h0 : m a = 0
    · simp [strcmpAt, h0, Mem.Holds, Mem.load]
    · simp [strcmpAt, h0]
  | cons c t ih =>
    have hc0 : c ≠ 0 := fun e => ht0 (by simp [e])
    have ih := ih (a := a + 1) fun e => ht0 (by simp [e])
    rw [List.cons_append, Mem.holds_cons, ← ih]
    by_cases hc : m a = c
    · simp [strcmpAt, hc, hc0]
    · simp [strcmpAt, hc]

theorem sizeSub_eq {size d : Nat} (hd : d ≤ size) (hs : size < 2 ^ 64) :
    sizeSub size d = size - d := by
  unfold sizeSub
  rw [Nat.mod_eq_of_lt (show d < 2 ^ 64 by omega)]
  omega

/-! ## The header events -/

/-- What the specification ID event prints as. -/
def specIdPrinted : IdEvent where
  pcrIndex := 0
  eventType := 3
  digest := List.replicate 48 0
  eventSize := 33
  signature := tcgIdEventSignature03.chars
  platformClass := 0
  specVersion := (2, 0, 2)
  uintnSize := 1
  digestSizes := [(0x000C, 48)]
  vendorInfo := []

/-- What the startup locality event prints as. -/
def localityPrinted : Event2 where
  pcrIndex := 0
  eventType := 3
  digests := [(0x000C, List.replicate 48 0)]
  eventSize := 17
  event := .locality tcgStartupLocalitySignature.chars 0

theorem idEventPrint_holds {m : Mem} {a size : Nat} (h : m.Holds a specIdBytes)
    (h1 : 93 ≤ size) (h2 : size < 2 ^ 64) :
    (idEventPrint m a size).out = specIdPrinted ∧ (idEventPrint m a size).logAddr = a + 93 ∧
      (idEventPrint m a size).logSize = size - 93 := by
  have hl := length_specIdBytes
  have part : ∀ i n, i + n ≤ 93 → m.load (a + i) n = (specIdBytes.drop i).take n := fun i n hi =>
    h.part (by omega)
  have field : ∀ i n, i + n ≤ 93 → fieldAt m (a + i) n = ofLE ((specIdBytes.drop i).take n) :=
    fun i n hi => by rw [fieldAt, part i n hi]
  have hsig : m.Holds (a + 60) tcgIdEventSignature03.bytes := by
    have := part 60 16 (by omega)
    exact this.trans (by decide)
  have hn : fieldAt m (a + 84) 4 = 1 := (field 84 4 (by omega)).trans (by decide)
  have hv : m (a + 92) = 0 := h.get (by decide)
  have ha : fieldAt m a 4 = 0 := by
    have := field 0 4 (by omega)
    exact this.trans (by decide)
  unfold idEventPrint
  simp only [hn, Nat.one_mul, show a + 88 + 4 = a + 92 by omega, hv]
  refine ⟨?_, by simp, ?_⟩
  · simp only [specIdPrinted, IdEvent.mk.injEq]
    refine ⟨ha, (field 4 4 (by omega)).trans (by decide), (part 8 48 (by omega)).trans (by decide),
      (field 56 4 (by omega)).trans (by decide), stringAt_holds hsig (by decide),
      (field 76 4 (by omega)).trans (by decide), ?_, ?_, ?_, by simp [Mem.load]⟩
    · have h81 : m (a + 81) = 2 := h.get (by decide)
      have h80 : m (a + 80) = 0 := h.get (by decide)
      have h82 : m (a + 82) = 2 := h.get (by decide)
      rw [h81, h80, h82]
      decide
    · have h83 : m (a + 83) = 1 := h.get (by decide)
      rw [h83]
      decide
    · have h88 := (field 88 2 (by omega)).trans (show _ = 12 by decide)
      have h90 := (field 90 2 (by omega)).trans (show _ = 48 by decide)
      simp [List.range_succ, h88, h90]
  · rw [show a + 92 + 1 + (0 : UInt8).toNat - a = 93 by rw [UInt8.toNat_zero]; omega]
    exact sizeSub_eq h1 h2

/-! ## One event -/

/-- The fields of an event up to its data, with the one digest the writer makes. -/
def eventPrefix (pcr eventType : Nat) (digest : List UInt8) (eventSize : Nat) : List UInt8 :=
  leBytes 4 pcr ++ leBytes 4 eventType ++ leBytes 4 hashAlgCount ++ leBytes 2 tpmAlgId ++ digest ++
    leBytes 4 eventSize

theorem length_eventPrefix {pcr eventType eventSize : Nat} {digest : List UInt8}
    (hd : digest.length = 48) : (eventPrefix pcr eventType digest eventSize).length = 66 := by
  simp [eventPrefix, hd]

theorem Event.bytes_eq (e : Event) :
    e.bytes = eventPrefix e.pcr.toNat e.eventType.toNat e.digest.toList e.nameLen.toNat ++
      e.nameBytes := rfl

theorem localityBytes_eq :
    localityBytes = eventPrefix 0 3 (List.replicate 48 0) 17 ++
      (tcgStartupLocalitySignature.bytes ++ [0]) := by decide

/-- An event's prefix decides its printed fields and where the next event is. -/
theorem event2Print_prefixed {m : Mem} {a size pcr eventType eventSize : Nat} {digest : List UInt8}
    (h : m.Holds a (eventPrefix pcr eventType digest eventSize)) (hd : digest.length = 48)
    (hp : pcr < 2 ^ 32) (ht : eventType < 2 ^ 32) (he : eventSize < 2 ^ 32) :
    ∃ p, event2Print m a size = some p ∧
      p.out = ⟨pcr, eventType, [(0x000C, digest)], eventSize,
        (eventTextPrint m (a + 66) eventSize).1⟩ ∧
      p.logAddr = a + (66 + eventSize) ∧ p.logSize = sizeSub size (66 + eventSize) := by
  unfold eventPrefix at h
  simp only [Mem.holds_append, List.length_append, length_leBytes, hd] at h
  obtain ⟨⟨⟨⟨⟨hpcr, hty⟩, hcount⟩, halg⟩, hdig⟩, hsize⟩ := h
  have hcount := fieldAt_holds hcount (by decide)
  have halg := fieldAt_holds halg (by decide)
  have hsize := fieldAt_holds hsize (by omega)
  rw [Mem.Holds, hd] at hdig
  have hdigests : digestsPrint m hashAlgCount (a + 12) none =
      some ([(0x000C, digest)], a + 62, [(a + 12, 2), (a + 14, 48)]) := by
    have halg : fieldAt m (a + 12) 2 = tpmAlgId := halg
    have hdig : m.load (a + 14) 48 = digest := hdig
    have hsha : shaSizeOf tpmAlgId none = some 48 := by decide
    simp only [hashAlgCount, digestsPrint, halg, hsha, Nat.add_assoc, Nat.reduceAdd, hdig]
    rfl
  have hcount : fieldAt m (a + 8) 4 = hashAlgCount := hcount
  have hsize : fieldAt m (a + 62) 4 = eventSize := hsize
  have hpcr : fieldAt m a 4 = pcr := fieldAt_holds hpcr (by omega)
  have hty : fieldAt m (a + 4) 4 = eventType := fieldAt_holds hty (by omega)
  have hlen : a + 62 + 4 + eventSize = a + (66 + eventSize) := by omega
  unfold event2Print
  simp only [hcount, hdigests, hsize, hpcr, hty, hlen, Nat.add_sub_cancel_left]
  exact ⟨_, rfl, rfl, rfl, rfl⟩

theorem event2Print_locality {m : Mem} {a size : Nat} (h : m.Holds a localityBytes)
    (h1 : 83 ≤ size) (h2 : size < 2 ^ 64) :
    ∃ p, event2Print m a size = some p ∧ p.out = localityPrinted ∧ p.logAddr = a + 83 ∧
      p.logSize = size - 83 := by
  rw [localityBytes_eq, Mem.holds_append, length_eventPrefix (by simp)] at h
  obtain ⟨hpre, hdata⟩ := h
  obtain ⟨p, hp, hout, haddr, hsize⟩ := @event2Print_prefixed m a size _ _ _ _ hpre (by simp)
    (by omega) (by omega) (by omega)
  refine ⟨p, hp, ?_, haddr, by rw [hsize]; exact sizeSub_eq h1 h2⟩
  obtain ⟨hsig, hloc⟩ := Mem.holds_append.mp hdata
  have hloc : m (a + 66 + 16) = 0 := (Mem.holds_cons.mp hloc).1
  have hcmp := (strcmpAt_iff tcgStartupLocalitySignature.noNul).mpr hsig
  have hstr := stringAt_holds hsig (by decide)
  have hcmp : (strcmpAt m (a + 66) tcgStartupLocalitySignature.bytes).1 = true := hcmp
  have htext : eventTextPrint m (a + 66) 17 =
      (.locality tcgStartupLocalitySignature.chars 0,
        [(a + 66, (strcmpAt m (a + 66) tcgStartupLocalitySignature.bytes).2),
          stringRead m (a + 66), (a + 66 + 16, 1)]) := by
    unfold eventTextPrint startupLocalityEventSize
    simp only [hcmp, hstr, hloc, if_true, UInt8.toNat_zero]
  rw [hout, htext, localityPrinted]

namespace Event

/-- An event as printed, with the text `%s` shows for it. -/
def printed (e : Event) (text : List UInt8) : Event2 :=
  ⟨e.pcr.toNat, e.eventType.toNat, [(tpmAlgId, e.digest.toList)], e.nameLen.toNat, .text text⟩

/-- The characters of the name; `NULL` has none. -/
def nameChars (e : Event) : List UInt8 :=
  match e.name with
  | some s => s.chars
  | none => []

/-- Every field comes back, and the text of a name whose length fits the 32-bit size. -/
def ReadBack (e : Event) (p : Event2) : Prop :=
  ∃ text, p = e.printed text ∧
    ∀ s, e.name = some s → s.chars.length + 1 < 2 ^ 32 → text = s.chars

theorem nameLen_of_lt {e : Event} {s : CStr} (h : e.name = some s)
    (hs : s.chars.length + 1 < 2 ^ 32) : e.nameLen.toNat = s.chars.length + 1 := by
  simp only [nameLen, h, UInt32.toNat_add, UInt32.toNat_ofNat', UInt32.toNat_one]
  omega

theorem nameBytes_of_lt {e : Event} {s : CStr} (h : e.name = some s)
    (hs : s.chars.length + 1 < 2 ^ 32) : e.nameBytes = s.bytes := by
  simp only [nameBytes, h]
  exact List.take_of_length_le (by rw [nameLen_of_lt h hs, CStr.length_bytes])

/-- A name of 17 bytes is not the locality signature, which ends after 16. -/
theorem not_locality {e : Event} {m : Mem} {a : Nat} (h : m.Holds a e.nameBytes)
    (hlen : e.nameLen.toNat = startupLocalityEventSize) :
    (strcmpAt m a tcgStartupLocalitySignature.bytes).1 ≠ true := by
  intro hcmp
  have hsig := (strcmpAt_iff tcgStartupLocalitySignature.noNul).mp hcmp
  have h0 : m (a + 15) = 0 := hsig.get (by decide)
  cases hname : e.name with
  | none => simp [nameLen, hname, startupLocalityEventSize] at hlen
  | some s =>
    have hle := e.nameLen_le hname
    rw [hlen, startupLocalityEventSize] at hle
    have hlt : 15 < s.chars.length := by omega
    have hget : e.nameBytes[15]? = some s.chars[15] := by
      simp only [nameBytes, hname, hlen, startupLocalityEventSize, CStr.bytes]
      rw [List.getElem?_take_of_lt (by omega), List.getElem?_append_left hlt,
        List.getElem?_eq_getElem hlt]
    have hmem : s.chars[15] ∈ s.chars := List.getElem_mem hlt
    rw [← h.get hget, h0] at hmem
    exact s.noNul hmem

theorem eventTextPrint_name {e : Event} {m : Mem} {a : Nat} (h : m.Holds a e.nameBytes) :
    ∃ text, (eventTextPrint m a e.nameLen.toNat).1 = .text text ∧
      ∀ s, e.name = some s → s.chars.length + 1 < 2 ^ 32 → text = s.chars := by
  refine ⟨stringAt m a, ?_, ?_⟩
  · unfold eventTextPrint
    by_cases hlen : e.nameLen.toNat = startupLocalityEventSize
    · have := not_locality h hlen
      simp only [hlen, this, if_true]
      rfl
    · rw [if_neg hlen]
  · intro s hs hlt
    rw [nameBytes_of_lt hs hlt] at h
    exact stringAt_holds h (by omega)

/-- **One recorded event is read back** and the cursor moves behind it. -/
theorem event2Print_bytes {e : Event} {m : Mem} {a size : Nat} (h : m.Holds a e.bytes)
    (h1 : e.bytes.length ≤ size) (h2 : size < 2 ^ 64) :
    ∃ p, event2Print m a size = some p ∧ e.ReadBack p.out ∧ p.logAddr = a + e.bytes.length ∧
      p.logSize = size - e.bytes.length := by
  rw [length_bytes] at h1 ⊢
  rw [bytes_eq, Mem.holds_append, length_eventPrefix (by simp)] at h
  obtain ⟨hpre, hname⟩ := h
  obtain ⟨p, hp, hout, haddr, hsize⟩ := @event2Print_prefixed m a size _ _ _ _ hpre (by simp)
    e.pcr.toNat_lt e.eventType.toNat_lt e.nameLen.toNat_lt
  obtain ⟨text, htext, hback⟩ := eventTextPrint_name hname
  refine ⟨p, hp, ⟨text, ?_, hback⟩, haddr, by rw [hsize]; exact sizeSub_eq h1 h2⟩
  rw [hout, htext]
  rfl

end Event

/-! ## The whole log -/

theorem event2Loop_some {m : Mem} {fuel a size : Nat} {p : Printed Event2} (h0 : size ≠ 0)
    (hp : event2Print m a size = some p) :
    event2Loop m (fuel + 1) a size =
      (p :: (event2Loop m fuel p.logAddr p.logSize).1, (event2Loop m fuel p.logAddr p.logSize).2) := by
  rw [event2Loop.eq_def]
  simp only [h0, if_false, hp]

/-- The loop over a run of recorded events ends with the size 0, behind the last of them. -/
theorem event2Loop_events {m : Mem} {a fuel : Nat} {es : List Event}
    (h : m.Holds a (eventsBytes es)) (hs : (eventsBytes es).length < 2 ^ 64)
    (hf : es.length ≤ fuel) :
    ∃ ps, event2Loop m fuel a (eventsBytes es).length = (ps, .done) ∧
      List.Forall₂ Event.ReadBack es (ps.map (·.out)) ∧
      (ps.map (·.logAddr)).getLast?.getD a = a + (eventsBytes es).length ∧
      (ps.map (·.logSize)).getLast?.getD (eventsBytes es).length = 0 := by
  induction es generalizing a fuel with
  | nil =>
    refine ⟨[], ?_, .nil, rfl, rfl⟩
    cases fuel <;> rfl
  | cons e es ih =>
    obtain ⟨fuel, rfl⟩ : ∃ k, fuel = k + 1 := ⟨fuel - 1, by simp at hf; omega⟩
    have hcons : eventsBytes (e :: es) = e.bytes ++ eventsBytes es := rfl
    rw [hcons, List.length_append] at hs
    rw [hcons, Mem.holds_append] at h
    have hpos := e.length_bytes
    obtain ⟨p, hp, hback, haddr, hsize⟩ := Event.event2Print_bytes h.1
      (Nat.le_add_right e.bytes.length (eventsBytes es).length) hs
    rw [Nat.add_sub_cancel_left] at hsize
    obtain ⟨ps, hps, hbacks, hlast, hleft⟩ := ih h.2 (by omega) (Nat.le_of_succ_le_succ hf)
    refine ⟨p :: ps, ?_, ?_, ?_, ?_⟩
    · rw [hcons, List.length_append, event2Loop_some (by omega) hp, haddr, hsize, hps]
    · exact .cons hback hbacks
    · rw [List.map_cons, List.getLast?_cons, Option.getD_some, haddr, hlast, hcons,
        List.length_append, Nat.add_assoc]
    · rw [List.map_cons, List.getLast?_cons, Option.getD_some, hsize, hleft]

/-- `event_log_write_header`, then `event_log_record` for each event. -/
def writeLog (m : Mem) (start : Nat) (es : List Event) : Mem × Nat :=
  let (m, ptr) := eventLogWriteHeader m start
  eventLogRecords m ptr es

theorem writeLog_eq (m : Mem) (start : Nat) (es : List Event) :
    writeLog m start es = (m.store start (headerBytes ++ eventsBytes es),
      start + (headerBytes ++ eventsBytes es).length) := by
  rw [writeLog, eventLogWriteHeader_eq]
  simp only
  rw [eventLogRecords_eq, Mem.store_append (by rw [length_headerBytes]), List.length_append,
    length_headerBytes, Nat.add_assoc]

/-- The print visits the two header events and then `es`, each printed as `P` says, and ends with
the size 0 at `ptr`. -/
structure ReadBackLog (P : Event → Event2 → Prop) (es : List Event) (ptr : Nat) (run : PrintRun) :
    Prop where
  stop : run.stop = .done
  idEvent : run.idEvent.out = specIdPrinted
  events : ∃ ps, run.events.map (·.out) = localityPrinted :: ps ∧ List.Forall₂ P es ps
  cursor : run.cursor = ptr
  left : run.left = 0

theorem eventLogPrint_holds {m : Mem} {start fuel : Nat} {es : List Event}
    (h : m.Holds start (headerBytes ++ eventsBytes es))
    (hs : (headerBytes ++ eventsBytes es).length < 2 ^ 64) (hf : es.length < fuel) :
    ReadBackLog Event.ReadBack es (start + (headerBytes ++ eventsBytes es).length)
      (eventLogPrint m fuel start (headerBytes ++ eventsBytes es).length) := by
  obtain ⟨fuel, rfl⟩ : ∃ k, fuel = k + 1 := ⟨fuel - 1, by omega⟩
  have hlen : (headerBytes ++ eventsBytes es).length = 93 + (83 + (eventsBytes es).length) := by
    rw [List.length_append, length_headerBytes]
    omega
  rw [Mem.holds_append, headerBytes, Mem.holds_append, ← headerBytes, length_headerBytes,
    length_specIdBytes] at h
  obtain ⟨⟨hspec, hloc⟩, hev⟩ := h
  rw [hlen] at hs ⊢
  obtain ⟨hid, haddr, hsize⟩ := idEventPrint_holds hspec (Nat.le_add_right 93 _) hs
  rw [Nat.add_sub_cancel_left] at hsize
  obtain ⟨l, hl, hlout, hladdr, hlsize⟩ := event2Print_locality hloc
    (Nat.le_add_right 83 (eventsBytes es).length) (by omega)
  rw [Nat.add_sub_cancel_left] at hlsize
  rw [show start + 176 = start + 93 + 83 by omega] at hev
  obtain ⟨ps, hps, hbacks, hlast, hleft⟩ := @event2Loop_events _ _ fuel _ hev (by omega) (by omega)
  have hrun : eventLogPrint m (fuel + 1) start (93 + (83 + (eventsBytes es).length)) =
      ⟨idEventPrint m start (93 + (83 + (eventsBytes es).length)), l :: ps, .done⟩ := by
    have hloop := @event2Loop_some _ fuel _ _ _ (by omega) hl
    unfold eventLogPrint
    simp only [haddr, hsize, hloop, hladdr, hlsize, hps]
  rw [hrun]
  refine ⟨rfl, hid, ⟨ps.map (·.out), by rw [List.map_cons, hlout], hbacks⟩, ?_, ?_⟩
  · simp only [PrintRun.cursor, List.map_cons, List.getLast?_cons, Option.getD_some, hladdr, hlast]
    omega
  · simp only [PrintRun.left, List.map_cons, List.getLast?_cons, Option.getD_some, hlsize, hleft]

/-- **Round trip.** The log of any events is printed back in order and to its end: every field,
the event size as written, and every name of less than `2 ^ 32 - 1` characters. -/
theorem eventLogPrint_writeLog (m : Mem) (start fuel : Nat) (es : List Event)
    (hs : (writeLog m start es).2 - start < 2 ^ 64) (hf : es.length < fuel) :
    ReadBackLog Event.ReadBack es (writeLog m start es).2
      (eventLogPrint (writeLog m start es).1 fuel start ((writeLog m start es).2 - start)) := by
  rw [writeLog_eq] at hs ⊢
  simp only [Nat.add_sub_cancel_left] at hs ⊢
  exact eventLogPrint_holds (Mem.holds_store ..) hs hf

/-- One event without a name and one behind it whose PCR field spells a text. -/
def unnamedThenNamed : List Event :=
  [⟨9, evPostCode, zeroDigest, none⟩, ⟨0x41414141, evPostCode, zeroDigest, none⟩]

theorem writeLog_unnamedThenNamed : (writeLog (fun _ => 0) 0 unnamedThenNamed).2 - 0 < 2 ^ 64 := by
  rw [writeLog_eq, List.length_append, length_headerBytes]
  simp [eventsBytes, unnamedThenNamed, Event.length_bytes, Event.nameLen]

theorem eventLogPrint_writeLog_unnamedThenNamed :
    ReadBackLog Event.ReadBack unnamedThenNamed (writeLog (fun _ => 0) 0 unnamedThenNamed).2
      (eventLogPrint (writeLog (fun _ => 0) 0 unnamedThenNamed).1 3 0
        ((writeLog (fun _ => 0) 0 unnamedThenNamed).2 - 0)) :=
  eventLogPrint_writeLog (fun _ => 0) 0 3 unnamedThenNamed writeLog_unnamedThenNamed (by decide)

/-- The text printed for an event without a name is not empty but the start of the next event. -/
theorem not_eventLogPrint_names :
    ¬ ∀ (m : Mem) (start fuel : Nat) (es : List Event),
      (writeLog m start es).2 - start < 2 ^ 64 → es.length < fuel →
      ReadBackLog (fun e p => p = e.printed e.nameChars) es (writeLog m start es).2
        (eventLogPrint (writeLog m start es).1 fuel start ((writeLog m start es).2 - start)) := by
  intro h
  have h := (h (fun _ => 0) 0 3 unnamedThenNamed writeLog_unnamedThenNamed (by decide)).events
  obtain ⟨ps, hps, hall⟩ := h
  rw [unnamedThenNamed, List.forall₂_cons_left_iff] at hall
  obtain ⟨p, qs, hp, -, rfl⟩ := hall
  have hget := congrArg (fun l => (l[1]?).map (·.event)) hps
  simp only [List.getElem?_cons_succ, List.getElem?_cons_zero, Option.map_some, hp] at hget
  revert hget
  decide +kernel

end MeasuredBoot
