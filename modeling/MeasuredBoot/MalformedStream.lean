import MeasuredBoot.BitstreamLoop
import MeasuredBoot.Lib.Footprint

/-!
# Encrypted bitstreams of any chunks (`XFsbl_DecrptPlChunks`)

The processor takes a header's length off a chunk without a look at what is left of it, at three
places: at the first chunk, behind data that ended with the chunk before, and where a header was cut.
`Ready` is what the loop of `XFsbl_DecrptPl` needs of a state and a rest of the chunk, and each pass keeps
it; `ChunkFits` is what a chunk needs of the state it meets. `chunksContained`: chunks that fit are
processed inside the chunk buffer and `SecureHdr`, without a size that wraps, and to the end.
-/

namespace MeasuredBoot.PlDecrypt

open Prog
open MeasuredBoot.Stream (xilHtonl secureHdrSize secureGcmTagSize)

/-! ## Inside the buffers -/

/-- An access of a chunk of `n` bytes: reads inside the chunk or `SecureHdr`, writes inside `SecureHdr`,
and a size that stays one. -/
def Access.Inside (cfg : PlConfig) (n : Nat) : Access → Prop
  | .read addr len => len = 0 ∨ (cfg.chunkBuffer ≤ addr ∧ addr + len ≤ cfg.chunkBuffer + n) ∨
      (cfg.secureHdr ≤ addr ∧ addr + len ≤ cfg.secureHdr + 64)
  | .carry offset len => offset + len ≤ 64
  | .minus a b => b ≤ a

/-- The run ends, with every access inside. -/
abbrev Contained {α : Type} (cfg : PlConfig) (n : Nat) (c : Pl α) (s : PlState)
    (Q : α → PlState → Prop) : Prop :=
  Safe PlState.accesses (Access.Inside cfg n) (· ≠ .hang) c s Q

/-- Every chunk up to the first that fails is contained. -/
def ChunksContained (cfg : PlConfig) : List (List UInt8) → PlState → Prop
  | [], _ => True
  | c :: cs, s => Contained cfg c.length (feedChunk cfg c) s fun _ t => ChunksContained cfg cs t

/-! ## Chunks that fit -/

section Fits

variable (cfg : PlConfig) (s : PlState)

/-- The header is decrypted and names no next block. -/
def EndsStream (hdr : List UInt8) : Prop :=
  cfg.engine.gcmTagOk (items s.transfers ++ headerItems hdr) = true ∧
    cfg.engine.nextBlkLen (items s.transfers ++ headerItems hdr) = 0

/-- The header is decrypted and names one. -/
def Continues (hdr : List UInt8) : Prop :=
  cfg.engine.gcmTagOk (items s.transfers ++ headerItems hdr) = true ∧
    cfg.engine.nextBlkLen (items s.transfers ++ headerItems hdr) ≠ 0

/-- What `XFsbl_DecrptPlChunks` puts together in `SecureHdr`. -/
def carriedHeader : List UInt8 :=
  (s.secureHdr.store s.hdr.toNat
    (cfg.copyData (s.chunk.load cfg.chunkBuffer (64 - s.hdr.toNat)) cfg.chunkBuffer)).load 0 64

/-- A chunk of `n` bytes, in the chunk buffer. The first has a whole header, and behind one that ends
the stream there is nothing or another; a chunk behind a cut header has its rest, in words where
data follows; one that starts with a header has all of it; and data that ends within a chunk, with a
whole header behind, ends on a word. -/
def ChunkFits (n : UInt32) : Prop :=
  n / 4 ≤ xcsudmaSizeMax ∧
    if s.nextBlkLen = 0 then
      64 ≤ n.toNat ∧ (EndsStream cfg s (s.chunk.load cfg.chunkBuffer 64) → n.toNat = 64 ∨ 128 ≤ n.toNat)
    else if s.hdr ≠ 0 then
      64 ≤ s.hdr.toNat + n.toNat ∧
        (Continues cfg s (carriedHeader cfg s) → s.hdr.toNat + n.toNat = 64 ∨ s.hdr.toNat % 4 = 0)
    else if s.sizeofData = 0 then 64 ≤ n.toNat
    else s.sizeofData.toNat + 64 ≤ n.toNat → s.sizeofData.toNat % 4 = 0

/-- Every chunk fits the state it meets. -/
def ChunksFit : List (List UInt8) → PlState → Prop
  | [], _ => True
  | c :: cs, s => ChunkFits cfg (s.receive cfg c) (.ofNat c.length) ∧
      ∀ t, feedChunk cfg c s = .ok () t → ChunksFit cs t

end Fits

/-! ## The loop -/

section Loop

variable {cfg : PlConfig} {s t : PlState} {n src : Nat} {size : UInt32} {hdr : List UInt8}

theorem div_le_max {a b : UInt32} (h : a.toNat ≤ b.toNat) (hb : b / 4 ≤ xcsudmaSizeMax) :
    a / 4 ≤ xcsudmaSizeMax := by
  rw [UInt32.le_iff_toNat_le, UInt32.toNat_div, show (4 : UInt32).toNat = 4 from rfl] at hb ⊢
  omega

theorem dmaPlCopy_contained {tr : Transfer} (hsrc : src % 4 = 0) (hsize : size ≤ xcsudmaSizeMax)
    (hin : (Access.read src (size.toNat * 4)).Inside cfg n) :
    Contained cfg n (dmaPlCopy src size tr) s fun _ t =>
      t = { s.note [.read src (size.toNat * 4)] with transfers := s.transfers ++ [tr] } := by
  unfold Contained Safe
  rw [dmaPlCopy_run hsrc hsize]
  exact ⟨⟨_, rfl, by simpa using hin⟩, rfl⟩

/-- A header of which all 64 bytes are in one of the buffers. -/
theorem decrypSecureHdr_contained (hsrc : src % 4 = 0)
    (hin : (cfg.chunkBuffer ≤ src ∧ src + 64 ≤ cfg.chunkBuffer + n) ∨ src = cfg.secureHdr) :
    Contained cfg n (decrypSecureHdr cfg src hdr) s fun _ t =>
      t = s.sendHeader src hdr ∧ cfg.engine.gcmTagOk (items s.transfers ++ headerItems hdr) = true := by
  have hlogs : Logs PlState.accesses (Access.Inside cfg n) s (s.sendHeader src hdr) := by
    refine ⟨[.read src secureHdrSize, .read (src + secureHdrSize) secureGcmTagSize],
      List.append_assoc _ _ _, fun a ha => ?_⟩
    have hlen : secureHdrSize = 48 ∧ secureGcmTagSize = 16 := ⟨rfl, rfl⟩
    rcases List.mem_pair.1 ha with rfl | rfl
    · show _ = 0 ∨ _ ∨ _
      omega
    · show _ = 0 ∨ _ ∨ _
      omega
  unfold Contained Safe
  rw [decrypSecureHdr_eq hsrc]
  by_cases hok : cfg.engine.gcmTagOk (items s.transfers ++ headerItems hdr) = true
  · rw [if_pos hok]
    exact ⟨hlogs, rfl, hok⟩
  · rw [if_neg hok]
    exact ⟨hlogs, by simp⟩

variable (cfg n) in
/-- The loop at `size` bytes from `src` on, the rest of the chunk. -/
structure Ready (s : PlState) (src : Nat) (size : UInt32) : Prop where
  hdr : s.hdr.toNat < 64
  start : cfg.chunkBuffer ≤ src
  stop : src + size.toNat = cfg.chunkBuffer + n
  aligned : src % 4 = 0
  words : size / 4 ≤ xcsudmaSizeMax
  header : s.sizeofData = 0 → size = 0 ∨ 64 ≤ size.toNat
  data : s.sizeofData.toNat + 64 ≤ size.toNat → s.sizeofData.toNat % 4 = 0

variable (cfg n) in
/-- Behind the data: nothing is left, or a whole header. -/
structure AtHeader (s : PlState) (src : Nat) (size : UInt32) : Prop where
  hdr : s.hdr.toNat < 64
  sizeofData : s.sizeofData = 0
  start : cfg.chunkBuffer ≤ src
  stop : src + size.toNat = cfg.chunkBuffer + n
  aligned : src % 4 = 0
  words : size / 4 ≤ xcsudmaSizeMax
  whole : 64 ≤ size.toNat

theorem words_le (size : UInt32) : (size / 4).toNat * 4 ≤ size.toNat := by
  rw [UInt32.toNat_div, show (4 : UInt32).toNat = 4 from rfl]
  omega

theorem Ready.read (h : Ready cfg n s src size) {m : UInt32} (hm : m.toNat ≤ size.toNat) :
    (Access.read src ((m / 4).toNat * 4)).Inside cfg n := by
  have hle := words_le m
  have hstart := h.start
  have hstop := h.stop
  show _ = 0 ∨ _ ∨ _
  omega

/-- The data of a block, up to its end or the chunk's. -/
theorem decrptData_contained (h : Ready cfg n s src size) :
    Contained cfg n (decrptData cfg src size) s fun r t =>
      t.hdr.toNat < 64 ∧ (r.2 = 0 ∨ AtHeader cfg n t r.1 r.2 ∧ r.2.toNat ≤ size.toNat) := by
  have hstart := h.start
  have hstop := h.stop
  unfold decrptData
  refine safe_bind (safe_get (Q := fun a t => s = a ∧ s = t) ⟨rfl, rfl⟩) ?_
  rintro _ _ ⟨rfl, rfl⟩
  refine safe_ite (fun hwithin => ?_) fun hnot => safe_ite (fun hdata => ?_) fun hzero => ?_
  · have hle : size.toNat ≤ s.sizeofData.toNat := hwithin.1
    refine safe_bind (dmaPlCopy_contained h.aligned h.words (h.read (Nat.le_refl _))) ?_
    rintro _ _ rfl
    refine safe_bind (safe_modify rfl ?_ (Q := fun _ t => t.hdr = s.hdr) rfl) ?_
    · intro a ha
      obtain rfl := List.mem_singleton.1 ha
      exact hwithin.1
    · intro _ t ht
      refine safe_pure ⟨?_, .inl rfl⟩
      rw [ht]
      exact h.hdr
  · have hlt : s.sizeofData.toNat < size.toNat := by
      by_contra hge
      exact hnot ⟨Nat.le_of_not_lt hge, hdata⟩
    have hsub : (size - s.sizeofData).toNat = size.toNat - s.sizeofData.toNat :=
      UInt32.toNat_sub_of_le _ _ (Nat.le_of_lt hlt)
    refine safe_bind (dmaPlCopy_contained h.aligned (div_le_max (Nat.le_of_lt hlt) h.words)
      (h.read (Nat.le_of_lt hlt))) ?_
    rintro _ _ rfl
    refine safe_bind (safe_modify rfl ?_ (Q := fun _ t => t.hdr = s.hdr ∧ t.sizeofData = 0) ⟨rfl, rfl⟩) ?_
    · intro a ha
      obtain rfl := List.mem_singleton.1 ha
      exact Nat.le_of_lt hlt
    rintro _ t ⟨hhdr, hzero⟩
    refine safe_ite (fun hsmall => ?_) fun hlarge => ?_
    · -- the chunk cuts the header
      have hcut : (size - s.sizeofData).toNat < 64 := hsmall
      refine safe_bind (safe_modify rfl ?_
        (Q := fun _ t => t.hdr = (size - s.sizeofData).toUInt8) rfl) ?_
      · intro a ha
        rcases List.mem_pair.1 ha with rfl | rfl
        · show _ = 0 ∨ _ ∨ _
          omega
        · show 0 + _ ≤ 64
          omega
      · intro _ u hu
        refine safe_pure ⟨?_, .inl rfl⟩
        rw [hu, UInt32.toNat_toUInt8]
        omega
    · have hwhole : 64 ≤ (size - s.sizeofData).toNat := Nat.le_of_not_lt hlarge
      have haligned := h.aligned
      have hword := h.data (by omega)
      have hless : (size - s.sizeofData).toNat ≤ size.toNat := by omega
      refine safe_pure ⟨by rw [hhdr]; exact h.hdr, .inr ⟨⟨by rw [hhdr]; exact h.hdr, hzero, ?_, ?_, ?_,
        div_le_max hless h.words, hwhole⟩, hless⟩⟩
      · show _ ≤ src + s.sizeofData.toNat
        omega
      · show src + s.sizeofData.toNat + (size - s.sizeofData).toNat = _
        omega
      · show (src + s.sizeofData.toNat) % 4 = 0
        omega
  · have hzero := not_not.1 hzero
    rcases h.header hzero with rfl | hwhole
    · exact safe_pure ⟨h.hdr, .inl rfl⟩
    · exact safe_pure ⟨h.hdr, .inr ⟨⟨h.hdr, hzero, hstart, hstop, h.aligned, h.words, hwhole⟩,
        Nat.le_refl _⟩⟩

/-- A header: the next pass is ready behind it. -/
theorem decrptHeader_contained {nextBlkAddr : Nat} (h : AtHeader cfg n s src size) :
    Contained cfg n (decrptHeader cfg src size nextBlkAddr) s fun r t =>
      t.hdr.toNat < 64 ∧ ∀ x ∈ r, Ready cfg n t x.1 x.2.1 ∧ x.2.1.toNat < size.toNat := by
  have hstart := h.start
  have hstop := h.stop
  have haligned := h.aligned
  have hwhole := h.whole
  have hle : xfsblAesTagSize ≤ size := hwhole
  have hsub : (size - xfsblAesTagSize).toNat = size.toNat - 64 := UInt32.toNat_sub_of_le _ _ hle
  unfold decrptHeader
  refine safe_bind (safe_get (Q := fun a t => s = a ∧ s = t) ⟨rfl, rfl⟩) ?_
  rintro _ _ ⟨rfl, rfl⟩
  refine safe_bind (decrypSecureHdr_contained haligned (.inl ⟨hstart, by omega⟩)) ?_
  rintro _ t ⟨rfl, -⟩
  refine safe_bind (safe_modify rfl ?_ (Q := fun _ t => t.hdr = s.hdr) rfl) ?_
  · intro a ha
    obtain rfl := List.mem_singleton.1 ha
    exact hle
  intro _ t ht
  refine safe_bind (safe_modify (List.append_nil _).symm (by simp)
    (Q := fun _ t => t.hdr = s.hdr ∧ t.sizeofData.toNat % 4 = 0) ⟨ht, nextBlkLen_words _ _⟩) ?_
  rintro _ t ⟨ht, hword⟩
  refine safe_bind (safe_get (Q := fun a u => t = a ∧ t = u) ⟨rfl, rfl⟩) ?_
  rintro _ _ ⟨rfl, rfl⟩
  have hhdr : t.hdr.toNat < 64 := by
    rw [ht]
    exact h.hdr
  refine safe_pure ⟨hhdr, fun x hx => ?_⟩
  rw [show xfsblAesTagSize.toNat = 64 from rfl, next_ite] at hx
  by_cases hnext : size - xfsblAesTagSize ≠ 0 ∧ t.sizeofData ≠ 0
  · rw [if_pos hnext] at hx
    obtain rfl := Option.some.inj hx
    refine ⟨⟨hhdr, ?_, ?_, ?_, div_le_max ?_ h.words, fun h0 => absurd h0 hnext.2, fun _ => hword⟩, ?_⟩
    · show _ ≤ src + 64
      omega
    · show src + 64 + (size - xfsblAesTagSize).toNat = _
      omega
    · show (src + 64) % 4 = 0
      omega
    · show (size - xfsblAesTagSize).toNat ≤ _
      omega
    · show (size - xfsblAesTagSize).toNat < _
      omega
  · rw [if_neg hnext] at hx
    cases hx

theorem decrptPlPass_contained {nextBlkAddr : Nat} (h : Ready cfg n s src size) :
    Contained cfg n (decrptPlPass cfg src size nextBlkAddr) s fun r t =>
      t.hdr.toNat < 64 ∧ ∀ x ∈ r, Ready cfg n t x.1 x.2.1 ∧ x.2.1.toNat < size.toNat := by
  have hstart := h.start
  have hstop := h.stop
  unfold decrptPlPass
  refine safe_bind (decrptData_contained h) ?_
  rintro ⟨a, l⟩ t ⟨hhdr, hl⟩
  dsimp only at hl ⊢
  refine safe_bind (safe_get (Q := fun b u => t = b ∧ t = u) ⟨rfl, rfl⟩) ?_
  rintro _ _ ⟨rfl, rfl⟩
  refine safe_ite (fun hgo => ?_) fun hend => ?_
  · rcases hl with rfl | ⟨hat, hle⟩
    · exact absurd rfl hgo.2
    · refine (decrptHeader_contained hat).mono fun r u hr => ⟨hr.1, fun x hx => ?_⟩
      obtain ⟨hready, hlt⟩ := hr.2 x hx
      exact ⟨hready, Nat.lt_of_lt_of_le hlt hle⟩
  · refine safe_pure ⟨hhdr, fun x hx => ?_⟩
    rcases hl with rfl | ⟨hat, -⟩
    · cases hx
    · have hpos : l ≠ 0 := by
        rintro rfl
        exact absurd hat.whole (by decide)
      exact absurd ⟨hat.sizeofData, hpos⟩ hend

theorem decrptPlLoop_contained {fuel nextBlkAddr : Nat} (h : Ready cfg n s src size)
    (hfuel : size.toNat < fuel) :
    Contained cfg n (decrptPlLoop cfg fuel src size nextBlkAddr) s fun _ t => t.hdr.toNat < 64 := by
  induction fuel generalizing s src size nextBlkAddr with
  | zero => omega
  | succ fuel ih =>
    unfold decrptPlLoop
    refine safe_bind (decrptPlPass_contained h) ?_
    rintro r t ⟨hhdr, hr⟩
    cases r with
    | none => exact safe_pure hhdr
    | some x =>
      obtain ⟨a, l, b⟩ := x
      obtain ⟨hready, hlt⟩ := hr (a, l, b) rfl
      exact ih hready (Nat.lt_of_lt_of_le hlt (Nat.le_of_lt_succ hfuel))

theorem decrptPl_contained (h : Ready cfg n s src size) :
    Contained cfg n (decrptPl cfg src size) s fun _ t => t.hdr.toNat < 64 :=
  decrptPlLoop_contained h size.toNat_lt

end Loop

/-! ## A chunk -/

section Chunk

variable {cfg : PlConfig} {s : PlState} {n : UInt32}

theorem decrptFirst_contained (hhdr : s.hdr.toNat < 64) (hwords : n / 4 ≤ xcsudmaSizeMax)
    (hwhole : 64 ≤ n.toNat)
    (hends : EndsStream cfg s (s.chunk.load cfg.chunkBuffer 64) → n.toNat = 64 ∨ 128 ≤ n.toNat) :
    Contained cfg n.toNat (decrptFirst cfg cfg.chunkBuffer n) s fun _ t => t.hdr.toNat < 64 := by
  have haligned := cfg.chunkBuffer_aligned
  have hle : xfsblAesTagSize ≤ n := hwhole
  have hsub : (n - xfsblAesTagSize).toNat = n.toNat - 64 := UInt32.toNat_sub_of_le _ _ hle
  let hdr := s.chunk.load cfg.chunkBuffer 64
  unfold decrptFirst
  refine safe_bind (safe_modify (List.append_nil _).symm (by simp)
    (Q := fun _ t => t = { s with sizeofData := .ofNat secureHdrSize }) rfl) ?_
  rintro _ _ rfl
  refine safe_bind (safe_get (Q := fun a t => { s with sizeofData := .ofNat secureHdrSize } = a ∧
    { s with sizeofData := .ofNat secureHdrSize } = t) ⟨rfl, rfl⟩) ?_
  rintro _ _ ⟨rfl, rfl⟩
  refine safe_bind (decrypSecureHdr_contained haligned (.inl ⟨Nat.le_refl _, by omega⟩)) ?_
  rintro _ t ⟨rfl, hok⟩
  refine safe_bind (safe_modify rfl ?_
    (Q := fun _ t => t.hdr = s.hdr ∧ items t.transfers = items s.transfers ++ headerItems hdr)
    ⟨rfl, items_sendHeader { s with sizeofData := .ofNat secureHdrSize } cfg.chunkBuffer hdr⟩) ?_
  · intro a ha
    obtain rfl := List.mem_singleton.1 ha
    exact hle
  rintro _ t ⟨ht, hitems⟩
  refine safe_bind (safe_modify (List.append_nil _).symm (by simp)
    (Q := fun _ u => u.hdr = s.hdr ∧
      u.sizeofData = cfg.engine.nextBlkLen (items s.transfers ++ headerItems hdr))
    ⟨ht, congrArg cfg.engine.nextBlkLen hitems⟩) ?_
  rintro _ u ⟨hu, hnext⟩
  refine decrptPl_contained ⟨by rw [hu]; exact hhdr, Nat.le_add_right _ _, ?_, ?_,
    div_le_max (by omega) hwords, fun h0 => ?_, fun _ => ?_⟩
  · show cfg.chunkBuffer + 64 + (n - xfsblAesTagSize).toNat = _
    omega
  · show (cfg.chunkBuffer + 64) % 4 = 0
    omega
  · rcases hends ⟨hok, hnext.symm.trans h0⟩ with h64 | h128
    · refine .inl (UInt32.toNat_inj.1 ?_)
      rw [hsub, h64]
      rfl
    · exact .inr (by omega)
  · rw [hnext]
    exact nextBlkLen_words _ _

/-- Behind the header that was put together. -/
theorem decrptBehind_contained {rest : UInt32} (hwords : n / 4 ≤ xcsudmaSizeMax)
    (hle : rest.toNat ≤ n.toNat)
    (hword : cfg.engine.nextBlkLen (items s.transfers) ≠ 0 → n.toNat = rest.toNat ∨ rest.toNat % 4 = 0) :
    Contained cfg n.toNat (decrptBehind cfg cfg.chunkBuffer n rest) s fun _ t => t.hdr.toNat < 64 := by
  have haligned := cfg.chunkBuffer_aligned
  have hsub : (n - rest).toNat = n.toNat - rest.toNat := UInt32.toNat_sub_of_le _ _ hle
  unfold decrptBehind
  refine safe_bind (safe_modify rfl ?_ (Q := fun _ t => t.transfers = s.transfers) rfl) ?_
  · intro a ha
    obtain rfl := List.mem_singleton.1 ha
    exact hle
  intro _ t ht
  refine safe_bind (safe_modify rfl ?_
    (Q := fun _ u => u.hdr = 0 ∧ u.transfers = s.transfers) ⟨rfl, ht⟩) ?_
  · intro a ha
    obtain rfl := List.mem_singleton.1 ha
    exact Nat.le_refl 64
  rintro _ u ⟨hu, htransfers⟩
  refine safe_bind (safe_modify (List.append_nil _).symm (by simp)
    (Q := fun _ v => v.hdr = 0 ∧ v.sizeofData = cfg.engine.nextBlkLen (items s.transfers))
    ⟨hu, congrArg (fun ts => cfg.engine.nextBlkLen (items ts)) htransfers⟩) ?_
  rintro _ v ⟨hv, hnext⟩
  refine safe_bind (safe_get (Q := fun a w => v = a ∧ v = w) ⟨rfl, rfl⟩) ?_
  rintro _ _ ⟨rfl, rfl⟩
  have hhdr : v.hdr.toNat < 64 := by
    rw [hv]
    decide
  refine safe_ite (fun hgo => ?_) fun _ => safe_pure hhdr
  obtain ⟨haddr, hdata⟩ := hgo
  have hrest : n - rest ≠ 0 := fun h0 => haddr (if_neg (not_not_intro h0))
  rw [if_pos hrest]
  have hword : rest.toNat % 4 = 0 := by
    refine (hword fun h0 => hdata (hnext.trans h0)).resolve_left fun heq => hrest ?_
    refine UInt32.toNat_inj.1 ?_
    rw [hsub, heq, Nat.sub_self]
    rfl
  refine decrptPl_contained ⟨hhdr, Nat.le_add_right _ _, by omega, by omega,
    div_le_max (by omega) hwords, fun h0 => absurd h0 hdata, fun _ => ?_⟩
  rw [hnext]
  exact nextBlkLen_words _ _

theorem decrptCut_contained (hhdr : s.hdr.toNat < 64) (hwords : n / 4 ≤ xcsudmaSizeMax)
    (hwhole : 64 ≤ s.hdr.toNat + n.toNat)
    (hcont : Continues cfg s (carriedHeader cfg s) →
      s.hdr.toNat + n.toNat = 64 ∨ s.hdr.toNat % 4 = 0) :
    Contained cfg n.toNat (decrptCut cfg cfg.chunkBuffer n) s fun _ t => t.hdr.toNat < 64 := by
  have hcarry : s.hdr.toUInt32.toNat = s.hdr.toNat := UInt8.toNat_toUInt32 _
  have hle : s.hdr.toUInt32 ≤ xfsblAesTagSize := by
    rw [UInt32.le_iff_toNat_le, hcarry]
    exact Nat.le_of_lt hhdr
  have hrest : (xfsblAesTagSize - s.hdr.toUInt32).toNat = 64 - s.hdr.toNat := by
    rw [UInt32.toNat_sub_of_le _ _ hle, hcarry]
    rfl
  unfold decrptCut
  refine safe_bind (safe_get (Q := fun a t => s = a ∧ s = t) ⟨rfl, rfl⟩) ?_
  rintro _ _ ⟨rfl, rfl⟩
  refine safe_bind (safe_modify rfl ?_ (Q := fun _ t => t.transfers = s.transfers ∧
    t.secureHdr.load 0 64 = carriedHeader cfg s) ⟨rfl, ?_⟩) ?_
  · intro a ha
    rw [hrest] at ha
    simp only [List.mem_cons, List.not_mem_nil, or_false] at ha
    rcases ha with rfl | rfl | rfl
    · exact hle
    · show _ = 0 ∨ _ ∨ _
      omega
    · show _ + _ ≤ 64
      omega
  · unfold carriedHeader
    dsimp only
    rw [hrest]
  rintro _ t ⟨ht, hload⟩
  refine safe_bind (safe_get (Q := fun a u => t = a ∧ t = u) ⟨rfl, rfl⟩) ?_
  rintro _ _ ⟨rfl, rfl⟩
  rw [show xfsblAesTagSize.toNat = 64 from rfl, hload]
  refine safe_bind (decrypSecureHdr_contained cfg.secureHdr_aligned (.inr rfl)) ?_
  rintro _ u ⟨rfl, hok⟩
  refine decrptBehind_contained hwords (by omega) fun hnext => ?_
  rw [items_sendHeader, ht] at hnext
  rw [ht] at hok
  rcases hcont ⟨hok, hnext⟩ with h64 | hword
  · exact .inl (by omega)
  · exact .inr (by omega)

/-- A chunk that fits. -/
theorem decrptPlChunks_contained (hhdr : s.hdr.toNat < 64) (hfit : ChunkFits cfg s n) :
    Contained cfg n.toNat (decrptPlChunks cfg cfg.chunkBuffer n) s fun _ t => t.hdr.toNat < 64 := by
  obtain ⟨hwords, hfit⟩ := hfit
  unfold decrptPlChunks
  refine safe_bind (safe_get (Q := fun a t => s = a ∧ s = t) ⟨rfl, rfl⟩) ?_
  rintro _ _ ⟨rfl, rfl⟩
  refine safe_ite (fun hfirst => ?_) fun hnext => safe_ite (fun hcut => ?_) fun hon => ?_
  · rw [if_pos hfirst] at hfit
    exact decrptFirst_contained hhdr hwords hfit.1 hfit.2
  · rw [if_neg hnext, if_pos hcut] at hfit
    exact decrptCut_contained hhdr hwords hfit.1 hfit.2
  · rw [if_neg hnext, if_neg hon] at hfit
    refine decrptPl_contained ⟨hhdr, Nat.le_refl _, rfl, cfg.chunkBuffer_aligned, hwords,
      fun h0 => ?_, fun hlong => ?_⟩
    · rw [if_pos h0] at hfit
      exact .inr hfit
    · by_cases h0 : s.sizeofData = 0
      · rw [h0]
        rfl
      · rw [if_neg h0] at hfit
        exact hfit hlong

end Chunk

/-! ## Runs -/

section Run

variable {cfg : PlConfig} {s : PlState} {cs : List (List UInt8)}

/-- **Chunks of any size, with any next-block lengths**: where each fits the state it meets, each is
processed inside the buffers and to the end. -/
theorem chunksContained (hstart : s.hdr = 0) (hlen : ∀ c ∈ cs, 0 < c.length ∧ c.length < 2 ^ 32)
    (hfit : ChunksFit cfg cs s) : ChunksContained cfg cs s := by
  have hhdr : s.hdr.toNat < 64 := by
    rw [hstart]
    decide
  clear hstart
  induction cs generalizing s with
  | nil => trivial
  | cons c cs ih =>
    rw [List.forall_mem_cons] at hlen
    have hsize : (UInt32.ofNat c.length).toNat = c.length := UInt32.toNat_ofNat_of_lt' hlen.1.2
    have hchunk := decrptPlChunks_contained (s := s.receive cfg c) hhdr hfit.1
    rw [hsize] at hchunk
    show Contained cfg c.length (feedChunk cfg c) s _
    have hfeed : Contained cfg c.length (feedChunk cfg c) s fun _ t => t.hdr.toNat < 64 := hchunk
    unfold Contained Safe at hfeed ⊢
    cases hrun : feedChunk cfg c s with
    | error e t =>
      rw [hrun] at hfeed
      exact hfeed
    | ok u t =>
      rw [hrun] at hfeed
      exact ⟨hfeed.1, ih hlen.2 (hfit.2 t hrun) hfeed.2⟩

end Run

/-! ### One chunk -/

theorem lastBlock_chunk_aligned : 0xFFFC0000 % 4 = 0 := rfl

theorem lastBlock_dest_aligned : 0xFFFE0000 % 4 = 0 := rfl

/-- An engine that names no next block. -/
def lastBlockConfig : PlConfig :=
  ⟨⟨fun _ => true, fun _ => 0⟩, none, 0xFFFC0000, 0xFFFE0000, lastBlock_chunk_aligned, lastBlock_dest_aligned⟩

def emptyState : PlState := ⟨0, 0, fun _ => 0, 0, fun _ => 0, [], []⟩

/-- A whole header. -/
theorem chunksContained_header :
    ChunksContained lastBlockConfig [List.replicate 64 0] emptyState := by
  refine chunksContained rfl ?_ ⟨⟨by decide, ⟨by decide, fun _ => .inl (by decide)⟩⟩, fun _ _ => trivial⟩
  intro c hc
  obtain rfl := List.mem_singleton.1 hc
  rw [List.length_replicate]
  decide

/-- Of a first chunk of a word a header's length is taken. -/
theorem not_chunksContained :
    ¬ ∀ (cfg : PlConfig) (cs : List (List UInt8)) (s : PlState), s.hdr = 0 →
      (∀ c ∈ cs, 0 < c.length ∧ c.length < 2 ^ 32) → ChunksContained cfg cs s := by
  intro hall
  let c : List UInt8 := [0, 0, 0, 0]
  have hcontained : Contained lastBlockConfig 4 (feedChunk lastBlockConfig c) emptyState _ :=
    hall lastBlockConfig [c] emptyState rfl (by simp [c])
  obtain ⟨as, has, hinside⟩ := hcontained.logs
  have hthird : (final (feedChunk lastBlockConfig c emptyState)).accesses[2]? = some (.minus 4 64) := by
    decide +kernel
  have hwraps := List.mem_of_getElem? hthird
  rw [has] at hwraps
  have hle : (64 : UInt32) ≤ 4 := hinside _ hwraps
  exact absurd hle (by decide)

end MeasuredBoot.PlDecrypt
