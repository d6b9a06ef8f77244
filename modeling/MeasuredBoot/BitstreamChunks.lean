import MeasuredBoot.BitstreamDigest

/-!
# Encrypted bitstreams in chunks (`xfsbl_plpartition_valid.c`)

`XFsbl_DecrptPlChunks` gets an encrypted bitstream in chunks and sends it to the AES engine: a secure
header and its tag, then blocks of data, each followed by the next secure header and tag. A header
that a chunk cuts is put together in `SecureHdr`: `XFsbl_CopyData` copies its two parts out of the
chunk buffer, through `DeviceCopy` where the system has no DDR, and `DeviceCopy` takes an offset on
the boot device. Behind the code: encrypted bitstreams, and the places of one at which a chunk may end.
-/

namespace MeasuredBoot.PlDecrypt

open Prog
open MeasuredBoot.Stream (xilHtonl secureHdrSize secureGcmTagSize)

/-! ## The AES engine -/

/-- A transfer of the source DMA to the AES engine, other than that of an IV. -/
inductive Transfer where
  | header (bytes : List UInt8)
  | tag (bytes : List UInt8)
  | data (bytes : List UInt8)

/-- What the engine takes: transfers of data one after the other are one run of bytes. -/
inductive Item where
  | header (bytes : List UInt8)
  | tag (bytes : List UInt8)
  | byte (b : UInt8)

def Transfer.items : Transfer → List Item
  | .header bytes => [.header bytes]
  | .tag bytes => [.tag bytes]
  | .data bytes => bytes.map .byte

def items (ts : List Transfer) : List Item := ts.flatMap Transfer.items

/-- The GCM tag check and the register `IV_3` depend on what the engine was sent. -/
structure AesEngine where
  gcmTagOk : List Item → Bool
  iv3 : List Item → UInt32

/-- The length of the next block. -/
def AesEngine.nextBlkLen (e : AesEngine) (past : List Item) : UInt32 := xilHtonl (e.iv3 past) * 4

/-! ## The chunks -/

/-- What a chunk's processing touches: `len` bytes at an address that a DMA reads, `len` bytes of `SecureHdr`
that are written, and the operands of what is taken off a size. -/
inductive Access where
  | read (addr len : Nat)
  | carry (offset len : Nat)
  | minus (a b : UInt32)
  deriving DecidableEq

/-- `deviceCopy` is the boot device behind `DeviceCopy`, where that is set; `chunkBuffer` and `secureHdr`
are the addresses of the two buffers. -/
structure PlConfig where
  engine : AesEngine
  deviceCopy : Option (UInt32 → UInt8)
  chunkBuffer : Nat
  secureHdr : Nat
  chunkBuffer_aligned : chunkBuffer % 4 = 0
  secureHdr_aligned : secureHdr % 4 = 0

/-- The fields of `XFsblPs_PlPartition` and its `XSecure_Aes`, the memory of the chunk buffer, what
was sent, and the accesses so far. -/
structure PlState where
  nextBlkLen : UInt32
  sizeofData : UInt32
  secureHdr : Mem
  hdr : UInt8
  chunk : Mem
  transfers : List Transfer
  accesses : List Access

/-- The state with more accesses. -/
def PlState.note (s : PlState) (as : List Access) : PlState := { s with accesses := s.accesses ++ as }

abbrev Pl := EStateM Halt PlState

/-- `XFSBL_AES_TAG_SIZE`. -/
def xfsblAesTagSize : UInt32 := 64

/-- `XFsbl_CopyData`: what arrives of `bytes`, which lie at `src`. The callers ignore its status. -/
def PlConfig.copyData (cfg : PlConfig) (bytes : List UInt8) (src : Nat) : List UInt8 :=
  match cfg.deviceCopy with
  | none => bytes
  | some device => (List.range bytes.length).map fun i => device (.ofNat src + .ofNat i)

/-- `XFsbl_DmaPlCopy` of `size` words, whose wait ends. -/
def dmaPlCopy (src : Nat) (size : UInt32) (t : Transfer) : Pl Unit :=
  if src % 4 = 0 ∧ size ≤ xcsudmaSizeMax then
    modify fun s => { s.note [.read src (size.toNat * 4)] with transfers := s.transfers ++ [t] }
  else throw .hang

section Config

variable (cfg : PlConfig)

/-- `XFsbl_DecrypSecureHdr` on the 64 bytes at `srcAddr`. -/
def decrypSecureHdr (srcAddr : Nat) (bytes : List UInt8) : Pl Unit := do
  dmaPlCopy srcAddr (.ofNat (secureHdrSize / 4)) (.header (bytes.take secureHdrSize))
  dmaPlCopy (srcAddr + secureHdrSize) (.ofNat (secureGcmTagSize / 4))
    (.tag (bytes.drop secureHdrSize))
  let s ← get
  if cfg.engine.gcmTagOk (items s.transfers) then pure ()
  else throw (.status xfsblErrorBitstreamGcmTagMismatch)

/-- `XFsbl_DecrptSetUpNextBlk`. -/
def decrptSetUpNextBlk : Pl Unit :=
  modify fun s =>
    { s with
      nextBlkLen := cfg.engine.nextBlkLen (items s.transfers)
      sizeofData := cfg.engine.nextBlkLen (items s.transfers) }

/-- The first part of the loop of `XFsbl_DecrptPl`: the data at `srcAddr`, of `size` bytes, up to the end
of the block, and the header behind it where the chunk cuts it. -/
def decrptData (srcAddr : Nat) (size : UInt32) : Pl (Nat × UInt32) := do
  let s ← get
  if size ≤ s.sizeofData ∧ s.sizeofData ≠ 0 then do
    dmaPlCopy srcAddr (size / 4) (.data (s.chunk.load srcAddr (size.toNat / 4 * 4)))
    modify fun s => { s.note [.minus s.sizeofData size] with sizeofData := s.sizeofData - size }
    pure (srcAddr, 0)
  else if s.sizeofData ≠ 0 then do
    dmaPlCopy srcAddr (s.sizeofData / 4)
      (.data (s.chunk.load srcAddr (s.sizeofData.toNat / 4 * 4)))
    modify fun t => { t.note [.minus size s.sizeofData] with sizeofData := 0 }
    let srcAddr := srcAddr + s.sizeofData.toNat
    let size := size - s.sizeofData
    if size < xfsblAesTagSize then do
      modify fun s =>
        { s.note [.read srcAddr size.toNat, .carry 0 size.toNat] with
          secureHdr := s.secureHdr.store 0
            (cfg.copyData (s.chunk.load srcAddr size.toNat) srcAddr)
          hdr := size.toUInt8 }
      pure (srcAddr, 0)
    else pure (srcAddr, size)
  else pure (srcAddr, size)

/-- The second part: a header at `srcAddr`. With bytes left of a block that is not empty, the next
pass takes them from `NextBlkAddr`. -/
def decrptHeader (srcAddr : Nat) (size : UInt32) (nextBlkAddr : Nat) :
    Pl (Option (Nat × UInt32 × Nat)) := do
  let s ← get
  decrypSecureHdr cfg srcAddr (s.chunk.load srcAddr xfsblAesTagSize.toNat)
  modify fun s => s.note [.minus size xfsblAesTagSize]
  let size := size - xfsblAesTagSize
  let nextBlkAddr := if size ≠ 0 then srcAddr + xfsblAesTagSize.toNat else nextBlkAddr
  decrptSetUpNextBlk cfg
  let s ← get
  pure (if nextBlkAddr ≠ 0 ∧ s.sizeofData ≠ 0 ∧ size ≠ 0 then some (nextBlkAddr, size, nextBlkAddr)
    else none)

/-- A pass of the loop: where the next one goes on. -/
def decrptPlPass (srcAddr : Nat) (size : UInt32) (nextBlkAddr : Nat) :
    Pl (Option (Nat × UInt32 × Nat)) := do
  let (srcAddr, size) ← decrptData cfg srcAddr size
  let s ← get
  if s.sizeofData = 0 ∧ size ≠ 0 then decrptHeader cfg srcAddr size nextBlkAddr
  else pure (if size ≠ 0 then some (srcAddr, size, nextBlkAddr) else none)

/-- The loop: behind the first pass each takes a header's length off `Size`. -/
def decrptPlLoop : Nat → Nat → UInt32 → Nat → Pl Unit
  | 0, _, _, _ => throw .hang
  | fuel + 1, srcAddr, size, nextBlkAddr => do
    let next ← decrptPlPass cfg srcAddr size nextBlkAddr
    match next with
    | some (srcAddr, size, nextBlkAddr) => decrptPlLoop fuel srcAddr size nextBlkAddr
    | none => pure ()

def decrptPl (chunkAdrs : Nat) (chunkSize : UInt32) : Pl Unit :=
  decrptPlLoop cfg (2 ^ 32) chunkAdrs chunkSize 0

/-- `XFsbl_DecrptPlChunks` on the first chunk. -/
def decrptFirst (chunkAdrs : Nat) (chunkSize : UInt32) : Pl Unit := do
  modify fun s => { s with sizeofData := .ofNat secureHdrSize }
  let s ← get
  decrypSecureHdr cfg chunkAdrs (s.chunk.load chunkAdrs xfsblAesTagSize.toNat)
  modify fun s => { s.note [.minus chunkSize xfsblAesTagSize] with sizeofData := 0 }
  decrptSetUpNextBlk cfg
  decrptPl cfg (chunkAdrs + xfsblAesTagSize.toNat) (chunkSize - xfsblAesTagSize)

/-- Behind the header that was put together, of which `rest` bytes are in this chunk. -/
def decrptBehind (srcAddr : Nat) (size rest : UInt32) : Pl Unit := do
  modify fun s => s.note [.minus size rest]
  let size := size - rest
  let nextBlkAddr := if size ≠ 0 then srcAddr + rest.toNat else 0
  modify fun s =>
    { s.note [.carry 0 xfsblAesTagSize.toNat] with
      hdr := 0
      secureHdr := s.secureHdr.store 0 (List.replicate xfsblAesTagSize.toNat 0) }
  decrptSetUpNextBlk cfg
  let s ← get
  if nextBlkAddr ≠ 0 ∧ s.sizeofData ≠ 0 then decrptPl cfg nextBlkAddr size else pure ()

/-- `XFsbl_DecrptPlChunks` on a chunk behind one that cut a header. -/
def decrptCut (srcAddr : Nat) (size : UInt32) : Pl Unit := do
  let s ← get
  let rest := xfsblAesTagSize - s.hdr.toUInt32
  let bytes := cfg.copyData (s.chunk.load srcAddr rest.toNat) srcAddr
  modify fun s =>
    { s.note [.minus xfsblAesTagSize s.hdr.toUInt32, .read srcAddr rest.toNat,
        .carry s.hdr.toNat rest.toNat] with
      secureHdr := s.secureHdr.store s.hdr.toNat bytes }
  let s ← get
  decrypSecureHdr cfg cfg.secureHdr (s.secureHdr.load 0 xfsblAesTagSize.toNat)
  decrptBehind cfg srcAddr size rest

def decrptPlChunks (chunkAdrs : Nat) (chunkSize : UInt32) : Pl Unit := do
  let s ← get
  if s.nextBlkLen = 0 then decrptFirst cfg chunkAdrs chunkSize
  else if s.hdr ≠ 0 then decrptCut cfg chunkAdrs chunkSize
  else decrptPl cfg chunkAdrs chunkSize

/-- A chunk through the chunk buffer. -/
def feedChunk (c : List UInt8) : Pl Unit := do
  modify fun s => { s with chunk := s.chunk.store cfg.chunkBuffer c }
  decrptPlChunks cfg cfg.chunkBuffer (.ofNat c.length)

/-- The chunk in the chunk buffer. -/
def PlState.receive (s : PlState) (cfg : PlConfig) (c : List UInt8) : PlState :=
  { s with chunk := s.chunk.store cfg.chunkBuffer c }

/-- Chunks one after another, up to the first that fails. -/
def feedChunks : List (List UInt8) → Pl Unit
  | [] => pure ()
  | c :: cs => do
    feedChunk cfg c
    feedChunks cs

end Config

/-! ## Encrypted bitstreams -/

/-- A block of data, and the secure header and tag behind it. -/
structure Block where
  data : List UInt8
  hdr : List UInt8

def headerItems (hdr : List UInt8) : List Item :=
  [.header (hdr.take secureHdrSize), .tag (hdr.drop secureHdrSize)]

def Block.bytes (b : Block) : List UInt8 := b.data ++ b.hdr

def Block.items (b : Block) : List Item := b.data.map .byte ++ headerItems b.hdr

def blockBytes (bs : List Block) : List UInt8 := bs.flatMap Block.bytes

def blockItems (bs : List Block) : List Item := bs.flatMap Block.items

structure EncStream where
  first : List UInt8
  blocks : List Block

def EncStream.bytes (s : EncStream) : List UInt8 := s.first ++ blockBytes s.blocks

/-- The blocks behind a header, up to that with next-block length 0; `past` is what the engine was sent
up to the header. -/
def Follows (e : AesEngine) : List Item → List Block → Prop
  | past, [] => e.gcmTagOk past = true ∧ e.nextBlkLen past = 0
  | past, b :: bs =>
    e.gcmTagOk past = true ∧ (e.nextBlkLen past).toNat = b.data.length ∧ b.data ≠ [] ∧
      b.data.length / 4 ≤ xcsudmaSizeMax.toNat ∧ b.hdr.length = 64 ∧ Follows e (past ++ b.items) bs

structure EncStream.WellFormed (e : AesEngine) (s : EncStream) : Prop where
  first : s.first.length = 64
  blocks : Follows e (headerItems s.first) s.blocks
  size : s.bytes.length < 2 ^ 32

/-- A cut of a stream into consecutive chunks. -/
structure Chunks (bytes : List UInt8) (chunks : List (List UInt8)) : Prop where
  flatten : chunks.flatten = bytes
  words : ∀ c ∈ chunks, c.length % 4 = 0
  size : ∀ c ∈ chunks.dropLast, 64 ≤ c.length

/-! ### Places of a stream -/

/-- A place behind the first header: before `rest` of a block, or behind `k` bytes of a header. -/
inductive Place where
  | data (rest hdr : List UInt8) (blocks : List Block)
  | header (k : Nat) (hdr : List UInt8) (blocks : List Block)
  | done

/-- The place behind `n` bytes of blocks. -/
def skip : List Block → Nat → Place
  | [], _ => .done
  | b :: bs, n =>
    if n < b.data.length then .data (b.data.drop n) b.hdr bs
    else if n < b.data.length + 64 then .header (n - b.data.length) b.hdr bs
    else skip bs (n - (b.data.length + 64))

/-- What is left of the stream. -/
def Place.bytes : Place → List UInt8
  | .data rest hdr bs => rest ++ hdr ++ blockBytes bs
  | .header k hdr bs => hdr.drop k ++ blockBytes bs
  | .done => []

/-- What is left to send: a cut header is sent once it is whole. -/
def Place.items : Place → List Item
  | .data rest hdr bs => rest.map .byte ++ headerItems hdr ++ blockItems bs
  | .header _ hdr bs => headerItems hdr ++ blockItems bs
  | .done => []

def Place.advance : Place → Nat → Place
  | .data rest hdr bs, n => skip (⟨rest, hdr⟩ :: bs) n
  | .header k hdr bs, n => if k + n < 64 then .header (k + n) hdr bs else skip bs (k + n - 64)
  | .done, _ => .done

theorem skip_cons (b : Block) (bs : List Block) (n : Nat) :
    skip (b :: bs) n =
      if n < b.data.length then .data (b.data.drop n) b.hdr bs
      else if n < b.data.length + 64 then .header (n - b.data.length) b.hdr bs
      else skip bs (n - (b.data.length + 64)) := rfl

theorem skip_advance (bs : List Block) (m n : Nat) : (skip bs m).advance n = skip bs (m + n) := by
  induction bs generalizing m with
  | nil => rfl
  | cons b bs ih =>
    rw [skip_cons, skip_cons]
    by_cases hdata : m < b.data.length
    · rw [if_pos hdata]
      show skip (⟨b.data.drop m, b.hdr⟩ :: bs) n = _
      rw [skip_cons, List.length_drop, List.drop_drop]
      by_cases h1 : m + n < b.data.length
      · rw [if_pos h1, if_pos (by omega)]
      · rw [if_neg h1, if_neg (by omega)]
        by_cases h2 : m + n < b.data.length + 64
        · rw [if_pos h2, if_pos (by omega), show n - (b.data.length - m) = m + n - b.data.length by omega]
        · rw [if_neg h2, if_neg (by omega),
            show n - (b.data.length - m + 64) = m + n - (b.data.length + 64) by omega]
    · rw [if_neg hdata, if_neg (show ¬ m + n < b.data.length by omega)]
      by_cases hhdr : m < b.data.length + 64
      · rw [if_pos hhdr]
        show (if m - b.data.length + n < 64 then _ else _) = _
        by_cases h2 : m + n < b.data.length + 64
        · rw [if_pos h2, if_pos (by omega), show m - b.data.length + n = m + n - b.data.length by omega]
        · rw [if_neg h2, if_neg (by omega),
            show m - b.data.length + n - 64 = m + n - (b.data.length + 64) by omega]
      · rw [if_neg hhdr, ih, if_neg (by omega),
          show m - (b.data.length + 64) + n = m + n - (b.data.length + 64) by omega]

theorem skip_zero_cons {b : Block} {bs : List Block} (h : b.data ≠ []) :
    skip (b :: bs) 0 = .data b.data b.hdr bs := by
  rw [skip_cons, if_pos (List.length_pos_iff.2 h), List.drop_zero]

theorem advance_advance (p : Place) (m n : Nat) : (p.advance m).advance n = p.advance (m + n) := by
  cases p with
  | data rest hdr bs => exact skip_advance _ _ _
  | done => rfl
  | header k hdr bs =>
    unfold Place.advance
    dsimp only
    by_cases hm : k + m < 64
    · rw [if_pos hm]
      dsimp only
      rw [Nat.add_assoc]
    · rw [if_neg hm, if_neg (show ¬ k + (m + n) < 64 by omega),
        show k + (m + n) - 64 = k + m - 64 + n by omega, ← skip_advance]
      rfl

theorem Follows.items_skip {e : AesEngine} {past : List Item} {bs : List Block}
    (h : Follows e past bs) : (skip bs 0).items = blockItems bs := by
  cases bs with
  | nil => rfl
  | cons b bs =>
    obtain ⟨-, -, hdata, -⟩ := h
    rw [skip_zero_cons hdata]
    rfl

theorem Follows.bytes_skip {e : AesEngine} {past : List Item} {bs : List Block}
    (h : Follows e past bs) : (skip bs 0).bytes = blockBytes bs := by
  cases bs with
  | nil => rfl
  | cons b bs =>
    obtain ⟨-, -, hdata, -⟩ := h
    rw [skip_zero_cons hdata]
    rfl

theorem Follows.tagOk {e : AesEngine} {past : List Item} {bs : List Block}
    (h : Follows e past bs) : e.gcmTagOk past = true := by
  cases bs with
  | nil => exact h.1
  | cons b bs => exact h.1

end MeasuredBoot.PlDecrypt
