import MeasuredBoot.Lib.Blocks
import MeasuredBoot.Lib.Bytes
import MeasuredBoot.Lib.Prog
import MeasuredBoot.Status
import Mathlib.Logic.Function.Basic

/-!
# The two passes over a bitstream block (`xfsbl_plpartition_valid.c`)

`XFsbl_PlSignVer` reads a block in chunks, hashes it, keeps the running digest behind each chunk and
checks the RSA signature. `XFsbl_ReAuthenticationBlock` reads the block again, compares the running
digest behind each chunk, and sends the chunk on. The memory may change between any two reads. The
SHA3 engine takes complete blocks of 104 bytes, so a running digest says nothing about the bytes
held back; the digest the second pass finishes with is compared with nothing.
`reAuthentication_iff`: what is sent is what was signed for the block lengths whose last bytes,
behind the last complete SHA3 block, are not sent.
-/

namespace MeasuredBoot.PlAuth

open Prog

/-! ## Outside the two passes -/

inductive Pass where
  | signVer
  | reAuthentication
  deriving DecidableEq

/-- `copyData` is a read of a pass; a pass reads no address twice. `running` is
`XSecure_Sha3_ReadHash` of the blocks taken, `sha3` what `XSecure_Sha3Finish` gives for a message. -/
structure AuthHw (D : Type) where
  copyData : Pass → UInt64 → Nat → UInt32 × Mem
  running : List UInt8 → D
  sha3 : List UInt8 → D
  sha3Initialize : UInt32
  sha3Finish : UInt32
  spkVer : UInt32
  /-- The certificate without its last signature. -/
  authCert : List UInt8
  rsaInitialize : UInt32
  rsaPublicEncrypt : UInt32
  rsaSignVerification : D → UInt32
  pcapWaitForDone : UInt32 → UInt32
  decrptPlChunks : UInt32 → List UInt8 → UInt32

/-- `HashsOfChunks`, what the first pass put into the digest, and what the second sent, each byte with
its position in the block. -/
structure AuthState (D : Type) where
  hashsOfChunks : Nat → D
  signed : List UInt8
  sent : List (UInt8 × Nat)

abbrev Auth (D : Type) := EStateM UInt32 (AuthState D)

/-- `READ_BUFFER_SIZE`, the `ChunkSize` of the partition. -/
def plChunkSize : UInt32 := 56 * 1024

/-- `HASH_BUFFER_SIZE / XFSBL_HASH_TYPE_SHA3`. -/
def noOfHashs : UInt32 := 7 * 1024 / 48

/-- What the SHA3 driver has taken and what it holds back. -/
abbrev Sha3 := Buffered UInt8 104

def sha3Start : Sha3 := .empty (by decide)

/-- `if (Status != XFSBL_SUCCESS) { Status = code; goto END; }`. -/
def ensure {σ : Type} (p : Prop) [Decidable p] (code : UInt32) : EStateM UInt32 σ Unit :=
  if p then pure () else throw code

section Hw

variable {D : Type} (hw : AuthHw D)

def copyData (pass : Pass) (srcAddr : UInt64) (size : UInt32) : Auth D (List UInt8) := do
  let r := hw.copyData pass srcAddr size.toNat
  ensure (r.1 = xfsblSuccess) r.1
  pure (r.2.load 0 size.toNat)

def chunkAddress (address : UInt64) (index : UInt32) : UInt64 :=
  address + plChunkSize.toUInt64 * index.toUInt64

/-! ## The first pass -/

def storeHash (index : UInt32) (hash : D) (data : List UInt8) : Auth D Unit :=
  modify fun s =>
    { s with
      hashsOfChunks := Function.update s.hashsOfChunks index.toNat hash
      signed := s.signed ++ data }

/-- A chunk of `XFsbl_PlSignVer`. -/
def signChunk (blockAdrs : UInt64) (index len : UInt32) (sha : Sha3) : Auth D Sha3 := do
  let data ← copyData hw .signVer (chunkAddress blockAdrs index) len
  let sha := sha.feed data
  storeHash index (hw.running sha.taken) data
  pure sha

/-- The chunks of `XFsbl_PlSignVer` from `Index` on. -/
def signChunks (blockAdrs : UInt64) (noOfChunks : UInt32) :
    Nat → UInt32 → UInt32 → UInt32 → Sha3 → Auth D Sha3
  | 0, _, _, _, sha => pure sha
  | n + 1, index, len, hashDataLen, sha => do
    let len := if index = noOfChunks - 1 ∨ hashDataLen < plChunkSize then hashDataLen else len
    let sha ← signChunk hw blockAdrs index len sha
    let hashDataLen := if index + 1 < noOfChunks then hashDataLen - plChunkSize else hashDataLen
    signChunks blockAdrs noOfChunks n (index + 1) len hashDataLen sha

def plSignVer (blockAdrs : UInt64) (blockSize noOfChunks : UInt32) : Auth D Unit := do
  let sha ← signChunks hw blockAdrs noOfChunks noOfChunks.toNat 0 plChunkSize blockSize sha3Start
  let partitionHash := hw.sha3 (sha.all ++ hw.authCert)
  ensure (hw.rsaInitialize = xfsblSuccess) xfsblErrorRsaInitialize
  ensure (hw.rsaPublicEncrypt = xfsblSuccess) xfsblErrorPartRsaDecrypt
  ensure (hw.rsaSignVerification partitionHash = xfsblSuccess) xfsblFailure

/-! ## The second pass -/

/-- Bytes on their way to the PCAP or into the AES path. -/
def send (position : Nat) (data : List UInt8) : Auth D Unit :=
  modify fun s => { s with sent := s.sent ++ data.zipIdx position }

/-- A chunk that passed: `Len / 4` words to the PCAP, or all of it to `XFsbl_DecrptPlChunks`. -/
def sendChunk (isEncrypted : Bool) (index len : UInt32) (data : List UInt8) : Auth D Unit :=
  if isEncrypted = false then do
    send (plChunkSize.toNat * index.toNat) (data.take (len.toNat / 4 * 4))
    let status := hw.pcapWaitForDone index
    ensure (status = xfsblSuccess) status
  else do
    send (plChunkSize.toNat * index.toNat) data
    let status := hw.decrptPlChunks index data
    ensure (status = xfsblSuccess) status

variable [DecidableEq D]

/-- `XFsbl_CompareHashs` with the stored hash. -/
def compareHash (index : UInt32) (hash : D) : Auth D Unit := do
  let s ← get
  ensure (s.hashsOfChunks index.toNat = hash) xfsblErrorChunkHashComparison

/-- A chunk of `XFsbl_ReAuthenticationBlock`. -/
def reAuthChunk (isEncrypted : Bool) (address : UInt64) (index len : UInt32) (sha : Sha3) :
    Auth D Sha3 := do
  let data ← copyData hw .reAuthentication (chunkAddress address index) len
  let sha := sha.feed data
  compareHash index (hw.running sha.taken)
  sendChunk hw isEncrypted index len data
  pure sha

/-- The chunks of `XFsbl_ReAuthenticationBlock` from `Index` on. -/
def reAuthChunks (isEncrypted : Bool) (address : UInt64) (noOfChunks : UInt32) :
    Nat → UInt32 → UInt32 → UInt32 → Sha3 → Auth D Sha3
  | 0, _, _, _, sha => pure sha
  | n + 1, index, len, hashDataLen, sha => do
    let len := if index = noOfChunks - 1 then hashDataLen else len
    let sha ← reAuthChunk hw isEncrypted address index len sha
    reAuthChunks isEncrypted address noOfChunks n (index + 1) len (hashDataLen - plChunkSize) sha

def reAuthenticationBlock (isEncrypted : Bool) (address : UInt64) (blockLen noOfChunks : UInt32) :
    Auth D Unit := do
  ensure (hw.sha3Initialize = xfsblSuccess) hw.sha3Initialize
  let _ ← reAuthChunks hw isEncrypted address noOfChunks noOfChunks.toNat 0 plChunkSize blockLen
    sha3Start
  ensure (hw.sha3Finish = xfsblSuccess) hw.sha3Finish

def noOfChunks (length : UInt32) : UInt32 :=
  if length > plChunkSize then
    if length % plChunkSize > 0 then length / plChunkSize + 1 else length / plChunkSize
  else 1

def plBlockAuthentication (isEncrypted : Bool) (srcAddress : UInt64) (length : UInt32) :
    Auth D Unit := do
  ensure (¬ noOfChunks length > noOfHashs) xfsblErrorProvidedBufHashStore
  ensure (hw.spkVer = xfsblSuccess) hw.spkVer
  plSignVer hw srcAddress length (noOfChunks length)
  reAuthenticationBlock hw isEncrypted srcAddress length (noOfChunks length)

end Hw

/-! ## The claim -/

section Claim

variable {D : Type} [DecidableEq D]

def AuthState.start (hashsOfChunks : Nat → D) : AuthState D := ⟨hashsOfChunks, [], []⟩

/-- Every byte sent is the byte of its position that was signed. -/
def Binding (hw : AuthHw D) (isEncrypted : Bool) (srcAddress : UInt64) (length : UInt32) : Prop :=
  ∀ hashsOfChunks s', plBlockAuthentication hw isEncrypted srcAddress length
      (.start hashsOfChunks) = .ok () s' → ∀ p ∈ s'.sent, s'.signed[p.2]? = some p.1

/-- The end of what is sent of a block: whole words to the PCAP. -/
def sentEnd (isEncrypted : Bool) (length : Nat) : Nat :=
  if isEncrypted then length else length / 4 * 4

/-- A block of more chunks than there are stored hashes is refused; of the others, no byte behind the
last complete SHA3 block is sent. -/
def TailHeld (isEncrypted : Bool) (length : UInt32) : Prop :=
  noOfChunks length > noOfHashs ∨ sentEnd isEncrypted length.toNat ≤ length.toNat / 104 * 104

end Claim

/-! ## One chunk -/

section Chunk

variable {D : Type} {hw : AuthHw D} {s s' : AuthState D} {sha sha' : Sha3} {address : UInt64}
  {index len : UInt32} {isEncrypted : Bool}

theorem ensure_ok {σ : Type} {p : Prop} [Decidable p] {code : UInt32} {x : Unit} {s s' : σ} :
    ensure p code s = .ok x s' ↔ p ∧ s = s' := by
  unfold ensure
  by_cases hp : p
  · rw [if_pos hp, pure_ok]
    simp [hp]
  · rw [if_neg hp, throw_ok]
    simp [hp]

/-- What a pass reads of a chunk. -/
def chunkData (hw : AuthHw D) (pass : Pass) (address : UInt64) (index len : UInt32) : List UInt8 :=
  (hw.copyData pass (chunkAddress address index) len.toNat).2.load 0 len.toNat

/-- The read of the chunk succeeds. -/
def ChunkRead (hw : AuthHw D) (pass : Pass) (address : UInt64) (index len : UInt32) : Prop :=
  (hw.copyData pass (chunkAddress address index) len.toNat).1 = xfsblSuccess

@[simp] theorem length_chunkData {pass : Pass} :
    (chunkData hw pass address index len).length = len.toNat := by
  simp [chunkData]

theorem copyData_ok {pass : Pass} {data : List UInt8} :
    copyData hw pass (chunkAddress address index) len s = .ok data s' ↔
      ChunkRead hw pass address index len ∧ chunkData hw pass address index len = data ∧ s = s' := by
  unfold copyData
  simp only [bind_ok, ensure_ok, pure_ok]
  constructor
  · rintro ⟨_, _, ⟨hr, rfl⟩, hdata, rfl⟩
    exact ⟨hr, hdata, rfl⟩
  · rintro ⟨hr, hdata, rfl⟩
    exact ⟨(), s, ⟨hr, rfl⟩, hdata, rfl⟩

/-- A chunk of the first pass. -/
theorem signChunk_ok :
    signChunk hw address index len sha s = .ok sha' s' ↔
      ChunkRead hw .signVer address index len ∧
      sha' = sha.feed (chunkData hw .signVer address index len) ∧
      s' = { s with
        hashsOfChunks := Function.update s.hashsOfChunks index.toNat (hw.running sha'.taken)
        signed := s.signed ++ chunkData hw .signVer address index len } := by
  unfold signChunk storeHash
  simp only [bind_ok, copyData_ok, modify_ok, pure_ok]
  constructor
  · rintro ⟨_, _, ⟨hr, rfl, rfl⟩, _, _, rfl, rfl, rfl⟩
    exact ⟨hr, rfl, rfl⟩
  · rintro ⟨hr, rfl, rfl⟩
    exact ⟨_, s, ⟨hr, rfl, rfl⟩, (), _, rfl, rfl, rfl⟩

/-- What is sent of a chunk. -/
def sentData (isEncrypted : Bool) (data : List UInt8) : List UInt8 :=
  data.take (sentEnd isEncrypted data.length)

/-- The chunk goes through. -/
def ChunkSent (hw : AuthHw D) (isEncrypted : Bool) (index : UInt32) (data : List UInt8) : Prop :=
  if isEncrypted then hw.decrptPlChunks index data = xfsblSuccess
  else hw.pcapWaitForDone index = xfsblSuccess

theorem sendChunk_ok {data : List UInt8} {x : Unit} (hlen : data.length = len.toNat) :
    sendChunk hw isEncrypted index len data s = .ok x s' ↔
      ChunkSent hw isEncrypted index data ∧
      s' = { s with
        sent := s.sent ++ (sentData isEncrypted data).zipIdx (plChunkSize.toNat * index.toNat) } := by
  unfold sendChunk send ChunkSent sentData sentEnd
  cases isEncrypted with
  | true =>
    simp only [Bool.true_eq_false, if_false, if_true, bind_ok, modify_ok, ensure_ok, List.take_length]
    constructor
    · rintro ⟨_, _, rfl, hs, rfl⟩
      exact ⟨hs, rfl⟩
    · rintro ⟨hs, rfl⟩
      exact ⟨(), _, rfl, hs, rfl⟩
  | false =>
    simp only [Bool.false_eq_true, if_false, if_true, bind_ok, modify_ok, ensure_ok, hlen]
    constructor
    · rintro ⟨_, _, rfl, hs, rfl⟩
      exact ⟨hs, rfl⟩
    · rintro ⟨hs, rfl⟩
      exact ⟨(), _, rfl, hs, rfl⟩

variable [DecidableEq D]

/-- A chunk of the second pass. -/
theorem reAuthChunk_ok :
    reAuthChunk hw isEncrypted address index len sha s = .ok sha' s' ↔
      ChunkRead hw .reAuthentication address index len ∧
      sha' = sha.feed (chunkData hw .reAuthentication address index len) ∧
      s.hashsOfChunks index.toNat = hw.running sha'.taken ∧
      ChunkSent hw isEncrypted index (chunkData hw .reAuthentication address index len) ∧
      s' = { s with
        sent := s.sent ++ (sentData isEncrypted
          (chunkData hw .reAuthentication address index len)).zipIdx
            (plChunkSize.toNat * index.toNat) } := by
  unfold reAuthChunk compareHash
  simp only [bind_ok, copyData_ok, get_ok, ensure_ok, pure_ok]
  constructor
  · rintro ⟨_, _, ⟨hr, rfl, rfl⟩, _, _, ⟨_, _, ⟨rfl, rfl⟩, hh, rfl⟩, _, _, hsend, rfl, rfl⟩
    obtain ⟨hs, hs'⟩ := (sendChunk_ok length_chunkData).1 hsend
    exact ⟨hr, rfl, hh, hs, hs'⟩
  · rintro ⟨hr, rfl, hh, hs, hs'⟩
    exact ⟨_, s, ⟨hr, rfl, rfl⟩, (), s, ⟨s, s, ⟨rfl, rfl⟩, hh, rfl⟩, (), s',
      (sendChunk_ok length_chunkData).2 ⟨hs, hs'⟩, rfl, rfl⟩

end Chunk

/-! ## The chunks of a block -/

/-- `n` chunks cover the block. -/
structure Tiled (length n : UInt32) : Prop where
  pos : 0 < n.toNat
  low : (n.toNat - 1) * 57344 ≤ length.toNat
  high : length.toNat ≤ n.toNat * 57344

theorem tiled_noOfChunks (length : UInt32) : Tiled length (noOfChunks length) := by
  have hsize : plChunkSize.toNat = 57344 := rfl
  have hlt := length.toNat_lt
  have hdiv : (length / plChunkSize).toNat = length.toNat / 57344 := UInt32.toNat_div _ _
  unfold noOfChunks
  by_cases hmore : length > plChunkSize
  · have hgt : 57344 < length.toNat := hmore
    rw [if_pos hmore]
    by_cases hrest : length % plChunkSize > 0
    · have hmod : 0 < length.toNat % 57344 := by
        have : (0 : UInt32).toNat < (length % plChunkSize).toNat := hrest
        rwa [UInt32.toNat_mod, hsize] at this
      have hn : (length / plChunkSize + 1).toNat = length.toNat / 57344 + 1 := by
        rw [UInt32.toNat_add, hdiv, show (1 : UInt32).toNat = 1 from rfl]
        omega
      rw [if_pos hrest]
      constructor <;> rw [hn] <;> omega
    · have hmod : length.toNat % 57344 = 0 := by
        have : ¬ (0 : UInt32).toNat < (length % plChunkSize).toNat := hrest
        rw [UInt32.toNat_mod, hsize] at this
        exact Nat.eq_zero_of_not_pos this
      rw [if_neg hrest]
      constructor <;> rw [hdiv] <;> omega
  · have hle : ¬ 57344 < length.toNat := hmore
    have hone : (1 : UInt32).toNat = 1 := rfl
    rw [if_neg hmore]
    constructor <;> rw [hone] <;> omega

/-- The counters of both loops before chunk `Index`, `k` chunks before the end. -/
structure At (length n : UInt32) (k : Nat) (index len hashDataLen : UInt32) : Prop where
  count : index.toNat + k = n.toNat
  left : 0 < k → index.toNat * 57344 + hashDataLen.toNat = length.toNat
  full : 0 < k → len = plChunkSize

section Counters

variable {length n index len hashDataLen : UInt32} {k : Nat}

theorem At.start (length n : UInt32) : At length n n.toNat 0 plChunkSize length where
  count := Nat.zero_add _
  left _ := Nat.zero_add _
  full _ := rfl

theorem At.last_iff (h : At length n (k + 1) index len hashDataLen) : index = n - 1 ↔ k = 0 := by
  have hcount := h.count
  have hn := n.toNat_lt
  have hone : (n - 1).toNat = n.toNat - 1 := by
    rw [UInt32.toNat_sub_of_le _ _ ?_]
    · rfl
    · show (1 : UInt32).toNat ≤ n.toNat
      rw [show (1 : UInt32).toNat = 1 from rfl]
      omega
  rw [← UInt32.toNat_inj, hone]
  omega

theorem At.next_index (h : At length n (k + 1) index len hashDataLen) :
    (index + 1).toNat = index.toNat + 1 := by
  have hcount := h.count
  have hn := n.toNat_lt
  rw [UInt32.toNat_add, show (1 : UInt32).toNat = 1 from rfl]
  omega

/-- Before the last chunk there is a full one. -/
theorem At.next_left (h : At length n (k + 1) index len hashDataLen) (ht : Tiled length n)
    (hk : 0 < k) : (hashDataLen - plChunkSize).toNat = hashDataLen.toNat - 57344 ∧
      57344 ≤ hashDataLen.toNat := by
  have hcount := h.count
  have hleft := h.left (Nat.succ_pos k)
  have hlow := ht.low
  have hle : 57344 ≤ hashDataLen.toNat := by
    have : (index.toNat + 1) * 57344 ≤ (n.toNat - 1) * 57344 :=
      Nat.mul_le_mul_right _ (by omega)
    omega
  exact ⟨UInt32.toNat_sub_of_le _ _ hle, hle⟩

/-- The length of chunk `Index`, as both loops find it. -/
theorem At.size_first (h : At length n (k + 1) index len hashDataLen) (ht : Tiled length n) :
    (if index = n - 1 ∨ hashDataLen < plChunkSize then hashDataLen else len) =
      if k = 0 then hashDataLen else plChunkSize := by
  by_cases hk : k = 0
  · rw [if_pos (.inl (h.last_iff.2 hk)), if_pos hk]
  · have hge := (h.next_left ht (Nat.pos_of_ne_zero hk)).2
    have hfull : ¬ hashDataLen < plChunkSize := Nat.not_lt.2 hge
    rw [if_neg (by rw [h.last_iff]; exact not_or.2 ⟨hk, hfull⟩), if_neg hk, h.full (Nat.succ_pos k)]

theorem At.size_second (h : At length n (k + 1) index len hashDataLen) :
    (if index = n - 1 then hashDataLen else len) =
      if k = 0 then hashDataLen else plChunkSize := by
  rw [h.full (Nat.succ_pos k)]
  by_cases hk : k = 0
  · rw [if_pos (h.last_iff.2 hk), if_pos hk]
  · rw [if_neg (by rwa [h.last_iff]), if_neg hk]

theorem At.next (h : At length n (k + 1) index len hashDataLen) (ht : Tiled length n)
    {hashDataLen' : UInt32} (hnext : 0 < k → hashDataLen' = hashDataLen - plChunkSize) :
    At length n k (index + 1) (if k = 0 then hashDataLen else plChunkSize) hashDataLen' where
  count := by
    have := h.count
    rw [h.next_index]
    omega
  left hk := by
    obtain ⟨hsub, hge⟩ := h.next_left ht hk
    have hleft := h.left (Nat.succ_pos k)
    rw [h.next_index, hnext hk, hsub]
    rw [Nat.add_mul, Nat.one_mul, Nat.add_assoc, Nat.add_sub_cancel' hge, hleft]
  full hk := if_neg (Nat.pos_iff_ne_zero.1 hk)

theorem At.next_first (h : At length n (k + 1) index len hashDataLen) (ht : Tiled length n) :
    At length n k (index + 1) (if k = 0 then hashDataLen else plChunkSize)
      (if index + 1 < n then hashDataLen - plChunkSize else hashDataLen) := by
  refine h.next ht fun hk => if_pos ?_
  have := h.count
  show (index + 1).toNat < n.toNat
  rw [h.next_index]
  omega

/-- The end of chunk `j`. -/
def chunkEnd (length n : UInt32) (j : Nat) : Nat :=
  if j + 1 = n.toNat then length.toNat else (j + 1) * 57344

theorem At.chunkEnd_eq (h : At length n (k + 1) index len hashDataLen) :
    index.toNat * 57344 + (if k = 0 then hashDataLen else plChunkSize).toNat =
      chunkEnd length n index.toNat := by
  have hcount := h.count
  have hleft := h.left (Nat.succ_pos k)
  unfold chunkEnd
  by_cases hk : k = 0
  · rw [if_pos hk, if_pos (by omega), hleft]
  · rw [if_neg hk, if_neg (by omega), show plChunkSize.toNat = 57344 from rfl]
    omega

end Counters

/-! ## A pass -/

section Passes

variable {D : Type} {hw : AuthHw D} {s s' : AuthState D} {sha sha' : Sha3} {address : UInt64}
  {length n index len hashDataLen : UInt32} {isEncrypted : Bool} {k : Nat}

/-- The first pass signs what it reads, and the last stored hash is that of all its blocks. -/
theorem signChunks_ok (ht : Tiled length n) (hat : At length n k index len hashDataLen)
    (hall : 0 < k → sha.all.length = index.toNat * 57344) (hsigned : s.signed = sha.all)
    (hrun : signChunks hw address n k index len hashDataLen sha s = .ok sha' s') :
    s'.signed = sha'.all ∧ s'.sent = s.sent ∧ (0 < k → sha'.all.length = length.toNat ∧
      s'.hashsOfChunks (n.toNat - 1) = hw.running sha'.taken) := by
  induction k generalizing index len hashDataLen sha s with
  | zero =>
    obtain ⟨rfl, rfl⟩ := pure_ok.1 hrun
    exact ⟨hsigned, rfl, fun h => absurd h (Nat.lt_irrefl 0)⟩
  | succ k ih =>
    rw [signChunks, hat.size_first ht] at hrun
    obtain ⟨sha₁, s₁, hchunk, hrest⟩ := bind_ok.1 hrun
    obtain ⟨-, rfl, rfl⟩ := signChunk_ok.1 hchunk
    have hlen := hall (Nat.succ_pos k)
    have hend := hat.chunkEnd_eq
    have hcount := hat.count
    have hfed (hk : 0 < k) : (sha.feed (chunkData hw .signVer address index
        (if k = 0 then hashDataLen else plChunkSize))).all.length = (index + 1).toNat * 57344 := by
      rw [Buffered.all_feed, List.length_append, length_chunkData, hlen, hend, hat.next_index]
      exact if_neg (by omega)
    have hall' : s.signed ++ chunkData hw .signVer address index
        (if k = 0 then hashDataLen else plChunkSize) = (sha.feed (chunkData hw .signVer address index
          (if k = 0 then hashDataLen else plChunkSize))).all := by
      rw [Buffered.all_feed, hsigned]
    obtain ⟨hs, hsent, hlast⟩ := ih (hat.next_first ht) hfed hall' hrest
    refine ⟨hs, hsent, fun _ => ?_⟩
    by_cases hk : k = 0
    · subst hk
      obtain ⟨rfl, rfl⟩ := pure_ok.1 hrest
      unfold chunkEnd at hend
      rw [if_pos hcount] at hend
      rw [Buffered.all_feed, List.length_append, length_chunkData, hlen, hend]
      refine ⟨rfl, ?_⟩
      rw [show n.toNat - 1 = index.toNat by omega]
      exact Function.update_self _ _ _
    · exact hlast (Nat.pos_of_ne_zero hk)

variable [DecidableEq D]

theorem sentEnd_le (isEncrypted : Bool) (m : Nat) : sentEnd isEncrypted m ≤ m := by
  unfold sentEnd
  cases isEncrypted with
  | true => exact Nat.le_refl m
  | false => exact Nat.div_mul_le_self m 4

theorem sentEnd_add (isEncrypted : Bool) (q m : Nat) :
    sentEnd isEncrypted (q * 57344 + m) = q * 57344 + sentEnd isEncrypted m := by
  unfold sentEnd
  cases isEncrypted with
  | true => rfl
  | false =>
    show (q * 57344 + m) / 4 * 4 = q * 57344 + m / 4 * 4
    omega

theorem sentEnd_ge (ht : Tiled length n) {q : Nat} (hq : q < n.toNat) :
    q * 57344 ≤ sentEnd isEncrypted length.toNat := by
  have hlow := ht.low
  have hle : q * 57344 ≤ (n.toNat - 1) * 57344 := Nat.mul_le_mul_right _ (by omega)
  obtain ⟨m, hm⟩ : ∃ m, length.toNat = q * 57344 + m := ⟨length.toNat - q * 57344, by omega⟩
  rw [hm, sentEnd_add]
  exact Nat.le_add_right _ _

theorem sentEnd_chunk : sentEnd isEncrypted plChunkSize.toNat = 57344 := by
  cases isEncrypted with
  | true => rfl
  | false => rfl

theorem sentData_full {data : List UInt8} (hdata : data.length = 57344) :
    sentData isEncrypted data = data := by
  unfold sentData
  rw [hdata, ← show plChunkSize.toNat = 57344 from rfl, sentEnd_chunk]
  exact List.take_of_length_le (by omega)

/-- What is sent behind full chunks. -/
theorem drop_sentData {before data : List UInt8} {q : Nat} (hbefore : before.length = q * 57344) :
    (sentData isEncrypted (before ++ data)).drop (q * 57344) = sentData isEncrypted data := by
  unfold sentData
  rw [List.length_append, hbefore, sentEnd_add, ← hbefore, List.take_length_add_append,
    List.drop_left]

/-- A full chunk and what is sent after it. -/
theorem sentData_split {before data total : List UInt8} {q : Nat}
    (hlast : (q + 1) * 57344 ≤ sentEnd isEncrypted total.length)
    (hbefore : before.length = q * 57344) (hdata : data.length = 57344)
    (hpre : before ++ data <+: total) :
    (sentData isEncrypted total).drop (q * 57344) =
      data ++ (sentData isEncrypted total).drop ((q + 1) * 57344) := by
  unfold sentData
  generalize sentEnd isEncrypted total.length = last at hlast ⊢
  obtain ⟨rest, rfl⟩ := hpre
  have hboth : (before ++ data).length = (q + 1) * 57344 := by
    rw [List.length_append, hbefore, hdata, Nat.succ_mul]
  obtain ⟨m, rfl⟩ := Nat.exists_eq_add_of_le hlast
  rw [← hboth, List.take_length_add_append, List.drop_left, List.append_assoc, ← hbefore,
    List.drop_left]

/-- The second pass sends the bytes it hashes, as far as they are sent at all, and the running
digest behind the last chunk is the last stored one. -/
theorem reAuthChunks_ok (ht : Tiled length n) (hat : At length n k index len hashDataLen)
    (hall : 0 < k → sha.all.length = index.toNat * 57344)
    (hrun : reAuthChunks hw isEncrypted address n k index len hashDataLen sha s = .ok sha' s') :
    s'.signed = s.signed ∧ sha.all <+: sha'.all ∧
      (0 < k → sha'.all.length = length.toNat ∧
        s.hashsOfChunks (n.toNat - 1) = hw.running sha'.taken ∧
        s'.sent = s.sent ++ ((sentData isEncrypted sha'.all).drop (index.toNat * 57344)).zipIdx
          (index.toNat * 57344)) := by
  induction k generalizing index len hashDataLen sha s with
  | zero =>
    obtain ⟨rfl, rfl⟩ := pure_ok.1 hrun
    exact ⟨rfl, List.prefix_rfl, fun h => absurd h (Nat.lt_irrefl 0)⟩
  | succ k ih =>
    rw [reAuthChunks, hat.size_second] at hrun
    obtain ⟨sha₁, s₁, hchunk, hrest⟩ := bind_ok.1 hrun
    obtain ⟨-, rfl, hhash, -, rfl⟩ := reAuthChunk_ok.1 hchunk
    have hlen := hall (Nat.succ_pos k)
    have hend := hat.chunkEnd_eq
    have hcount := hat.count
    have hfed (hk : 0 < k) : (sha.feed (chunkData hw .reAuthentication address index
        (if k = 0 then hashDataLen else plChunkSize))).all.length = (index + 1).toNat * 57344 := by
      rw [Buffered.all_feed, List.length_append, length_chunkData, hlen, hend, hat.next_index]
      exact if_neg (by omega)
    obtain ⟨hs, hpre, hlast⟩ := ih (hat.next ht fun _ => rfl) hfed hrest
    rw [Buffered.all_feed] at hpre
    refine ⟨hs, (List.prefix_append _ _).trans hpre, fun _ => ?_⟩
    by_cases hk : k = 0
    · subst hk
      obtain ⟨rfl, rfl⟩ := pure_ok.1 hrest
      unfold chunkEnd at hend
      rw [if_pos hcount, if_pos rfl] at hend
      rw [if_pos rfl, Buffered.all_feed, List.length_append, length_chunkData, hlen, hend]
      rw [show n.toNat - 1 = index.toNat by omega]
      refine ⟨rfl, hhash, congrArg (s.sent ++ ·) ?_⟩
      rw [drop_sentData hlen,
        show plChunkSize.toNat * index.toNat = index.toNat * 57344 from Nat.mul_comm _ _]
    · obtain ⟨hlength, hhash', hsent⟩ := hlast (Nat.pos_of_ne_zero hk)
      refine ⟨hlength, hhash', ?_⟩
      rw [if_neg hk] at hpre hsent
      have hreach : (index.toNat + 1) * 57344 ≤ sentEnd isEncrypted sha'.all.length := by
        rw [hlength]
        exact sentEnd_ge ht (by omega)
      rw [hsent, sentData_split hreach hlen length_chunkData hpre, sentData_full length_chunkData,
        List.zipIdx_append, length_chunkData, hat.next_index, List.append_assoc, Nat.succ_mul,
        show plChunkSize.toNat * index.toNat = index.toNat * 57344 from Nat.mul_comm _ _]
      rfl

/-! ## Blocks that bind -/

/-- The blocks the driver has gone through. -/
def wholeBlocks (l : List UInt8) : List UInt8 := l.take (l.length / 104 * 104)

theorem taken_whole (sha : Sha3) : sha.taken = wholeBlocks sha.all := sha.taken_eq

theorem dvd_taken (sha : Sha3) : 104 ∣ sha.taken.length := sha.taken_dvd

theorem length_sha3Start : sha3Start.all.length = (0 : UInt32).toNat * 57344 := by
  rw [show (0 : UInt32).toNat = 0 from rfl, Nat.zero_mul]
  rfl

/-- A running digest that tells blocks apart. -/
def BlocksInjective (running : List UInt8 → D) : Prop :=
  ∀ xs ys, 104 ∣ xs.length → 104 ∣ ys.length → running xs = running ys → xs = ys

omit [DecidableEq D] in
theorem plSignVer_ok (ht : Tiled length n) (hsigned : s.signed = []) {x : Unit}
    (hrun : plSignVer hw address length n s = .ok x s') : ∃ sha : Sha3, s'.signed = sha.all ∧
      s'.sent = s.sent ∧ sha.all.length = length.toNat ∧
      s'.hashsOfChunks (n.toNat - 1) = hw.running sha.taken := by
  unfold plSignVer at hrun
  obtain ⟨sha, t, hchunks, hrun⟩ := bind_ok.1 hrun
  simp only [bind_ok, ensure_ok] at hrun
  obtain ⟨_, _, ⟨-, rfl⟩, _, _, ⟨-, rfl⟩, -, rfl⟩ := hrun
  obtain ⟨hs, hsent, hlast⟩ := signChunks_ok ht (At.start length n) (fun _ => length_sha3Start) hsigned hchunks
  obtain ⟨hlen, hhash⟩ := hlast ht.pos
  exact ⟨sha, hs, hsent, hlen, hhash⟩

theorem reAuthenticationBlock_ok (ht : Tiled length n) {x : Unit}
    (hrun : reAuthenticationBlock hw isEncrypted address length n s = .ok x s') :
    s'.signed = s.signed ∧ ∃ sha : Sha3, sha.all.length = length.toNat ∧
      s.hashsOfChunks (n.toNat - 1) = hw.running sha.taken ∧
      s'.sent = s.sent ++ (sentData isEncrypted sha.all).zipIdx := by
  unfold reAuthenticationBlock at hrun
  simp only [bind_ok, ensure_ok] at hrun
  obtain ⟨_, _, ⟨-, rfl⟩, sha, t, hchunks, -, rfl⟩ := hrun
  obtain ⟨hs, -, hlast⟩ := reAuthChunks_ok ht (At.start length n) (fun _ => length_sha3Start) hchunks
  obtain ⟨hlen, hhash, hsent⟩ := hlast ht.pos
  rw [show (0 : UInt32).toNat = 0 from rfl, Nat.zero_mul, List.drop_zero] at hsent
  exact ⟨hs, sha, hlen, hhash, hsent⟩

/-- A successful authentication: what was signed and what was sent agree on all complete blocks. -/
theorem plBlockAuthentication_ok {hashsOfChunks : Nat → D} {x : Unit}
    (hrun : plBlockAuthentication hw isEncrypted address length (.start hashsOfChunks) = .ok x s') :
    ¬ noOfChunks length > noOfHashs ∧ ∃ first second : Sha3,
      s'.signed = first.all ∧ first.all.length = length.toNat ∧ second.all.length = length.toNat ∧
      hw.running first.taken = hw.running second.taken ∧
      s'.sent = (sentData isEncrypted second.all).zipIdx := by
  have ht := tiled_noOfChunks length
  unfold plBlockAuthentication at hrun
  simp only [bind_ok, ensure_ok] at hrun
  obtain ⟨_, _, ⟨hcount, rfl⟩, _, _, ⟨-, rfl⟩, _, t, hsign, hreauth⟩ := hrun
  obtain ⟨first, hs, hnone, hlen, hhash⟩ := plSignVer_ok ht rfl hsign
  obtain ⟨hs', second, hlen', hhash', hsent⟩ := reAuthenticationBlock_ok ht hreauth
  refine ⟨hcount, first, second, by rw [hs', hs], hlen, hlen', hhash.symm.trans hhash', ?_⟩
  rw [hsent, hnone]
  rfl

theorem binding_of_tailHeld (hinj : BlocksInjective hw.running) (hheld : TailHeld isEncrypted length) :
    Binding hw isEncrypted address length := by
  intro hashsOfChunks s' hrun p hp
  obtain ⟨hcount, first, second, hs, hlen, hlen', hhash, hsent⟩ := plBlockAuthentication_ok hrun
  have hend := hheld.resolve_left hcount
  rw [hsent] at hp
  have hget := List.mk_mem_zipIdx_iff_getElem?.1 hp
  obtain ⟨hlt, hget⟩ : p.2 < sentEnd isEncrypted length.toNat ∧ second.all[p.2]? = some p.1 := by
    unfold sentData at hget
    rw [List.getElem?_take, hlen'] at hget
    by_cases hlt : p.2 < sentEnd isEncrypted length.toNat
    · rw [if_pos hlt] at hget
      exact ⟨hlt, hget⟩
    · rw [if_neg hlt] at hget
      cases hget
  have htaken : first.taken = second.taken := hinj _ _ (dvd_taken _) (dvd_taken _) hhash
  have hin : p.2 < length.toNat / 104 * 104 := by omega
  rw [hs, ← first.getElem?_taken (by rwa [hlen]), htaken, second.getElem?_taken (by rwa [hlen']), hget]

end Passes

/-! ## Blocks that do not -/

section Probe

variable {D : Type} {running : List UInt8 → D} {address : UInt64} {mem : Pass → Mem}
  {s : AuthState D} {sha : Sha3} {length n index len hashDataLen : UInt32} {isEncrypted : Bool}
  {k : Nat}

/-- A machine on which everything succeeds; the passes find a memory each. -/
def probeHw (running : List UInt8 → D) (address : UInt64) (mem : Pass → Mem) : AuthHw D where
  copyData pass addr _ := (xfsblSuccess, fun i => mem pass ((addr - address).toNat + i))
  running := running
  sha3 := running
  sha3Initialize := xfsblSuccess
  sha3Finish := xfsblSuccess
  spkVer := xfsblSuccess
  authCert := []
  rsaInitialize := xfsblSuccess
  rsaPublicEncrypt := xfsblSuccess
  rsaSignVerification _ := xfsblSuccess
  pcapWaitForDone _ := xfsblSuccess
  decrptPlChunks _ _ := xfsblSuccess

theorem load_shift (m : Mem) (a k : Nat) : (Mem.load (fun i => m (a + i)) 0 k) = m.load a k := by
  apply List.ext_getElem?
  intro i
  rw [Mem.getElem?_load, Mem.getElem?_load, Nat.zero_add]

theorem take_load (m : Mem) (a j k : Nat) (h : j ≤ k) : (m.load a k).take j = m.load a j := by
  obtain ⟨d, rfl⟩ := Nat.exists_eq_add_of_le h
  rw [Mem.load_add, List.take_left' (Mem.length_load m a j)]

theorem chunkAddress_sub (address : UInt64) (index : UInt32) :
    (chunkAddress address index - address).toNat = index.toNat * 57344 := by
  have hlt := index.toNat_lt
  have hsub : chunkAddress address index - address = plChunkSize.toUInt64 * index.toUInt64 := by
    unfold chunkAddress
    rw [UInt64.add_comm, UInt64.add_sub_cancel]
  rw [hsub, UInt64.toNat_mul, UInt32.toNat_toUInt64, UInt32.toNat_toUInt64,
    show plChunkSize.toNat = 57344 from rfl, Nat.mod_eq_of_lt (by omega), Nat.mul_comm]

theorem chunkData_probe (pass : Pass) :
    chunkData (probeHw running address mem) pass address index len =
      (mem pass).load (index.toNat * 57344) len.toNat := by
  unfold chunkData
  show Mem.load (fun i => mem pass ((chunkAddress address index - address).toNat + i)) 0 _ = _
  rw [load_shift, chunkAddress_sub]

variable (running address mem isEncrypted)

/-- A chunk extends what was read by the next bytes of the memory. -/
theorem feed_probe (hat : At length n (k + 1) index len hashDataLen) (pass : Pass)
    (hall : sha.all = (mem pass).load 0 (index.toNat * 57344)) :
    (sha.feed (chunkData (probeHw running address mem) pass address index
      (if k = 0 then hashDataLen else plChunkSize))).all =
        (mem pass).load 0 (chunkEnd length n index.toNat) := by
  rw [Buffered.all_feed, hall, chunkData_probe, ← hat.chunkEnd_eq, Mem.load_add, Nat.zero_add]

theorem chunkEnd_full {j : Nat} (h : j + 1 < n.toNat) : chunkEnd length n j = (j + 1) * 57344 :=
  if_neg (Nat.ne_of_lt h)

theorem chunkEnd_le (ht : Tiled length n) {j : Nat} (h : j < n.toNat) :
    chunkEnd length n j ≤ length.toNat := by
  unfold chunkEnd
  by_cases hj : j + 1 = n.toNat
  · rw [if_pos hj]
  · rw [if_neg hj]
    exact Nat.le_trans (Nat.mul_le_mul_right _ (by omega)) ht.low

/-- The digests behind the chunks of a memory. -/
def Digests (running : List UInt8 → D) (m : Mem) (length n : UInt32) (hashs : Nat → D) (j : Nat) :
    Prop :=
  hashs j = running (wholeBlocks (m.load 0 (chunkEnd length n j)))

theorem signChunks_run (ht : Tiled length n) (hat : At length n k index len hashDataLen)
    (hall : 0 < k → sha.all = (mem .signVer).load 0 (index.toNat * 57344)) :
    ∃ sha' s', signChunks (probeHw running address mem) address n k index len hashDataLen sha s =
        .ok sha' s' ∧ (0 < k → sha'.all = (mem .signVer).load 0 length.toNat) ∧
      (∀ j < index.toNat, s'.hashsOfChunks j = s.hashsOfChunks j) ∧
      ∀ j < n.toNat, index.toNat ≤ j →
        Digests running (mem .signVer) length n s'.hashsOfChunks j := by
  induction k generalizing index len hashDataLen sha s with
  | zero =>
    have hcount := hat.count
    exact ⟨sha, s, rfl, fun h => absurd h (Nat.lt_irrefl 0), fun _ _ => rfl,
      fun j hj hle => absurd hle (by omega)⟩
  | succ k ih =>
    have hcount := hat.count
    obtain ⟨sha₁, s₁, hchunk, hsha₁, hs₁⟩ : ∃ sha₁ s₁,
        signChunk (probeHw running address mem) address index
            (if k = 0 then hashDataLen else plChunkSize) sha s = .ok sha₁ s₁ ∧
          sha₁.all = (mem .signVer).load 0 (chunkEnd length n index.toNat) ∧
          s₁.hashsOfChunks = Function.update s.hashsOfChunks index.toNat (running sha₁.taken) :=
      ⟨_, _, signChunk_ok.2 ⟨rfl, rfl, rfl⟩, feed_probe running address mem hat .signVer (hall (Nat.succ_pos k)), rfl⟩
    have hnext (hk : 0 < k) : sha₁.all = (mem .signVer).load 0 ((index + 1).toNat * 57344) := by
      rw [hsha₁, hat.next_index, chunkEnd_full (by omega)]
    obtain ⟨sha', s', hrest, hlast, hbefore, hafter⟩ :=
      ih (s := s₁) (hat.next_first ht) hnext
    rw [hat.next_index] at hbefore hafter
    have hhere : s'.hashsOfChunks index.toNat = running sha₁.taken := by
      rw [hbefore _ (Nat.lt_succ_self _), hs₁, Function.update_self]
    refine ⟨sha', s', ?_, fun _ => ?_, fun j hj => ?_, fun j hj hle => ?_⟩
    · rw [signChunks, hat.size_first ht]
      exact bind_ok.2 ⟨sha₁, s₁, hchunk, hrest⟩
    · by_cases hk : k = 0
      · subst hk
        obtain ⟨rfl, rfl⟩ := pure_ok.1 hrest
        rw [hsha₁, chunkEnd, if_pos hcount]
      · exact hlast (Nat.pos_of_ne_zero hk)
    · rw [hbefore j (by omega), hs₁, Function.update_of_ne (by omega)]
    · rcases Nat.eq_or_lt_of_le hle with rfl | hlt
      · unfold Digests
        rw [hhere, taken_whole, hsha₁]
      · exact hafter j hj hlt

variable [DecidableEq D]

theorem reAuthChunks_run (ht : Tiled length n) (hat : At length n k index len hashDataLen)
    (hall : 0 < k → sha.all = (mem .reAuthentication).load 0 (index.toNat * 57344))
    (hdigests : ∀ j < n.toNat, index.toNat ≤ j →
      Digests running (mem .reAuthentication) length n s.hashsOfChunks j) :
    ∃ sha' s', reAuthChunks (probeHw running address mem) isEncrypted address n k index len
        hashDataLen sha s = .ok sha' s' ∧
      (0 < k → sha'.all = (mem .reAuthentication).load 0 length.toNat) := by
  induction k generalizing index len hashDataLen sha s with
  | zero => exact ⟨sha, s, rfl, fun h => absurd h (Nat.lt_irrefl 0)⟩
  | succ k ih =>
    have hcount := hat.count
    have hfed := feed_probe running address mem hat .reAuthentication (hall (Nat.succ_pos k))
    have hhere := hdigests index.toNat (by omega) (Nat.le_refl _)
    obtain ⟨sha₁, s₁, hchunk, hsha₁, hs₁⟩ : ∃ sha₁ s₁,
        reAuthChunk (probeHw running address mem) isEncrypted address index
            (if k = 0 then hashDataLen else plChunkSize) sha s = .ok sha₁ s₁ ∧
          sha₁.all = (mem .reAuthentication).load 0 (chunkEnd length n index.toNat) ∧
          s₁.hashsOfChunks = s.hashsOfChunks := by
      refine ⟨_, _, reAuthChunk_ok.2 ⟨rfl, rfl, ?_, ?_, rfl⟩, hfed, rfl⟩
      · rw [hhere, taken_whole, hfed]
        rfl
      · cases isEncrypted with
        | true => rfl
        | false => rfl
    have hnext (hk : 0 < k) :
        sha₁.all = (mem .reAuthentication).load 0 ((index + 1).toNat * 57344) := by
      rw [hsha₁, hat.next_index, chunkEnd_full (by omega)]
    obtain ⟨sha', s', hrest, hlast⟩ := ih (s := s₁) (hat.next ht fun _ => rfl) hnext
      fun j hj hle => by
        rw [hat.next_index] at hle
        rw [hs₁]
        exact hdigests j hj (by omega)
    refine ⟨sha', s', ?_, fun _ => ?_⟩
    · rw [reAuthChunks, hat.size_second]
      exact bind_ok.2 ⟨sha₁, s₁, hchunk, hrest⟩
    · by_cases hk : k = 0
      · subst hk
        obtain ⟨rfl, rfl⟩ := pure_ok.1 hrest
        rw [hsha₁, chunkEnd, if_pos hcount]
      · exact hlast (Nat.pos_of_ne_zero hk)

/-- The machine accepts a block whose memories give the same running digests. -/
theorem plBlockAuthentication_run (hcount : ¬ noOfChunks length > noOfHashs)
    (hsame : ∀ j < (noOfChunks length).toNat,
      wholeBlocks ((mem .signVer).load 0 (chunkEnd length (noOfChunks length) j)) =
        wholeBlocks ((mem .reAuthentication).load 0 (chunkEnd length (noOfChunks length) j)))
    (hashsOfChunks : Nat → D) :
    ∃ s', plBlockAuthentication (probeHw running address mem) isEncrypted address length
        (.start hashsOfChunks) = .ok () s' ∧ s'.signed = (mem .signVer).load 0 length.toNat ∧
      s'.sent = (sentData isEncrypted ((mem .reAuthentication).load 0 length.toNat)).zipIdx := by
  have ht := tiled_noOfChunks length
  let n := noOfChunks length
  let hw := probeHw running address mem
  have hstart (pass : Pass) (_ : 0 < n.toNat) :
      sha3Start.all = (mem pass).load 0 ((0 : UInt32).toNat * 57344) := by
    rw [show (0 : UInt32).toNat = 0 from rfl, Nat.zero_mul]
    rfl
  obtain ⟨first, s₁, hfirst, hall, -, hhashs⟩ := signChunks_run running address mem
    (s := .start hashsOfChunks) ht (At.start length n) (hstart .signVer)
  obtain ⟨second, s₂, hsecond, hall'⟩ := reAuthChunks_run running address mem isEncrypted
    (s := s₁) ht (At.start length n) (hstart .reAuthentication) fun j hj hle => by
      unfold Digests
      rw [hhashs j hj hle, hsame j hj]
  have hsign : plSignVer hw address length n (.start hashsOfChunks) = .ok () s₁ :=
    bind_ok.2 ⟨first, s₁, hfirst, rfl⟩
  have hreauth : reAuthenticationBlock hw isEncrypted address length n s₁ = .ok () s₂ :=
    bind_ok.2 ⟨(), s₁, rfl, bind_ok.2 ⟨second, s₂, hsecond, rfl⟩⟩
  obtain ⟨hs₁, hnone, -⟩ :=
    signChunks_ok ht (At.start length n) (fun _ => length_sha3Start) rfl hfirst
  obtain ⟨hs₂, -, hsent⟩ :=
    reAuthChunks_ok ht (At.start length n) (fun _ => length_sha3Start) hsecond
  obtain ⟨-, -, hsent⟩ := hsent ht.pos
  refine ⟨s₂, ?_, ?_, ?_⟩
  · exact bind_ok.2 ⟨(), _, ensure_ok.2 ⟨hcount, rfl⟩, bind_ok.2 ⟨(), _, rfl,
      bind_ok.2 ⟨(), s₁, hsign, hreauth⟩⟩⟩
  · rw [hs₂, hs₁, hall ht.pos]
  · rw [hsent, show (0 : UInt32).toNat = 0 from rfl, Nat.zero_mul, List.drop_zero, hall' ht.pos, hnone]
    rfl

/-- One byte changes between the passes. -/
def changedAt (p : Nat) : Pass → Mem
  | .signVer => fun _ => 0
  | .reAuthentication => fun i => if i = p then 1 else 0

/-- A change behind the complete blocks shows in no running digest. -/
theorem wholeBlocks_changedAt {p e : Nat} (h : e / 104 * 104 ≤ p) :
    wholeBlocks ((changedAt p .signVer).load 0 e) =
      wholeBlocks ((changedAt p .reAuthentication).load 0 e) := by
  unfold wholeBlocks
  rw [Mem.length_load, Mem.length_load, take_load _ _ _ _ (Nat.div_mul_le_self _ _),
    take_load _ _ _ _ (Nat.div_mul_le_self _ _)]
  refine Mem.load_congr fun x _ hx => ?_
  show 0 = if x = p then 1 else 0
  rw [if_neg (by omega)]

theorem not_binding_of_tail (hcount : ¬ noOfChunks length > noOfHashs)
    (hend : ¬ sentEnd isEncrypted length.toNat ≤ length.toNat / 104 * 104) :
    ¬ Binding (probeHw running address (changedAt (length.toNat / 104 * 104))) isEncrypted address
      length := by
  intro hbinding
  let p := length.toNat / 104 * 104
  obtain ⟨s', hrun, hsigned, hsent⟩ := plBlockAuthentication_run running address (changedAt p)
    isEncrypted hcount (fun j hj => wholeBlocks_changedAt (Nat.mul_le_mul_right _
      (Nat.div_le_div_right (chunkEnd_le (tiled_noOfChunks length) hj)))) fun _ => running []
  have hp : p < sentEnd isEncrypted length.toNat := Nat.lt_of_not_le hend
  have hlt : p < length.toNat := Nat.lt_of_lt_of_le hp (sentEnd_le _ _)
  have hbyte : (1, p) ∈ s'.sent := by
    rw [hsent]
    refine List.mk_mem_zipIdx_iff_getElem?.2 ?_
    unfold sentData
    rw [Mem.length_load, List.getElem?_take_of_lt hp, Mem.getElem?_load, if_pos hlt, Nat.zero_add]
    exact congrArg some (if_pos rfl)
  have hget := hbinding _ _ hrun _ hbyte
  rw [hsigned, Mem.getElem?_load, if_pos hlt] at hget
  have hzero : some (0 : UInt8) = some 1 := hget
  exact absurd hzero (by decide)

end Probe

/-- **Two-pass authentication binds** what is sent to what was signed exactly for the block lengths
of which nothing behind the last complete SHA3 block is sent. -/
theorem reAuthentication_iff {D : Type} [DecidableEq D] {running : List UInt8 → D}
    (hinj : BlocksInjective running) (isEncrypted : Bool) (srcAddress : UInt64) (length : UInt32) :
    (∀ hw : AuthHw D, hw.running = running → Binding hw isEncrypted srcAddress length) ↔
      TailHeld isEncrypted length := by
  constructor
  · intro hall
    by_contra hheld
    obtain ⟨hcount, hend⟩ := not_or.1 hheld
    exact not_binding_of_tail running srcAddress isEncrypted hcount hend (hall (probeHw running srcAddress _) rfl)
  · rintro hheld hw rfl
    exact binding_of_tailHeld hinj hheld

/-- The blocks themselves as their running digest. -/
theorem reAuthentication_iff_id :
    (∀ hw : AuthHw (List UInt8), hw.running = id → Binding hw false 0x100000 208) ↔
      TailHeld false 208 :=
  reAuthentication_iff (fun _ _ _ _ h => h) false 0x100000 208

/-- A block of 100 bytes, of which the running digest says nothing. -/
theorem not_reAuthentication :
    ¬ ∀ (hw : AuthHw (List UInt8)) (isEncrypted : Bool) (srcAddress : UInt64) (length : UInt32),
      BlocksInjective hw.running → Binding hw isEncrypted srcAddress length := by
  intro hall
  have hbinding := hall (probeHw id 0 (changedAt 0)) false 0 100 fun _ _ _ _ h => h
  exact not_binding_of_tail id 0 false (by decide) (by decide) hbinding

end MeasuredBoot.PlAuth
