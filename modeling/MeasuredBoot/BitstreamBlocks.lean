import MeasuredBoot.PartitionLoad
import MeasuredBoot.ReAuthentication

/-!
# The blocks of an authenticated bitstream (`XFsbl_SecPlPartition`)

The bitstream lies in blocks of `BlockSize` bytes, one certificate each; the certificates follow the
data. The loop walks from the start of the data to the first certificate and authenticates one block
at a time. Where the certificates start, and how long a partial last block is, it takes from words of
the header that no check relates to each other. `coverage_iff`: a run that succeeds has
authenticated the data, block by block, exactly for the headers whose words agree.
-/

namespace MeasuredBoot.PlAuth

open Prog

/-! ## The loop -/

/-- What `XFsbl_SecPlPartition` looks at of `XSecure_Aes`. -/
structure SecureAes where
  kupKey : Bool
  hasKey : Bool

/-- `XFsblPs_PlPartition`. The caller refuses a header without a block size. -/
structure PlPartition where
  isAuthenticated : Bool
  isEncrypted : Bool
  startAddress : UInt64
  totalLen : UInt32
  acOfset : UInt32
  blockSize : UInt32
  secureAes : Option SecureAes
  blockSize_pos : 0 < blockSize.toNat

/-- A block that was authenticated: where it lies, its length, the address of its certificate, and the
bytes sent of it. -/
structure Block where
  address : UInt64
  length : UInt32
  certificate : UInt64
  sent : List (UInt8 × Nat)

/-- The copies of the certificates, and the machine under each block. -/
structure SecHw (D : Type) where
  copyCertificate : UInt64 → UInt32
  block : UInt64 → AuthHw D

structure SecState (D : Type) where
  hashsOfChunks : Nat → D
  blocks : List Block

abbrev Sec (D : Type) := EStateM UInt32 (SecState D)

namespace PlPartition

variable (p : PlPartition)

/-- `Len` of a partial last block; `Index` counts from 1, in 8 bits. -/
def lastLen (index : UInt8) : UInt32 :=
  p.totalLen - index.toUInt32 * xfsblAuthCertMinSize - (index.toUInt32 - 1) * p.blockSize

/-- The parameters `XFsbl_PartitionValidation` fills in. `loadFromOcm`: the build has
`XFSBL_PL_LOAD_FROM_OCM`. -/
def ofHeader (loadFromOcm : Bool) (imageOffsetAddress : UInt32) (h : PartitionHeader)
    (loadAddress : UInt64) (hsize : 0 < h.getBlockSize.toNat) : PlPartition where
  isAuthenticated := true
  isEncrypted := h.encrypted
  startAddress :=
    if loadFromOcm then
      (imageOffsetAddress + h.dataWordOffset * xihPartitionWordLength).toUInt64
    else loadAddress
  totalLen := h.totalDataWordLength * 4
  acOfset :=
    if loadFromOcm then imageOffsetAddress + h.authCertificateOffset * 4
    else (loadAddress + (h.authCertificateOffset * 4 -
      h.dataWordOffset * xihPartitionWordLength).toUInt64).toUInt32
  blockSize := h.getBlockSize
  secureAes := if h.encrypted then some ⟨false, false⟩ else none
  blockSize_pos := hsize

end PlPartition

section Loop

variable {D : Type} [DecidableEq D] (hw : SecHw D) (p : PlPartition)

def authenticateBlock (srcAddress : UInt64) (len : UInt32) (certificate : UInt64) : Sec D Unit :=
  fun s =>
    match plBlockAuthentication (hw.block srcAddress) p.isEncrypted srcAddress len
        (.start s.hashsOfChunks) with
    | .ok _ a => .ok ()
        { hashsOfChunks := a.hashsOfChunks
          blocks := s.blocks ++ [⟨srcAddress, len, certificate, a.sent⟩] }
    | .error code a => .error code { s with hashsOfChunks := a.hashsOfChunks }

/-- The loop over the blocks from `SrcAddress` on. -/
def secPlBlocks (srcAddress currentAcOffset : UInt64) (index : UInt8) : Sec D Unit :=
  if _h : srcAddress < p.acOfset.toUInt64 then do
    let status := hw.copyCertificate currentAcOffset
    ensure (status = xfsblSuccess) status
    if srcAddress + p.blockSize.toUInt64 > p.acOfset.toUInt64 then
      authenticateBlock hw p srcAddress (p.lastLen index) currentAcOffset
    else do
      authenticateBlock hw p srcAddress p.blockSize currentAcOffset
      secPlBlocks (srcAddress + p.blockSize.toUInt64)
        (currentAcOffset + xfsblAuthCertMinSize.toUInt64) (index + 1)
  else pure ()
termination_by p.acOfset.toNat - srcAddress.toNat
decreasing_by
  have hlt : srcAddress.toNat < p.acOfset.toNat := _h
  have hac := p.acOfset.toNat_lt
  have hblock := p.blockSize.toNat_lt
  have hpos := p.blockSize_pos
  rw [UInt64.toNat_add, UInt32.toNat_toUInt64]
  omega

/-- The tests of the AES instance. -/
def checkSecureAes : Sec D Unit :=
  match p.secureAes with
  | none => throw xfsblErrorSecureNotEnabled
  | some aes => ensure (¬ (aes.kupKey = true ∧ aes.hasKey = false)) xfsblFailure

def secPlPartition : Sec D Unit := do
  ensure (p.isAuthenticated = true) xfsblErrorSecureNotEnabled
  if p.isEncrypted then do
    checkSecureAes p
    secPlBlocks hw p p.startAddress p.acOfset.toUInt64 1
  else secPlBlocks hw p p.startAddress p.acOfset.toUInt64 1

end Loop

/-! ## The claim -/

/-- Blocks that are the data from `start` to `first`, the first certificate: none is empty or too long,
they follow each other, each byte is sent once, and block `k` has certificate `k`. -/
structure Coverage (p : PlPartition) (start first : Nat) (blocks : List Block) : Prop where
  nonempty : blocks ≠ []
  sizes : ∀ b ∈ blocks, 0 < b.length.toNat ∧ b.length.toNat ≤ p.blockSize.toNat
  data : blocks.flatMap (fun b => List.range' b.address.toNat b.length.toNat) =
    List.range' start (first - start)
  sent : blocks.flatMap (fun b => b.sent.map fun q => b.address.toNat + q.2) =
    List.range' start (first - start)
  certificates : ∀ k b, blocks[k]? = some b →
    b.certificate.toNat = first + k * xfsblAuthCertMinSize.toNat

/-- The address of the first certificate, by the words of the header. -/
def firstCertificate (h : PartitionHeader) (start : Nat) : Nat :=
  start + h.authCertificateOffset.toNat * 4 - h.dataWordOffset.toNat * 4

/-- The words agree: the certificates lie behind the data within 32 bits, and where the last of the
`n` blocks is partial the total length is that of it, of `i` certificates and `i - 1` blocks, `i` being
`n` in 8 bits. -/
structure Consistent (p : PlPartition) (start first : Nat) : Prop where
  acOfset : p.acOfset.toNat = first
  data : start < first
  last : (first - start) % p.blockSize.toNat = 0 ∨
    (p.totalLen.toNat + p.blockSize.toNat) % 2 ^ 32 =
      ((first - start) % p.blockSize.toNat + ((first - start) / p.blockSize.toNat + 1) % 256 *
        (xfsblAuthCertMinSize.toNat + p.blockSize.toNat)) % 2 ^ 32

/-! ## The blocks a run goes through -/

section Pieces

variable {D : Type} [DecidableEq D] {hw : SecHw D} {p : PlPartition} {s s' : SecState D}

/-- A block by its address, length and certificate. -/
structure Piece where
  address : Nat
  length : UInt32
  certificate : Nat

/-- The loop with `q` full blocks and `r` bytes to go. -/
def pieces (p : PlPartition) : Nat → Nat → Nat → Nat → UInt8 → List Piece
  | 0, r, src, certificate, index =>
    if r = 0 then [] else [⟨src, p.lastLen index, certificate⟩]
  | q + 1, r, src, certificate, index =>
    ⟨src, p.blockSize, certificate⟩ :: pieces p q r (src + p.blockSize.toNat)
      (certificate + xfsblAuthCertMinSize.toNat) (index + 1)

/-- The block is the piece, and each of its bytes was sent once, in order. -/
structure Block.Is (isEncrypted : Bool) (b : Block) (piece : Piece) : Prop where
  address : b.address.toNat = piece.address
  length : b.length = piece.length
  certificate : b.certificate.toNat = piece.certificate
  sent : b.sent.map Prod.snd = List.range (sentEnd isEncrypted b.length.toNat)

theorem authenticateBlock_ok {srcAddress certificate : UInt64} {len : UInt32} {x : Unit}
    (h : authenticateBlock hw p srcAddress len certificate s = .ok x s') :
    ∃ b, s'.blocks = s.blocks ++ [b] ∧
      b.Is p.isEncrypted ⟨srcAddress.toNat, len, certificate.toNat⟩ := by
  unfold authenticateBlock at h
  cases hrun : plBlockAuthentication (hw.block srcAddress) p.isEncrypted srcAddress len
      (.start s.hashsOfChunks) with
  | error code a =>
    rw [hrun] at h
    cases h
  | ok y a =>
    rw [hrun] at h
    cases h
    obtain ⟨-, first, second, -, -, hlen, -, hsent⟩ := plBlockAuthentication_ok hrun
    refine ⟨_, rfl, rfl, rfl, rfl, ?_⟩
    show a.sent.map Prod.snd = List.range (sentEnd p.isEncrypted len.toNat)
    rw [hsent, List.zipIdx_map_snd, List.range_eq_range']
    unfold sentData
    rw [List.length_take, hlen, Nat.min_eq_left (sentEnd_le _ _)]

/-- A run goes through the pieces. -/
theorem secPlBlocks_ok {q r : Nat} {src certificate : UInt64} {index : UInt8} {x : Unit}
    (hend : src.toNat + q * p.blockSize.toNat + r = p.acOfset.toNat) (hr : r < p.blockSize.toNat)
    (hcert : certificate.toNat + q * xfsblAuthCertMinSize.toNat < 2 ^ 64)
    (h : secPlBlocks hw p src certificate index s = .ok x s') :
    ∃ bs, s'.blocks = s.blocks ++ bs ∧
      List.Forall₂ (Block.Is p.isEncrypted) bs
        (pieces p q r src.toNat certificate.toNat index) := by
  have hac := p.acOfset.toNat_lt
  have hsize := p.blockSize.toNat_lt
  have hlt_iff (a : UInt64) : a < p.acOfset.toUInt64 ↔ a.toNat < p.acOfset.toNat := Iff.rfl
  induction q generalizing src certificate index s with
  | zero =>
    rw [secPlBlocks] at h
    unfold pieces
    by_cases hr0 : r = 0
    · rw [dif_neg (by rw [hlt_iff]; omega)] at h
      obtain ⟨-, rfl⟩ := pure_ok.1 h
      rw [if_pos hr0]
      exact ⟨[], (List.append_nil _).symm, .nil⟩
    · have hover : src + p.blockSize.toUInt64 > p.acOfset.toUInt64 := by
        show p.acOfset.toNat < (src + p.blockSize.toUInt64).toNat
        rw [UInt64.toNat_add, UInt32.toNat_toUInt64]
        omega
      rw [dif_pos (by rw [hlt_iff]; omega), if_pos hover] at h
      obtain ⟨_, t, hcopy, h⟩ := bind_ok.1 h
      obtain ⟨-, rfl⟩ := ensure_ok.1 hcopy
      obtain ⟨b, hblocks, his⟩ := authenticateBlock_ok h
      rw [if_neg hr0]
      exact ⟨[b], hblocks, .cons his .nil⟩
  | succ q ih =>
    rw [Nat.succ_mul] at hend hcert
    have hpos := p.blockSize_pos
    have hsrc : (src + p.blockSize.toUInt64).toNat = src.toNat + p.blockSize.toNat := by
      rw [UInt64.toNat_add, UInt32.toNat_toUInt64]
      omega
    have hnext : (certificate + xfsblAuthCertMinSize.toUInt64).toNat =
        certificate.toNat + xfsblAuthCertMinSize.toNat := by
      rw [UInt64.toNat_add, UInt32.toNat_toUInt64]
      omega
    have hwithin : ¬ src + p.blockSize.toUInt64 > p.acOfset.toUInt64 := by
      show ¬ p.acOfset.toNat < (src + p.blockSize.toUInt64).toNat
      rw [hsrc]
      omega
    rw [secPlBlocks, dif_pos (by rw [hlt_iff]; omega), if_neg hwithin] at h
    obtain ⟨_, t, hcopy, h⟩ := bind_ok.1 h
    obtain ⟨-, rfl⟩ := ensure_ok.1 hcopy
    obtain ⟨_, t, hblock, h⟩ := bind_ok.1 h
    obtain ⟨b, hblocks, his⟩ := authenticateBlock_ok hblock
    obtain ⟨bs, hrest, hall⟩ := ih (by rw [hsrc]; omega) (by rw [hnext]; omega) h
    rw [hsrc, hnext] at hall
    refine ⟨b :: bs, ?_, .cons his hall⟩
    rw [hrest, hblocks, List.append_assoc]
    rfl

/-! ### What the pieces cover -/

theorem forall₂_getElem? {α β : Type} {R : α → β → Prop} {as : List α} {bs : List β}
    (h : List.Forall₂ R as bs) {k : Nat} {a : α} (ha : as[k]? = some a) :
    ∃ b, bs[k]? = some b ∧ R a b := by
  induction h generalizing k with
  | nil => simp at ha
  | cons hab _ ih =>
    cases k with
    | zero =>
      simp only [List.getElem?_cons_zero, Option.some.injEq] at ha
      exact ⟨_, rfl, ha ▸ hab⟩
    | succ k =>
      rw [List.getElem?_cons_succ] at ha
      exact ih ha

theorem sentEnd_words {isEncrypted : Bool} {m : Nat} (h : m % 4 = 0) : sentEnd isEncrypted m = m := by
  unfold sentEnd
  cases isEncrypted with
  | true => rfl
  | false =>
    show m / 4 * 4 = m
    omega

theorem forall₂_flatMap {α β γ : Type} {R : α → β → Prop} {f : α → List γ} {g : β → List γ}
    {as : List α} {bs : List β} (h : List.Forall₂ R as bs) (hfg : ∀ a b, R a b → f a = g b) :
    as.flatMap f = bs.flatMap g := by
  induction h with
  | nil => rfl
  | cons hab _ ih => rw [List.flatMap_cons, List.flatMap_cons, ih, hfg _ _ hab]

variable {q r : Nat} {src cert : Nat} {index : UInt8}

/-- The full blocks follow each other up to the partial one. -/
theorem flatMap_pieces (f : UInt32 → Nat) (hf : f p.blockSize = p.blockSize.toNat) :
    (pieces p q r src cert index).flatMap (fun piece => List.range' piece.address (f piece.length)) =
      List.range' src (q * p.blockSize.toNat) ++ (if r = 0 then []
        else List.range' (src + q * p.blockSize.toNat) (f (p.lastLen (index + .ofNat q)))) := by
  induction q generalizing src cert index with
  | zero =>
    unfold pieces
    rw [Nat.zero_mul, Nat.add_zero, show index + .ofNat 0 = index by simp]
    by_cases hr : r = 0
    · rw [if_pos hr, if_pos hr]
      rfl
    · rw [if_neg hr, if_neg hr]
      simp
  | succ q ih =>
    have hindex : index + 1 + .ofNat q = index + .ofNat (q + 1) := by
      rw [UInt8.ofNat_add, UInt8.add_assoc, UInt8.add_comm 1]
      rfl
    unfold pieces
    rw [List.flatMap_cons, ih, hf, ← List.append_assoc, List.range'_append_1, hindex,
      show p.blockSize.toNat + q * p.blockSize.toNat = (q + 1) * p.blockSize.toNat by
        rw [Nat.succ_mul, Nat.add_comm],
      show src + p.blockSize.toNat + q * p.blockSize.toNat = src + (q + 1) * p.blockSize.toNat by
        rw [Nat.succ_mul, Nat.add_comm (q * _), Nat.add_assoc]]

theorem mem_pieces {piece : Piece} (h : piece ∈ pieces p q r src cert index) :
    piece.length = p.blockSize ∨ r ≠ 0 ∧ piece.length = p.lastLen (index + .ofNat q) := by
  induction q generalizing src cert index with
  | zero =>
    unfold pieces at h
    rw [show index + .ofNat 0 = index by simp]
    by_cases hr : r = 0
    · rw [if_pos hr] at h
      cases h
    · rw [if_neg hr, List.mem_singleton] at h
      exact .inr ⟨hr, congrArg Piece.length h⟩
  | succ q ih =>
    have hindex : index + 1 + .ofNat q = index + .ofNat (q + 1) := by
      rw [UInt8.ofNat_add, UInt8.add_assoc, UInt8.add_comm 1]
      rfl
    unfold pieces at h
    rcases List.mem_cons.1 h with rfl | h
    · exact .inl rfl
    · rw [← hindex]
      exact ih h

theorem certificate_pieces {k : Nat} {piece : Piece}
    (h : (pieces p q r src cert index)[k]? = some piece) :
    piece.certificate = cert + k * xfsblAuthCertMinSize.toNat := by
  induction q generalizing src cert index k with
  | zero =>
    unfold pieces at h
    by_cases hr : r = 0
    · rw [if_pos hr] at h
      simp at h
    · rw [if_neg hr] at h
      cases k with
      | zero =>
        simp only [List.getElem?_cons_zero, Option.some.injEq] at h
        rw [← h, Nat.zero_mul, Nat.add_zero]
      | succ k => simp at h
  | succ q ih =>
    unfold pieces at h
    cases k with
    | zero =>
      simp only [List.getElem?_cons_zero, Option.some.injEq] at h
      rw [← h, Nat.zero_mul, Nat.add_zero]
    | succ k =>
      rw [List.getElem?_cons_succ] at h
      rw [ih h, Nat.succ_mul, Nat.add_assoc, Nat.add_comm (k * _)]

theorem pieces_ne_nil (h : q ≠ 0 ∨ r ≠ 0) : pieces p q r src cert index ≠ [] := by
  cases q with
  | zero =>
    unfold pieces
    rw [if_neg (h.resolve_left (absurd rfl))]
    exact List.cons_ne_nil _ _
  | succ q => exact List.cons_ne_nil _ _

/-- The length of a partial last block, without the wrap. -/
theorem lastLen_iff {n : Nat} (hr : r < 2 ^ 32) :
    (p.lastLen (.ofNat n)).toNat = r ↔
      (p.totalLen.toNat + p.blockSize.toNat) % 2 ^ 32 =
        (r + n % 256 * (xfsblAuthCertMinSize.toNat + p.blockSize.toNat)) % 2 ^ 32 := by
  have hring : p.lastLen (.ofNat n) = .ofNat r ↔ p.totalLen + p.blockSize =
      .ofNat r + (UInt8.ofNat n).toUInt32 * (xfsblAuthCertMinSize + p.blockSize) := by
    unfold PlPartition.lastLen
    grind
  have hnat : (p.lastLen (.ofNat n)).toNat = r ↔ p.lastLen (.ofNat n) = .ofNat r := by
    rw [← UInt32.toNat_inj, UInt32.toNat_ofNat_of_lt' hr]
  have hindex : (UInt8.ofNat n).toUInt32.toNat = n % 256 := by
    rw [UInt8.toNat_toUInt32, UInt8.toNat_ofNat']
  rw [hnat, hring, ← UInt32.toNat_inj, UInt32.toNat_add, UInt32.toNat_add, UInt32.toNat_mul,
    UInt32.toNat_add, hindex, UInt32.toNat_ofNat_of_lt' hr, Nat.mul_mod_mod,
    Nat.add_mod_mod]

/-- Covering the data is what the words say. -/
theorem coverage_pieces {first : Nat} {bs : List Block} (hblock : p.blockSize.toNat % 4 = 0)
    (hdata : (first - src) % 4 = 0) (hr : r < p.blockSize.toNat) (hqr : q ≠ 0 ∨ r ≠ 0)
    (hend : src + q * p.blockSize.toNat + r = p.acOfset.toNat)
    (hall : List.Forall₂ (Block.Is p.isEncrypted) bs (pieces p q r src p.acOfset.toNat 1)) :
    Coverage p src first bs ↔
      p.acOfset.toNat = first ∧ (r = 0 ∨ (p.lastLen (1 + .ofNat q)).toNat = r) := by
  have hpos := p.blockSize_pos
  have hlengths : bs.flatMap (fun b => List.range' b.address.toNat b.length.toNat) =
      (pieces p q r src p.acOfset.toNat 1).flatMap fun piece =>
        List.range' piece.address piece.length.toNat :=
    forall₂_flatMap hall fun b piece hb => by rw [hb.address, hb.length]
  have hsent : bs.flatMap (fun b => b.sent.map fun x => b.address.toNat + x.2) =
      (pieces p q r src p.acOfset.toNat 1).flatMap fun piece =>
        List.range' piece.address (sentEnd p.isEncrypted piece.length.toNat) := by
    refine forall₂_flatMap hall fun b piece hb => ?_
    rw [show (b.sent.map fun x => b.address.toNat + x.2) =
        (b.sent.map Prod.snd).map (b.address.toNat + ·) by rw [List.map_map]; rfl,
      hb.sent, hb.address, hb.length, ← List.range'_eq_map_range]
  have hat (k : Nat) (b : Block) (hb : bs[k]? = some b) : ∃ piece,
      (pieces p q r src p.acOfset.toNat 1)[k]? = some piece ∧ b.Is p.isEncrypted piece :=
    forall₂_getElem? hall hb
  constructor
  · rintro ⟨hne, -, hcover, -, hcerts⟩
    obtain ⟨b, bs', rfl⟩ := List.exists_cons_of_ne_nil hne
    obtain ⟨piece, hpiece, his⟩ := hat 0 b rfl
    have hcert := hcerts 0 b rfl
    rw [his.certificate, certificate_pieces hpiece, Nat.zero_mul, Nat.add_zero, Nat.add_zero] at hcert
    refine ⟨hcert, or_iff_not_imp_left.2 fun hr0 => ?_⟩
    rw [hlengths, flatMap_pieces UInt32.toNat rfl, if_neg hr0] at hcover
    have hlen := congrArg List.length hcover
    rw [List.length_append, List.length_range', List.length_range', List.length_range'] at hlen
    omega
  · rintro ⟨rfl, hlast⟩
    have hr4 : r % 4 = 0 := by
      have : q * p.blockSize.toNat % 4 = 0 := by rw [Nat.mul_mod, hblock, Nat.mul_zero, Nat.zero_mod]
      omega
    have hcover (f : UInt32 → Nat) (hf : f p.blockSize = p.blockSize.toNat)
        (hfr : r ≠ 0 → f (p.lastLen (1 + .ofNat q)) = r) :
        (pieces p q r src p.acOfset.toNat 1).flatMap
          (fun piece => List.range' piece.address (f piece.length)) =
            List.range' src (p.acOfset.toNat - src) := by
      rw [flatMap_pieces f hf]
      by_cases hr0 : r = 0
      · rw [if_pos hr0, List.append_nil]
        congr 1
        omega
      · rw [if_neg hr0, hfr hr0, List.range'_append_1]
        congr 1
        omega
    have hsize (b : Block) (hb : b ∈ bs) : b.length = p.blockSize ∨ r ≠ 0 ∧ b.length.toNat = r := by
      obtain ⟨k, hk⟩ := List.mem_iff_getElem?.1 hb
      obtain ⟨piece, hpiece, his⟩ := hat k b hk
      rw [his.length]
      rcases mem_pieces (List.mem_of_getElem? hpiece) with h | ⟨hr0, h⟩
      · exact .inl h
      · exact .inr ⟨hr0, by rw [h]; exact hlast.resolve_left hr0⟩
    refine ⟨?_, fun b hb => ?_, ?_, ?_, fun k b hb => ?_⟩
    · rintro rfl
      cases hall' : pieces p q r src p.acOfset.toNat 1 with
      | nil => exact pieces_ne_nil hqr hall'
      | cons => rw [hall'] at hall; cases hall
    · rcases hsize b hb with h | ⟨hr0, h⟩
      · rw [h]
        exact ⟨hpos, Nat.le_refl _⟩
      · rw [h]
        exact ⟨Nat.pos_of_ne_zero hr0, Nat.le_of_lt hr⟩
    · rw [hlengths]
      exact hcover UInt32.toNat rfl fun hr0 => hlast.resolve_left hr0
    · rw [hsent]
      refine hcover (fun n => sentEnd p.isEncrypted n.toNat) (sentEnd_words hblock) fun hr0 => ?_
      show sentEnd p.isEncrypted (p.lastLen (1 + .ofNat q)).toNat = r
      rw [hlast.resolve_left hr0, sentEnd_words hr4]
    · obtain ⟨piece, hpiece, his⟩ := hat k b hb
      rw [his.certificate, certificate_pieces hpiece]

end Pieces

/-! ## Headers whose words agree -/

section Headers

variable {D : Type} [DecidableEq D] {hw : SecHw D} {p : PlPartition} {s s' : SecState D}

theorem secPlPartition_ok {x : Unit} (h : secPlPartition hw p s = .ok x s') :
    secPlBlocks hw p p.startAddress p.acOfset.toUInt64 1 s = .ok x s' := by
  unfold secPlPartition at h
  obtain ⟨_, t, hauth, h⟩ := bind_ok.1 h
  obtain ⟨-, rfl⟩ := ensure_ok.1 hauth
  by_cases henc : p.isEncrypted = true
  · rw [if_pos henc] at h
    obtain ⟨_, t, haes, h⟩ := bind_ok.1 h
    unfold checkSecureAes at haes
    cases hkey : p.secureAes with
    | none =>
      rw [hkey] at haes
      simp at haes
    | some aes =>
      rw [hkey] at haes
      obtain ⟨-, rfl⟩ := ensure_ok.1 haes
      exact h
  · rwa [if_neg henc] at h

/-- The parameters of a run that succeeds. -/
theorem coverage_consistent {first : Nat} {x : Unit} (hblock : p.blockSize.toNat % 4 = 0)
    (hdata : (first - p.startAddress.toNat) % 4 = 0) (hs : s.blocks = [])
    (h : secPlPartition hw p s = .ok x s') :
    Coverage p p.startAddress.toNat first s'.blocks ↔ Consistent p p.startAddress.toNat first := by
  have hrun := secPlPartition_ok h
  have hpos := p.blockSize_pos
  have hac := p.acOfset.toNat_lt
  by_cases hlt : p.startAddress.toNat < p.acOfset.toNat
  · let len := p.acOfset.toNat - p.startAddress.toNat
    let q := len / p.blockSize.toNat
    let r := len % p.blockSize.toNat
    have hr : r < p.blockSize.toNat := Nat.mod_lt _ hpos
    have hlen : q * p.blockSize.toNat + r = len := by
      rw [Nat.mul_comm]
      exact Nat.div_add_mod _ _
    have hend : p.startAddress.toNat + q * p.blockSize.toNat + r = p.acOfset.toNat := by
      rw [Nat.add_assoc, hlen]
      exact Nat.add_sub_cancel' (Nat.le_of_lt hlt)
    have hq : q ≤ len := Nat.div_le_self _ _
    have hcert : p.acOfset.toUInt64.toNat + q * xfsblAuthCertMinSize.toNat < 2 ^ 64 := by
      rw [UInt32.toNat_toUInt64, show xfsblAuthCertMinSize.toNat = 3776 from rfl]
      omega
    have hqr : q ≠ 0 ∨ r ≠ 0 := by
      by_contra hnone
      obtain ⟨hq0, hr0⟩ := not_or.1 hnone
      rw [not_not] at hq0 hr0
      rw [hq0, hr0] at hlen
      omega
    obtain ⟨bs, hblocks, hall⟩ := secPlBlocks_ok hend hr hcert hrun
    rw [hs, List.nil_append] at hblocks
    rw [hblocks, coverage_pieces hblock hdata hr hqr hend hall,
      show (1 : UInt8) + .ofNat q = .ofNat (q + 1) by rw [UInt8.ofNat_add, UInt8.add_comm]; rfl,
      lastLen_iff (by have := p.blockSize.toNat_lt; omega)]
    constructor
    · rintro ⟨rfl, hlast⟩
      exact ⟨rfl, hlt, hlast⟩
    · rintro ⟨rfl, -, hlast⟩
      exact ⟨rfl, hlast⟩
  · have hdone : ¬ p.startAddress < p.acOfset.toUInt64 := hlt
    rw [secPlBlocks, dif_neg hdone] at hrun
    obtain ⟨-, rfl⟩ := pure_ok.1 hrun
    rw [hs]
    exact ⟨fun hc => absurd rfl hc.nonempty, fun hc => absurd (hc.acOfset ▸ hc.data) hlt⟩

theorem getBlockSize_words (h : PartitionHeader) : h.getBlockSize.toNat % 4 = 0 := by
  unfold PartitionHeader.getBlockSize
  dsimp only
  generalize (h.partitionAttributes &&& xihPhAttrBlockSizeMask) >>> 20 = size
  by_cases hsize : size ≠ 0
  · rw [if_pos hsize, UInt32.toNat_mul, show (1024 * 1024 : UInt32).toNat = 1048576 from rfl]
    omega
  · rw [if_neg hsize, not_not.1 hsize]
    rfl

/-- **Secure bitstream coverage**: a run that succeeds has authenticated the data of the bitstream,
block by block, each under its certificate, exactly where the words of the header agree. -/
theorem coverage_iff {x : Unit} (loadFromOcm : Bool) (imageOffsetAddress : UInt32)
    (h : PartitionHeader) (loadAddress : UInt64) (hsize : 0 < h.getBlockSize.toNat)
    (hs : s.blocks = [])
    (hrun : secPlPartition hw (.ofHeader loadFromOcm imageOffsetAddress h loadAddress hsize) s =
      .ok x s') :
    let p := PlPartition.ofHeader loadFromOcm imageOffsetAddress h loadAddress hsize
    let start := p.startAddress.toNat
    Coverage p start (firstCertificate h start) s'.blocks ↔
      Consistent p start (firstCertificate h start) := by
  refine coverage_consistent (getBlockSize_words h) ?_ hs hrun
  unfold firstCertificate
  omega

end Headers

/-! ## Two headers -/

/-- A signed bitstream for the PL in blocks of 4 MiB. -/
def signedBitstream (words totalWords authCertificateOffset : UInt32) : PartitionHeader :=
  { PartitionHeader.zero with
    encryptedDataWordLength := words
    unEncryptedDataWordLength := words
    totalDataWordLength := totalWords
    destinationLoadAddress := 0x100000
    authCertificateOffset := authCertificateOffset
    partitionAttributes := xihPhAttrbRsaSignature ||| xihPhAttrbDestDevicePl ||| 0x100000 }

/-- Every copy and every block succeeds; the memory is zero. -/
def zeroSecHw : SecHw (List UInt8) where
  copyCertificate _ := xfsblSuccess
  block address := probeHw id address fun _ _ => 0

def zeroSecState : SecState (List UInt8) := ⟨fun _ => [], []⟩

/-- One word and its certificate. -/
def oneWordBitstream : PartitionHeader := signedBitstream 1 945 1

def oneWordParams : PlPartition := .ofHeader false 0 oneWordBitstream 0x100000 (by decide)

theorem oneWordBitstream_run :
    ∃ s', secPlPartition zeroSecHw oneWordParams zeroSecState = .ok () s' := by
  obtain ⟨a, ha, -, -⟩ := @plBlockAuthentication_run (List UInt8) id 0x100000
    (fun _ _ => 0) 4 false _ (by decide) (fun _ _ => rfl) fun _ => []
  have hblock : authenticateBlock zeroSecHw oneWordParams 0x100000 4 0x100004 zeroSecState =
      .ok () ⟨a.hashsOfChunks, [⟨0x100000, 4, 0x100004, a.sent⟩]⟩ := by
    unfold authenticateBlock
    rw [show plBlockAuthentication (zeroSecHw.block 0x100000) oneWordParams.isEncrypted 0x100000 4
      (.start zeroSecState.hashsOfChunks) = .ok () a from ha]
    rfl
  have hrun : secPlBlocks zeroSecHw oneWordParams 0x100000 0x100004 1 zeroSecState =
      .ok () ⟨a.hashsOfChunks, [⟨0x100000, 4, 0x100004, a.sent⟩]⟩ := by
    rw [secPlBlocks, dif_pos (by decide), if_pos (by decide),
      show oneWordParams.lastLen 1 = 4 by decide]
    exact hblock
  exact ⟨_, hrun⟩

/-- Its coverage. -/
theorem coverage_oneWordBitstream : ∃ s', secPlPartition zeroSecHw oneWordParams zeroSecState =
      .ok () s' ∧
    (Coverage oneWordParams 0x100000 (firstCertificate oneWordBitstream 0x100000) s'.blocks ↔
      Consistent oneWordParams 0x100000 (firstCertificate oneWordBitstream 0x100000)) := by
  obtain ⟨s', hrun⟩ := oneWordBitstream_run
  exact ⟨s', hrun, coverage_iff false 0 oneWordBitstream 0x100000 (by decide) rfl hrun⟩

/-- Certificates at the start of the data. -/
def emptyBitstream : PartitionHeader := signedBitstream 1 945 0

def emptyParams : PlPartition := .ofHeader false 0 emptyBitstream 0x100000 (by decide)

/-- A run without a block. -/
theorem emptyBitstream_run :
    secPlPartition zeroSecHw emptyParams zeroSecState = .ok () zeroSecState := by
  have hblocks : secPlBlocks zeroSecHw emptyParams 0x100000 0x100000 1 zeroSecState =
      .ok () zeroSecState := by
    rw [secPlBlocks, dif_neg (by decide)]
    rfl
  exact hblocks

theorem not_coverage :
    ¬ ∀ (hw : SecHw (List UInt8)) (loadFromOcm : Bool) (imageOffsetAddress : UInt32)
      (h : PartitionHeader) (loadAddress : UInt64) (hsize : 0 < h.getBlockSize.toNat)
      (runningCpu resetType efuseSecCtrl : UInt32) (s s' : SecState (List UInt8)),
      validatePartitionHeader h runningCpu resetType efuseSecCtrl = xfsblSuccess →
      h.toPl = true → h.authenticated = true → s.blocks = [] →
      secPlPartition hw (.ofHeader loadFromOcm imageOffsetAddress h loadAddress hsize) s =
          .ok () s' →
        let p := PlPartition.ofHeader loadFromOcm imageOffsetAddress h loadAddress hsize
        let start := p.startAddress.toNat
        Coverage p start (firstCertificate h start) s'.blocks := by
  intro hall
  exact (hall zeroSecHw false 0 emptyBitstream 0x100000 (by decide) xihPhAttrbDestCpuA53_0
    xfsblSystemReset 0 zeroSecState zeroSecState (by decide) (by decide) (by decide) rfl
    emptyBitstream_run).nonempty rfl

end MeasuredBoot.PlAuth
