import MeasuredBoot.BitstreamLoop

/-!
# Chunks of an encrypted bitstream

A chunk takes the processor from one place of the bitstream to the place behind it, unless it ends a
header that was copied wrong: that header is sent as it is, and nothing sent is taken back.
`chunkSplit_iff`: what the engine is sent does not depend on the chunks exactly where none is empty and
the copies of the headers they cut are right. With DDR they are; `DeviceCopy` reads the boot device at
the address of the chunk buffer.
-/

namespace MeasuredBoot.PlDecrypt

open Prog
open MeasuredBoot.Stream (secureHdrSize)

/-! ## A chunk -/

section Machine

variable {cfg : PlConfig} {s s' : PlState} {bs : List Block} {rest hdr : List UInt8}
  {e k n src : Nat} {size : UInt32} {p : Place}

theorem Follows.length_le {e : AesEngine} {past : List Item} (h : Follows e past bs) :
    bs.length * 64 ≤ (blockBytes bs).length := by
  induction bs generalizing past with
  | nil => exact Nat.le_refl _
  | cons b bs ih =>
    obtain ⟨-, -, -, -, hhdr, hnext⟩ := h
    have := ih hnext
    show (bs.length + 1) * 64 ≤ (b.data ++ b.hdr ++ blockBytes bs).length
    rw [List.length_append, List.length_append]
    omega

theorem InHeader.rebase (h : InHeader cfg e s 0 hdr bs) (e' : Nat) :
    InHeader cfg e' s 0 hdr bs := by
  refine ⟨h.sizeofData, h.cut, h.words, h.length, h.next, h.carry, ?_, h.follows⟩
  show [] = cfg.copyData [] _
  rw [copyData_nil]

theorem decrptPl_data {xs : List UInt8} (h : InData cfg s rest hdr bs)
    (hlen : (blockBytes bs).length < 2 ^ 32) (hsrc : src % 4 = 0) (hwords : size.toNat % 4 = 0)
    (he : src + size.toNat = e)
    (hload : s.chunk.load src size.toNat ++ xs = rest ++ hdr ++ blockBytes bs) :
    ∃ s', decrptPl cfg src size s = .ok () s' ∧
      Sent cfg e (.data rest hdr bs) size.toNat s s' :=
  have hle := h.follows.length_le
  decrptPlLoop_run h (by omega) hsrc hwords he hload

/-- From the start of a block, or at the end of the stream. -/
theorem decrptPl_next {xs : List UInt8} (hplace : At cfg e s (skip bs 0))
    (hdata : ∀ b ∈ bs.head?, b.data ≠ []) (hlen : (blockBytes bs).length < 2 ^ 32)
    (hsrc : src % 4 = 0) (hwords : size.toNat % 4 = 0) (he : src + size.toNat = e)
    (hload : s.chunk.load src size.toNat ++ xs = blockBytes bs) :
    ∃ s', decrptPl cfg src size s = .ok () s' ∧ Sent cfg e (skip bs 0) size.toNat s s' := by
  cases bs with
  | nil =>
    have hl := congrArg List.length hload
    rw [List.length_append, Mem.length_load] at hl
    have hzero : size.toNat = 0 := by
      change _ = 0 at hl
      omega
    obtain rfl : size = 0 := UInt32.toNat_inj.1 hzero
    exact ⟨s, decrptPlLoop_last (decrptPlPass_last (decrptData_header hplace.2)), hplace, rfl⟩
  | cons b bs =>
    have hne : b.data ≠ [] := hdata b rfl
    rw [skip_zero_cons hne] at hplace ⊢
    have hlen' : (blockBytes bs).length < 2 ^ 32 := by
      have hb : (blockBytes (b :: bs)).length = b.bytes.length + (blockBytes bs).length :=
        List.length_append
      omega
    exact decrptPl_data hplace hlen' hsrc hwords he hload

/-- A chunk that begins with a header. -/
theorem decrptPl_header {xs : List UInt8} (h : InHeader cfg e s 0 hdr bs)
    (hlen : (blockBytes bs).length < 2 ^ 32) (hsrc : src % 4 = 0) (hwords : size.toNat % 4 = 0)
    (hsize : 64 ≤ size.toNat)
    (hload : s.chunk.load src size.toNat ++ xs = hdr ++ blockBytes bs) :
    ∃ s', decrptPl cfg src size s = .ok () s' ∧
      Sent cfg (src + size.toNat) (.header 0 hdr bs) size.toNat s s' := by
  have hhdr : s.chunk.load src 64 = hdr := by
    rw [load_take hload hsize, List.take_left' h.length]
  obtain ⟨t, hrun, hsent, hchunk⟩ := @decrptHeader_run cfg s bs hdr (src + size.toNat) src size 0
    (h.rebase _) hsrc hhdr
  let l := size - xfsblAesTagSize
  have hl : l.toNat = size.toNat - 64 := UInt32.toNat_sub_of_le _ _ (UInt32.le_iff_toNat_le.2 hsize)
  have hpass : decrptPlPass cfg src size 0 s =
      .ok (if l ≠ 0 ∧ t.sizeofData ≠ 0 then some (src + 64, l, src + 64) else none) t := by
    have hne : size ≠ 0 := by
      rintro rfl
      exact absurd hsize (by decide)
    unfold decrptPlPass
    rw [bind_apply, decrptData_header h.sizeofData]
    dsimp only
    rw [bind_apply]
    show (if s.sizeofData = 0 ∧ size ≠ 0 then _ else _ : Pl (Option (Nat × UInt32 × Nat))) s = _
    rw [if_pos ⟨h.sizeofData, hne⟩, hrun]
  have hload' : t.chunk.load (src + 64) l.toNat ++ xs = blockBytes bs := by
    have hsuffix := load_drop hload hsize
    rwa [List.drop_left' h.length, ← hchunk, ← hl] at hsuffix
  have hle := h.follows.length_le
  obtain ⟨s', hloop, hsent'⟩ := @decrptPlLoop_next cfg t bs (src + size.toNat) (src + 64) l xs
    4294967295 hsent.place h.follows.head hload' fun b bs' hbs hb => by
      subst hbs
      rw [List.length_cons] at hle
      exact decrptPlLoop_run hb (by omega) (by omega) (by omega) (by omega) hload'
  have hall := hsent.trans hsent'
  rw [show 64 + l.toNat = size.toNat by omega] at hall
  refine ⟨s', ?_, hall⟩
  show decrptPlLoop cfg (4294967295 + 1) src size 0 s = _
  rw [decrptPlLoop, bind_apply, hpass]
  exact hloop

/-- What `XFsbl_CopyData` puts together of a header whose first `k` bytes ended at `e`; the rest lies at
the start of the chunk buffer. -/
def PlConfig.assembled (cfg : PlConfig) (e k : Nat) (hdr : List UInt8) : List UInt8 :=
  cfg.copyData (hdr.take k) (e - k) ++ cfg.copyData (hdr.drop k) cfg.chunkBuffer

/-- The state of `XFsbl_DecrptPlChunks` with the header put together. -/
def PlState.assemble (s : PlState) (cfg : PlConfig) (k : Nat) (hdr : List UInt8) : PlState :=
  { s.note [.minus xfsblAesTagSize s.hdr.toUInt32, .read cfg.chunkBuffer (64 - k), .carry k (64 - k)] with
    secureHdr := s.secureHdr.store k (cfg.copyData (hdr.drop k) cfg.chunkBuffer) }

theorem assemble_load (h : InHeader cfg e s k hdr bs) :
    (s.assemble cfg k hdr).secureHdr.load 0 64 = cfg.assembled e k hdr := by
  have hlen : (cfg.copyData (hdr.drop k) cfg.chunkBuffer).length = 64 - k := by
    rw [length_copyData, List.length_drop, h.length]
  have hcut := h.cut
  have htail := Mem.load_store s.secureHdr k (cfg.copyData (hdr.drop k) cfg.chunkBuffer)
  rw [hlen] at htail
  unfold PlConfig.assembled
  rw [← h.kept, show 64 = k + (64 - k) by omega, Mem.load_add, Nat.zero_add]
  unfold PlState.assemble
  dsimp only
  rw [htail, Mem.load_store_disj (by omega)]

theorem InHeader.size_rest (h : InHeader cfg e s k hdr bs) :
    (xfsblAesTagSize - s.hdr.toUInt32).toNat = 64 - k := by
  have hcut := h.cut
  have hk : s.hdr.toUInt32.toNat = k := by rw [UInt8.toNat_toUInt32, h.carry]
  rw [UInt32.toNat_sub_of_le _ _ (UInt32.le_iff_toNat_le.2 (by rw [hk]; show k ≤ 64; omega)), hk]
  rfl

theorem decrptCut_eq {xs : List UInt8} (h : InHeader cfg e s k hdr bs)
    (hsize : 64 - k ≤ size.toNat)
    (hload : s.chunk.load cfg.chunkBuffer size.toNat ++ xs = hdr.drop k ++ blockBytes bs) :
    decrptCut cfg cfg.chunkBuffer size s =
      (decrypSecureHdr cfg cfg.secureHdr (cfg.assembled e k hdr) >>= fun _ =>
        decrptBehind cfg cfg.chunkBuffer size (xfsblAesTagSize - s.hdr.toUInt32))
          (s.assemble cfg k hdr) := by
  have hdrop : (hdr.drop k).length = 64 - k := by rw [List.length_drop, h.length]
  have hbytes : s.chunk.load cfg.chunkBuffer (64 - k) = hdr.drop k := by
    rw [load_take hload hsize, List.take_left' hdrop]
  let bytes := cfg.copyData
    (s.chunk.load cfg.chunkBuffer (xfsblAesTagSize - s.hdr.toUInt32).toNat) cfg.chunkBuffer
  have hstate : { s.note [.minus xfsblAesTagSize s.hdr.toUInt32,
        .read cfg.chunkBuffer (xfsblAesTagSize - s.hdr.toUInt32).toNat,
        .carry s.hdr.toNat (xfsblAesTagSize - s.hdr.toUInt32).toNat] with
      secureHdr := s.secureHdr.store s.hdr.toNat bytes } = s.assemble cfg k hdr := by
    have hcopied : bytes = cfg.copyData (hdr.drop k) cfg.chunkBuffer := by
      show cfg.copyData (s.chunk.load _ _) _ = _
      rw [h.size_rest, hbytes]
    unfold PlState.assemble
    rw [h.carry, hcopied, h.size_rest]
  unfold decrptCut
  let u : PlState := { s.note [.minus xfsblAesTagSize s.hdr.toUInt32,
      .read cfg.chunkBuffer (xfsblAesTagSize - s.hdr.toUInt32).toNat,
      .carry s.hdr.toNat (xfsblAesTagSize - s.hdr.toUInt32).toNat] with
    secureHdr := s.secureHdr.store s.hdr.toNat bytes }
  show (decrypSecureHdr cfg cfg.secureHdr (u.secureHdr.load 0 64) >>= _) u = _
  rw [show u = s.assemble cfg k hdr from hstate, assemble_load h]

theorem advance_header (hk : k < 64) : (Place.header k hdr bs).advance (64 - k) = skip bs 0 := by
  show (if k + (64 - k) < 64 then _ else _) = _
  rw [if_neg (by omega), show k + (64 - k) - 64 = 0 by omega]

/-- A chunk behind one that cut a header, with the header put together right. -/
theorem decrptCut_run {xs : List UInt8} (h : InHeader cfg e s k hdr bs)
    (hright : cfg.assembled e k hdr = hdr) (hlen : (blockBytes bs).length < 2 ^ 32)
    (hwords : size.toNat % 4 = 0) (hsize : 64 - k ≤ size.toNat)
    (hload : s.chunk.load cfg.chunkBuffer size.toNat ++ xs = hdr.drop k ++ blockBytes bs) :
    ∃ s', decrptCut cfg cfg.chunkBuffer size s = .ok () s' ∧
      Sent cfg (cfg.chunkBuffer + size.toNat) (.header k hdr bs) size.toNat s s' := by
  have hcut := h.cut
  have hk := h.words
  have hbuf := cfg.chunkBuffer_aligned
  let rest := xfsblAesTagSize - s.hdr.toUInt32
  let l := size - rest
  have hrest : rest.toNat = 64 - k := h.size_rest
  have hl : l.toNat = size.toNat - (64 - k) := by
    rw [UInt32.toNat_sub_of_le _ _ (UInt32.le_iff_toNat_le.2 (by omega)), hrest]
  let u := ((s.assemble cfg k hdr).sendHeader cfg.secureHdr hdr).note [.minus size rest]
  let next := cfg.engine.nextBlkLen (items u.transfers)
  let t : PlState := { u.note [.carry 0 64] with
    hdr := 0
    secureHdr := u.secureHdr.store 0 (List.replicate xfsblAesTagSize.toNat 0)
    nextBlkLen := next
    sizeofData := next }
  have hitems : items t.transfers = items s.transfers ++ headerItems hdr := items_sendHeader _ cfg.secureHdr hdr
  have hfollows : Follows cfg.engine (items t.transfers) bs := by
    rw [hitems]
    exact h.follows
  have hplace : At cfg (cfg.chunkBuffer + size.toNat) t (skip bs 0) :=
    at_next hfollows rfl rfl rfl
  have hmid : Sent cfg (cfg.chunkBuffer + size.toNat) (.header k hdr bs) (64 - k) s t := by
    refine ⟨by rwa [advance_header hcut], ?_⟩
    rw [advance_header hcut, hfollows.items_skip, hitems, List.append_assoc]
    rfl
  have hload' : t.chunk.load (cfg.chunkBuffer + rest.toNat) l.toNat ++ xs = blockBytes bs := by
    have hdrop : (hdr.drop k).length = rest.toNat := by rw [List.length_drop, h.length, hrest]
    have hsuffix := load_drop hload (j := rest.toNat) (by omega)
    rwa [List.drop_left' hdrop, hrest, ← hl, ← hrest] at hsuffix
  have heq : decrptCut cfg cfg.chunkBuffer size s =
      (if (if l ≠ 0 then cfg.chunkBuffer + rest.toNat else 0) ≠ 0 ∧ t.sizeofData ≠ 0 then
        decrptPl cfg (if l ≠ 0 then cfg.chunkBuffer + rest.toNat else 0) l else pure ()) t := by
    rw [decrptCut_eq h hsize hload, hright, bind_apply,
      decrypSecureHdr_run (s := s.assemble cfg k hdr) cfg.secureHdr_aligned h.follows]
    rfl
  rw [heq]
  by_cases hl0 : l = 0
  · have hsame : size.toNat = 64 - k := by
      rw [hl0, show (0 : UInt32).toNat = 0 from rfl] at hl
      omega
    rw [if_neg (by rw [hl0]; simp), hsame]
    rw [hsame] at hmid
    exact ⟨t, rfl, hmid⟩
  · rw [if_pos hl0]
    have hpos : l.toNat ≠ 0 := fun h0 => hl0 (UInt32.toNat_inj.1 h0)
    obtain ⟨s', hrun, hsent⟩ := decrptPl_next hplace hfollows.head hlen
      (show (cfg.chunkBuffer + rest.toNat) % 4 = 0 by omega) (show l.toNat % 4 = 0 by omega)
      (show cfg.chunkBuffer + rest.toNat + l.toNat = cfg.chunkBuffer + size.toNat by omega) hload'
    obtain ⟨-, -, -, -, hsizeof⟩ := next_block hplace hfollows.head hload' hl0
    rw [if_pos ⟨by omega, hsizeof⟩]
    rw [← advance_header hcut] at hsent
    have hall := hmid.trans hsent
    rw [show 64 - k + l.toNat = size.toNat by omega] at hall
    exact ⟨s', hrun, hall⟩

/-- The state before the first chunk. -/
structure Fresh (s : PlState) : Prop where
  nextBlkLen : s.nextBlkLen = 0
  hdr : s.hdr = 0
  transfers : s.transfers = []

/-- The first chunk of a stream. -/
theorem decrptFirst_run {st : EncStream} {xs : List UInt8} (hfresh : Fresh s)
    (hst : st.WellFormed cfg.engine) (hsrc : src % 4 = 0) (hwords : size.toNat % 4 = 0)
    (hsize : 64 ≤ size.toNat) (hload : s.chunk.load src size.toNat ++ xs = st.bytes) :
    ∃ s', decrptFirst cfg src size s = .ok () s' ∧
      At cfg (src + size.toNat) s' (skip st.blocks (size.toNat - 64)) ∧
      items s'.transfers ++ (skip st.blocks (size.toNat - 64)).items =
        headerItems st.first ++ blockItems st.blocks := by
  let l := size - xfsblAesTagSize
  have hl : l.toNat = size.toNat - 64 := UInt32.toNat_sub_of_le _ _ (UInt32.le_iff_toNat_le.2 hsize)
  have hfirst : s.chunk.load src 64 = st.first := by
    rw [load_take hload hsize]
    exact List.take_left' hst.first
  let s₁ : PlState := { s with sizeofData := .ofNat secureHdrSize }
  let u := s₁.sendHeader src st.first
  have hitems : items u.transfers = headerItems st.first := by
    rw [items_sendHeader, show s₁.transfers = s.transfers from rfl, hfresh.transfers]
    rfl
  let next := cfg.engine.nextBlkLen (items u.transfers)
  let t : PlState := { u.note [.minus size xfsblAesTagSize] with nextBlkLen := next, sizeofData := next }
  have hfollows : Follows cfg.engine (items s₁.transfers ++ headerItems st.first) st.blocks := by
    rw [show s₁.transfers = s.transfers from rfl, hfresh.transfers]
    exact hst.blocks
  have hfollows' : Follows cfg.engine (items t.transfers) st.blocks := by
    rw [show t.transfers = u.transfers from rfl, hitems]
    exact hst.blocks
  have hplace : At cfg (src + size.toNat) t (skip st.blocks 0) :=
    at_next hfollows' hfresh.hdr rfl rfl
  have hload' : t.chunk.load (src + 64) l.toNat ++ xs = blockBytes st.blocks := by
    have hsuffix := load_drop hload hsize
    rw [← hl] at hsuffix
    exact hsuffix.trans (List.drop_left' hst.first)
  have hlen : (blockBytes st.blocks).length < 2 ^ 32 := by
    have hbytes := hst.size
    rw [EncStream.bytes, List.length_append] at hbytes
    omega
  obtain ⟨s', hrun, hsent⟩ := decrptPl_next hplace hfollows'.head hlen
    (show (src + 64) % 4 = 0 by omega) (show l.toNat % 4 = 0 by omega)
    (show src + 64 + l.toNat = src + size.toNat by omega) hload'
  have hadvance : (skip st.blocks 0).advance l.toNat = skip st.blocks (size.toNat - 64) := by
    rw [skip_advance, Nat.zero_add, hl]
  refine ⟨s', ?_, hadvance ▸ hsent.place, ?_⟩
  · show (decrypSecureHdr cfg src (s₁.chunk.load src 64) >>= _) s₁ = _
    rw [bind_apply, show s₁.chunk.load src 64 = st.first from hfirst, decrypSecureHdr_run hsrc hfollows]
    exact hrun
  · have hall := hsent.items
    rw [hadvance, hfollows'.items_skip, show items t.transfers = items u.transfers from rfl,
      hitems] at hall
    exact hall

theorem At.store (h : At cfg e s p) (m : Mem) : At cfg e { s with chunk := m } p := by
  cases p with
  | data rest hdr bs =>
    exact ⟨h.sizeofData, h.nonempty, h.words, h.fits, h.length, h.next, h.carry, h.follows⟩
  | header k hdr bs =>
    exact ⟨h.sizeofData, h.cut, h.words, h.length, h.next, h.carry, h.kept, h.follows⟩
  | done => exact h

theorem feedChunk_eq (c : List UInt8) :
    feedChunk cfg c s = decrptPlChunks cfg cfg.chunkBuffer (.ofNat c.length) (s.receive cfg c) := rfl

theorem decrptPlChunks_first (h : s.nextBlkLen = 0) :
    decrptPlChunks cfg src size s = decrptFirst cfg src size s := by
  show (if s.nextBlkLen = 0 then _ else _ : Pl Unit) s = _
  rw [if_pos h]

theorem decrptPlChunks_cut (hnext : s.nextBlkLen ≠ 0) (hhdr : s.hdr ≠ 0) :
    decrptPlChunks cfg src size s = decrptCut cfg src size s := by
  show (if s.nextBlkLen = 0 then _ else _ : Pl Unit) s = _
  rw [if_neg hnext, if_pos hhdr]

theorem decrptPlChunks_on (hnext : s.nextBlkLen ≠ 0) (hhdr : s.hdr = 0) :
    decrptPlChunks cfg src size s = decrptPl cfg src size s := by
  show (if s.nextBlkLen = 0 then _ else _ : Pl Unit) s = _
  rw [if_neg hnext, if_neg (not_not_intro hhdr)]

theorem InHeader.carried (h : InHeader cfg e s k hdr bs) (hk : 0 < k) : s.hdr ≠ 0 := by
  intro h0
  have := h.carry
  rw [h0, show (0 : UInt8).toNat = 0 from rfl] at this
  omega

/-- The chunk has the rest of the header. -/
theorem InHeader.whole {c xs : List UInt8} (h : InHeader cfg e s k hdr bs)
    (hbytes : c ++ xs = (Place.header k hdr bs).bytes) (hsize : xs ≠ [] → 64 ≤ c.length) :
    64 - k ≤ c.length := by
  by_cases hxs : xs = []
  · subst hxs
    rw [List.append_nil] at hbytes
    have hb : (Place.header k hdr bs).bytes = hdr.drop k ++ blockBytes bs := rfl
    rw [hbytes, hb, List.length_append, List.length_drop, h.length]
    omega
  · have := hsize hxs
    omega

theorem receive_load (xs : List UInt8) {c : List UInt8} (hlt : c.length < 2 ^ 32) :
    (s.receive cfg c).chunk.load cfg.chunkBuffer (UInt32.ofNat c.length).toNat ++ xs = c ++ xs := by
  rw [UInt32.toNat_ofNat_of_lt' hlt]
  exact congrArg (· ++ xs) (Mem.load_store _ _ _)

/-- A chunk of a stream, with a cut header put together right. -/
theorem feedChunk_run {c xs : List UInt8} (hplace : At cfg e s p) (hbytes : c ++ xs = p.bytes)
    (hlen : p.bytes.length < 2 ^ 32) (hc : c ≠ []) (hwords : c.length % 4 = 0)
    (hsize : xs ≠ [] → 64 ≤ c.length)
    (hright : ∀ k hdr bs, p = .header k hdr bs → 0 < k → cfg.assembled e k hdr = hdr) :
    ∃ s', feedChunk cfg c s = .ok () s' ∧
      Sent cfg (cfg.chunkBuffer + c.length) p c.length s s' := by
  have hlt : c.length < 2 ^ 32 := by
    rw [← hbytes, List.length_append] at hlen
    omega
  let size := UInt32.ofNat c.length
  have hsizeNat : size.toNat = c.length := UInt32.toNat_ofNat_of_lt' hlt
  let u := s.receive cfg c
  have hload : u.chunk.load cfg.chunkBuffer size.toNat ++ xs = p.bytes :=
    (receive_load xs hlt).trans hbytes
  have hu : At cfg e u p := hplace.store _
  have hwordsNat : size.toNat % 4 = 0 := by rw [hsizeNat, hwords]
  have hchunk : ∃ s', decrptPlChunks cfg cfg.chunkBuffer size u = .ok () s' ∧
      Sent cfg (cfg.chunkBuffer + size.toNat) p size.toNat u s' := by
    cases p with
    | data rest hdr bs =>
      have hblocks : (blockBytes bs).length < 2 ^ 32 := by
        have hb : (Place.data rest hdr bs).bytes = rest ++ hdr ++ blockBytes bs := rfl
        rw [hb, List.length_append] at hlen
        omega
      rw [decrptPlChunks_on hu.next hu.carry]
      exact decrptPl_data hu hblocks cfg.chunkBuffer_aligned hwordsNat rfl hload
    | header k hdr bs =>
      have hb : (Place.header k hdr bs).bytes = hdr.drop k ++ blockBytes bs := rfl
      have hblocks : (blockBytes bs).length < 2 ^ 32 := by
        rw [hb, List.length_append] at hlen
        omega
      have hwhole : 64 - k ≤ size.toNat := by rw [hsizeNat]; exact hu.whole hbytes hsize
      by_cases hk : k = 0
      · subst hk
        rw [decrptPlChunks_on hu.next (UInt8.toNat_inj.1 hu.carry)]
        exact decrptPl_header hu hblocks cfg.chunkBuffer_aligned hwordsNat hwhole hload
      · have hpos : 0 < k := Nat.pos_of_ne_zero hk
        rw [decrptPlChunks_cut hu.next (hu.carried hpos)]
        exact decrptCut_run hu (hright k hdr bs rfl hpos) hblocks hwordsNat hwhole hload
    | done => exact absurd (List.append_eq_nil_iff.1 hbytes).1 hc
  obtain ⟨s', hrun, hsent⟩ := hchunk
  rw [hsizeNat] at hsent
  exact ⟨s', hrun, hsent.place, hsent.items⟩

end Machine

/-! ## Nothing sent is taken back -/

section Appends

variable (cfg : PlConfig)

def Appends (s s' : PlState) : Prop := items s.transfers <+: items s'.transfers

instance : IsPreorder PlState Appends where
  refl _ := List.prefix_rfl
  trans _ _ _ := List.IsPrefix.trans

theorem frame_keep {f : PlState → PlState} (hf : ∀ s, (f s).transfers = s.transfers) :
    Frame (ε := Halt) Appends (modify f : EStateM Halt PlState PUnit) := by
  refine frame_modify fun s => ?_
  unfold Appends
  rw [hf]

theorem frame_dmaPlCopy (src : Nat) (size : UInt32) (t : Transfer) :
    Frame Appends (dmaPlCopy src size t) := by
  refine frame_ite (fun _ => frame_modify fun s => ?_) fun _ => frame_throw _
  unfold Appends
  rw [items_append]
  exact List.prefix_append _ _

theorem frame_decrypSecureHdr (src : Nat) (bytes : List UInt8) :
    Frame Appends (decrypSecureHdr cfg src bytes) := by
  refine frame_bind (frame_dmaPlCopy _ _ _) fun _ => frame_bind (frame_dmaPlCopy _ _ _) fun _ => ?_
  exact frame_bind frame_get fun s => frame_ite (fun _ => frame_pure _) fun _ => frame_throw _

theorem frame_decrptSetUpNextBlk : Frame Appends (decrptSetUpNextBlk cfg) := frame_keep fun _ => rfl

theorem frame_decrptData (src : Nat) (size : UInt32) : Frame Appends (decrptData cfg src size) := by
  refine frame_bind frame_get fun s => frame_ite (fun _ => ?_) fun _ => frame_ite (fun _ => ?_)
    fun _ => frame_pure _
  · exact frame_bind (frame_dmaPlCopy _ _ _) fun _ =>
      frame_bind (frame_keep fun _ => rfl) fun _ => frame_pure _
  · refine frame_bind (frame_dmaPlCopy _ _ _) fun _ => frame_bind (frame_keep fun _ => rfl) fun _ => ?_
    exact frame_ite (fun _ => frame_bind (frame_keep fun _ => rfl) fun _ => frame_pure _)
      fun _ => frame_pure _

theorem frame_decrptHeader (src : Nat) (size : UInt32) (nextBlkAddr : Nat) :
    Frame Appends (decrptHeader cfg src size nextBlkAddr) := by
  refine frame_bind frame_get fun s => frame_bind (frame_decrypSecureHdr cfg _ _) fun _ => ?_
  refine frame_bind (frame_keep fun _ => rfl) fun _ => ?_
  exact frame_bind (frame_decrptSetUpNextBlk cfg) fun _ => frame_bind frame_get fun _ => frame_pure _

theorem frame_decrptPlPass (src : Nat) (size : UInt32) (nextBlkAddr : Nat) :
    Frame Appends (decrptPlPass cfg src size nextBlkAddr) := by
  refine frame_bind (frame_decrptData cfg _ _) fun next => frame_bind frame_get fun s => ?_
  exact frame_ite (fun _ => frame_decrptHeader cfg _ _ _) fun _ => frame_pure _

theorem frame_decrptPlLoop (fuel src : Nat) (size : UInt32) (nextBlkAddr : Nat) :
    Frame Appends (decrptPlLoop cfg fuel src size nextBlkAddr) := by
  induction fuel generalizing src size nextBlkAddr with
  | zero => exact frame_throw _
  | succ fuel ih =>
    refine frame_bind (frame_decrptPlPass cfg _ _ _) fun next => ?_
    cases next with
    | none => exact frame_pure _
    | some next => exact ih _ _ _

theorem frame_decrptPl (src : Nat) (size : UInt32) : Frame Appends (decrptPl cfg src size) :=
  frame_decrptPlLoop cfg _ _ _ _

theorem frame_decrptBehind (src : Nat) (size rest : UInt32) :
    Frame Appends (decrptBehind cfg src size rest) := by
  refine frame_bind (frame_keep fun _ => rfl) fun _ => frame_bind (frame_keep fun _ => rfl) fun _ => ?_
  refine frame_bind (frame_decrptSetUpNextBlk cfg) fun _ => frame_bind frame_get fun s => ?_
  exact frame_ite (fun _ => frame_decrptPl cfg _ _) fun _ => frame_pure _

theorem frame_decrptFirst (src : Nat) (size : UInt32) : Frame Appends (decrptFirst cfg src size) := by
  refine frame_bind (frame_keep fun _ => rfl) fun _ => frame_bind frame_get fun s => ?_
  refine frame_bind (frame_decrypSecureHdr cfg _ _) fun _ => frame_bind (frame_keep fun _ => rfl) fun _ => ?_
  exact frame_bind (frame_decrptSetUpNextBlk cfg) fun _ => frame_decrptPl cfg _ _

theorem frame_decrptCut (src : Nat) (size : UInt32) : Frame Appends (decrptCut cfg src size) := by
  refine frame_bind frame_get fun s => frame_bind (frame_keep fun _ => rfl) fun _ => ?_
  refine frame_bind frame_get fun s => frame_bind (frame_decrypSecureHdr cfg _ _) fun _ => ?_
  exact frame_decrptBehind cfg _ _ _

theorem frame_feedChunk (c : List UInt8) : Frame Appends (feedChunk cfg c) := by
  refine frame_bind (frame_keep fun _ => rfl) fun _ => frame_bind frame_get fun s => ?_
  refine frame_ite (fun _ => frame_decrptFirst cfg _ _) fun _ => ?_
  exact frame_ite (fun _ => frame_decrptCut cfg _ _) fun _ => frame_decrptPl cfg _ _

theorem frame_feedChunks (cs : List (List UInt8)) : Frame Appends (feedChunks cfg cs) := by
  induction cs with
  | nil => exact frame_pure _
  | cons c cs ih => exact frame_bind (frame_feedChunk cfg c) fun _ => ih

end Appends

/-! ## Chunks of a stream -/

section Chunks

variable {cfg : PlConfig} {s s' : PlState} {bs : List Block} {hdr c : List UInt8}
  {cs : List (List UInt8)} {e k n src : Nat} {size : UInt32} {p : Place}

/-- A header is sent whatever becomes of the rest. -/
theorem header_sent {f : Unit → Pl Unit} (hf : ∀ u, Frame Appends (f u)) (hsrc : src % 4 = 0) :
    items s.transfers ++ headerItems hdr <+:
      items (final ((decrypSecureHdr cfg src hdr >>= f) s)).transfers := by
  have hthen := final_then (c := decrypSecureHdr cfg src hdr) hf s
  have hfinal : final (decrypSecureHdr cfg src hdr s) = s.sendHeader src hdr := by
    rw [decrypSecureHdr_eq hsrc]
    by_cases hok : cfg.engine.gcmTagOk (items s.transfers ++ headerItems hdr) = true
    · rw [if_pos hok]
      rfl
    · rw [if_neg hok]
      rfl
  rw [hfinal] at hthen
  have hprefix : items (s.sendHeader src hdr).transfers <+: _ := hthen
  rwa [items_sendHeader] at hprefix

/-- The header of a chunk behind one that cut it, as it was put together. -/
theorem feedChunk_assembled {xs : List UInt8} (h : InHeader cfg e s k hdr bs) (hk : 0 < k)
    (hbytes : c ++ xs = (Place.header k hdr bs).bytes) (hlt : c.length < 2 ^ 32)
    (hsize : xs ≠ [] → 64 ≤ c.length) :
    items s.transfers ++ headerItems (cfg.assembled e k hdr) <+:
      items (final (feedChunk cfg c s)).transfers := by
  let u := s.receive cfg c
  have hu : InHeader cfg e u k hdr bs := At.store (p := .header k hdr bs) h _
  have hload : u.chunk.load cfg.chunkBuffer (UInt32.ofNat c.length).toNat ++ xs =
      hdr.drop k ++ blockBytes bs := (receive_load xs hlt).trans hbytes
  have hwhole : 64 - k ≤ (UInt32.ofNat c.length).toNat := by
    rw [UInt32.toNat_ofNat_of_lt' hlt]
    exact h.whole hbytes hsize
  rw [feedChunk_eq, decrptPlChunks_cut hu.next (hu.carried hk), decrptCut_eq hu hwhole hload]
  exact header_sent (s := u.assemble cfg k hdr) (fun _ => frame_decrptBehind cfg _ _ _)
    cfg.secureHdr_aligned

/-- Behind the end of a stream, a chunk is the first again. -/
theorem feedChunk_again (cfg : PlConfig) (h : s.nextBlkLen = 0) (c : List UInt8) :
    ∃ x, items s.transfers ++ headerItems x <+: items (final (feedChunk cfg c s)).transfers := by
  let u : PlState := { s.receive cfg c with sizeofData := .ofNat secureHdrSize }
  rw [feedChunk_eq, decrptPlChunks_first (s := s.receive cfg c) h]
  refine ⟨u.chunk.load cfg.chunkBuffer 64, ?_⟩
  refine header_sent (s := u) (fun _ => ?_) cfg.chunkBuffer_aligned
  exact frame_bind (frame_keep fun _ => rfl) fun _ =>
    frame_bind (frame_decrptSetUpNextBlk cfg) fun _ => frame_decrptPl cfg _ _

theorem headerItems_inj {h h' : List UInt8} (heq : headerItems h = headerItems h') : h = h' := by
  unfold headerItems at heq
  simp only [List.cons.injEq, Item.header.injEq, Item.tag.injEq, and_true] at heq
  rw [← List.take_append_drop secureHdrSize h, heq.1, heq.2, List.take_append_drop]

/-- The copies of a header that the end of a chunk cuts: its first `k` bytes at the end of the chunk buffer,
the rest at its start. `n` bytes of the stream are before the first of these chunks. -/
def HeadersCopied (cfg : PlConfig) (st : EncStream) : Nat → List (List UInt8) → Prop
  | n, c :: c' :: cs =>
    (∀ k hdr bs, skip st.blocks (n + c.length - 64) = .header k hdr bs → 0 < k →
      cfg.assembled (cfg.chunkBuffer + c.length) k hdr = hdr) ∧
    HeadersCopied cfg st (n + c.length) (c' :: cs)
  | _, _ => True

theorem Follows.hdr_length {eng : AesEngine} {past : List Item} (h : Follows eng past bs) :
    ∀ b ∈ bs, b.hdr.length = 64 := by
  induction bs generalizing past with
  | nil => nofun
  | cons b bs ih =>
    obtain ⟨-, -, -, -, hhdr, hnext⟩ := h
    exact List.forall_mem_cons.2 ⟨hhdr, ih hnext⟩

/-- What is left behind `n` bytes. -/
theorem bytes_skip (h : ∀ b ∈ bs, b.hdr.length = 64) (n : Nat) :
    (skip bs n).bytes = (blockBytes bs).drop n := by
  induction bs generalizing n with
  | nil => exact List.drop_nil.symm
  | cons b bs ih =>
    rw [List.forall_mem_cons] at h
    have hbytes : blockBytes (b :: bs) = b.data ++ b.hdr ++ blockBytes bs := rfl
    rw [skip_cons, hbytes]
    by_cases hdata : n < b.data.length
    · rw [if_pos hdata, List.append_assoc, List.drop_append_of_le_length (Nat.le_of_lt hdata)]
      exact List.append_assoc _ _ _
    rw [if_neg hdata]
    by_cases hhdr : n < b.data.length + 64
    · rw [if_pos hhdr, List.append_assoc, List.drop_append, List.drop_eq_nil_iff.2 (by omega),
        List.nil_append, List.drop_append_of_le_length (by rw [h.1]; omega)]
      rfl
    · have hlen : (b.data ++ b.hdr).length = b.data.length + 64 := by rw [List.length_append, h.1]
      have hnil : (b.data ++ b.hdr).drop n = [] := List.drop_eq_nil_iff.2 (by omega)
      rw [if_neg hhdr, ih h.2, List.drop_append, hnil, List.nil_append, hlen]

theorem at_end (h : At cfg e s p) (hend : p.bytes = []) : p = .done := by
  cases p with
  | data rest hdr bs =>
    exact absurd (List.append_eq_nil_iff.1 (List.append_eq_nil_iff.1 hend).1).1 h.nonempty
  | header k hdr bs =>
    have hnil := congrArg List.length (List.append_eq_nil_iff.1 hend).1
    rw [List.length_drop, h.length] at hnil
    have hcut := h.cut
    exact absurd hnil (by show _ ≠ 0; omega)
  | done => rfl

theorem feedChunks_cons {d : List UInt8} (h : feedChunk cfg d s = .ok () s') :
    feedChunks cfg (d :: cs) s = feedChunks cfg cs s' := by
  rw [feedChunks, bind_apply, h]

def EncStream.items (st : EncStream) : List Item := headerItems st.first ++ blockItems st.blocks

/-- Behind the chunk `c`, with `n` bytes of the stream before it. -/
structure Behind (cfg : PlConfig) (st : EncStream) (n : Nat) (c : List UInt8) (s : PlState) :
    Prop where
  place : At cfg (cfg.chunkBuffer + c.length) s (skip st.blocks (n + c.length - 64))
  first : 64 ≤ n + c.length
  due : items s.transfers ++ (skip st.blocks (n + c.length - 64)).items = st.items

section Stream

variable {st : EncStream} {d : List UInt8} {ds : List (List UInt8)}

theorem Behind.bytes (hst : st.WellFormed cfg.engine)
    (hflatten : cs.flatten = (blockBytes st.blocks).drop (n + c.length - 64)) :
    cs.flatten = (skip st.blocks (n + c.length - 64)).bytes :=
  hflatten.trans (bytes_skip hst.blocks.hdr_length _).symm

theorem bytes_lt (hst : st.WellFormed cfg.engine) (n : Nat) :
    (skip st.blocks n).bytes.length < 2 ^ 32 := by
  have hall := hst.size
  rw [EncStream.bytes, List.length_append] at hall
  rw [bytes_skip hst.blocks.hdr_length, List.length_drop]
  omega

/-- An empty chunk behind the stream sends a header more. -/
theorem Behind.empty (h : Behind cfg st n c s) (hend : (skip st.blocks (n + c.length - 64)).bytes = []) :
    items (final (feedChunks cfg ([] :: ds) s)).transfers ≠ st.items := by
  intro heq
  have hdone := at_end h.place hend
  have hplace := h.place
  have hitems := h.due
  rw [hdone] at hplace hitems
  obtain ⟨x, hx⟩ := feedChunk_again cfg hplace.1 []
  have hgrow : items (final (feedChunk cfg [] s)).transfers <+: _ :=
    final_then (fun _ => frame_feedChunks cfg ds) s
  have hle := (hx.trans hgrow).length_le
  change items (final ((feedChunk cfg [] >>= fun _ => feedChunks cfg ds) s)).transfers = _ at heq
  rw [heq, ← hitems, List.length_append, List.length_append] at hle
  change _ + 2 ≤ _ + 0 at hle
  omega

/-- A header put together wrong is sent as it is. -/
theorem Behind.wrong (h : Behind cfg st n c s)
    (hp : skip st.blocks (n + c.length - 64) = .header k hdr bs) (hk : 0 < k)
    (hne : cfg.assembled (cfg.chunkBuffer + c.length) k hdr ≠ hdr)
    (hbytes : d ++ ds.flatten = (skip st.blocks (n + c.length - 64)).bytes)
    (hlt : d.length < 2 ^ 32) (hlast : ds.flatten ≠ [] → 64 ≤ d.length) :
    items (final (feedChunks cfg (d :: ds) s)).transfers ≠ st.items := by
  intro heq
  have hplace := h.place
  have hitems := h.due
  rw [hp] at hplace hitems hbytes
  have hsent := feedChunk_assembled hplace hk hbytes hlt hlast
  have hgrow : items (final (feedChunk cfg d s)).transfers <+: _ :=
    final_then (fun _ => frame_feedChunks cfg ds) s
  have hprefix := hsent.trans hgrow
  change items (final ((feedChunk cfg d >>= fun _ => feedChunks cfg ds) s)).transfers = _ at heq
  rw [heq, ← hitems, List.prefix_append_right_inj] at hprefix
  obtain ⟨ys, hys⟩ := hprefix
  exact hne (headerItems_inj (List.append_inj_left hys rfl))

theorem Behind.step (hst : st.WellFormed cfg.engine) (h : Behind cfg st n c s)
    (hbytes : d ++ ds.flatten = (skip st.blocks (n + c.length - 64)).bytes) (hd : d ≠ [])
    (hwords : d.length % 4 = 0) (hlast : ds.flatten ≠ [] → 64 ≤ d.length)
    (hright : ∀ k hdr bs, skip st.blocks (n + c.length - 64) = .header k hdr bs → 0 < k →
      cfg.assembled (cfg.chunkBuffer + c.length) k hdr = hdr) :
    ∃ s', feedChunk cfg d s = .ok () s' ∧ Behind cfg st (n + c.length) d s' := by
  obtain ⟨s', hrun, hsent⟩ := feedChunk_run h.place hbytes (bytes_lt hst _) hd hwords hlast hright
  have hfirst := h.first
  have hadvance : (skip st.blocks (n + c.length - 64)).advance d.length =
      skip st.blocks (n + c.length + d.length - 64) := by
    rw [skip_advance, show n + c.length - 64 + d.length = n + c.length + d.length - 64 by omega]
  refine ⟨s', hrun, ?_, by omega, ?_⟩
  · rw [← hadvance]
    exact hsent.place
  · rw [← hadvance]
    exact hsent.items.trans h.due

/-- Behind a chunk, the other chunks send the rest of the stream exactly when none is empty and every
cut header is copied right. -/
theorem Behind.iff (hst : st.WellFormed cfg.engine) (h : Behind cfg st n c s)
    (hflatten : cs.flatten = (blockBytes st.blocks).drop (n + c.length - 64))
    (hwords : ∀ d ∈ cs, d.length % 4 = 0) (hsize : ∀ d ∈ cs.dropLast, 64 ≤ d.length) :
    items (final (feedChunks cfg cs s)).transfers = st.items ↔
      HeadersCopied cfg st n (c :: cs) ∧ ∀ d ∈ cs, d ≠ [] := by
  induction cs generalizing c n s with
  | nil =>
    have hend := at_end h.place (Behind.bytes hst hflatten).symm
    have hitems := h.due
    rw [hend] at hitems
    exact iff_of_true ((List.append_nil _).symm.trans hitems) ⟨trivial, nofun⟩
  | cons d ds ih =>
    have hbytes : d ++ ds.flatten = _ := Behind.bytes hst hflatten
    have hlast : ds.flatten ≠ [] → 64 ≤ d.length := by
      intro hne
      cases ds with
      | nil => exact absurd rfl hne
      | cons d' ds => exact hsize d List.mem_cons_self
    rw [List.forall_mem_cons] at hwords
    by_cases hd : d = []
    · subst hd
      have hzero : ds.flatten = [] := by
        by_contra hne
        exact absurd (hlast hne) (by decide)
      refine iff_of_false (h.empty ?_) fun hc => hc.2 [] List.mem_cons_self rfl
      rw [← hbytes, hzero]
      rfl
    by_cases hright : ∀ k hdr bs, skip st.blocks (n + c.length - 64) = .header k hdr bs → 0 < k →
        cfg.assembled (cfg.chunkBuffer + c.length) k hdr = hdr
    · obtain ⟨s', hrun, hbehind⟩ := h.step hst hbytes hd hwords.1 hlast hright
      have hfirst := h.first
      have hrest : ds.flatten = (blockBytes st.blocks).drop (n + c.length + d.length - 64) := by
        have hdrop := congrArg (List.drop d.length) hflatten
        rw [List.flatten_cons, List.drop_left, List.drop_drop] at hdrop
        rw [hdrop, show n + c.length - 64 + d.length = n + c.length + d.length - 64 by omega]
      have hsizes : ∀ d ∈ ds.dropLast, 64 ≤ d.length := by
        intro x hx
        cases ds with
        | nil => cases hx
        | cons d' ds => exact hsize x (List.mem_cons_of_mem _ hx)
      rw [feedChunks_cons hrun, ih hbehind hrest hwords.2 hsizes, List.forall_mem_cons]
      exact ⟨fun hc => ⟨⟨hright, hc.1⟩, hd, hc.2⟩, fun hc => ⟨hc.1.2, hc.2.2⟩⟩
    · refine iff_of_false ?_ fun hc => hright hc.1.1
      push Not at hright
      obtain ⟨k, hdr, bs, hp, hk, hne⟩ := hright
      have hlen := bytes_lt hst (n + c.length - 64)
      rw [← hbytes, List.length_append] at hlen
      exact h.wrong hp hk hne hbytes (by omega) hlast

/-! ### Whole streams -/

theorem length_words (h : ∀ c ∈ cs, c.length % 4 = 0) : cs.flatten.length % 4 = 0 := by
  induction cs with
  | nil => rfl
  | cons c cs ih =>
    rw [List.forall_mem_cons] at h
    have := ih h.2
    rw [List.flatten_cons, List.length_append]
    omega

/-- What the engine was sent for the chunks. -/
def sent (cfg : PlConfig) (chunks : List (List UInt8)) (s : PlState) : List Item :=
  items (final (feedChunks cfg chunks s)).transfers

theorem sent_iff (hst : st.WellFormed cfg.engine) (hchunks : Chunks st.bytes cs) (hfresh : Fresh s) :
    sent cfg cs s = st.items ↔ HeadersCopied cfg st 0 cs ∧ [] ∉ cs := by
  have hlen : 64 ≤ st.bytes.length := by
    rw [EncStream.bytes, List.length_append, hst.first]
    omega
  have hflatten := hchunks.flatten
  cases cs with
  | nil =>
    rw [← hflatten] at hlen
    exact absurd hlen (by decide)
  | cons c cs =>
    have hsize : 64 ≤ c.length := by
      cases cs with
      | nil =>
        rw [List.flatten_cons, List.flatten_nil, List.append_nil] at hflatten
        rwa [hflatten]
      | cons c' cs => exact hchunks.size c List.mem_cons_self
    have hlt : c.length < 2 ^ 32 := by
      have hall := hst.size
      rw [← hflatten, List.flatten_cons, List.length_append] at hall
      omega
    have hwords := hchunks.words
    rw [List.forall_mem_cons] at hwords
    have hnat : (UInt32.ofNat c.length).toNat = c.length := UInt32.toNat_ofNat_of_lt' hlt
    have hload : (s.receive cfg c).chunk.load cfg.chunkBuffer (UInt32.ofNat c.length).toNat ++
        cs.flatten = st.bytes := (receive_load cs.flatten hlt).trans hflatten
    obtain ⟨s', hrun, hplace, hitems⟩ := decrptFirst_run (s := s.receive cfg c)
      ⟨hfresh.nextBlkLen, hfresh.hdr, hfresh.transfers⟩ hst cfg.chunkBuffer_aligned
      (by rw [hnat]; exact hwords.1) (by rw [hnat]; exact hsize) hload
    rw [hnat] at hplace hitems
    have hfeed : feedChunk cfg c s = .ok () s' := by
      rw [feedChunk_eq, decrptPlChunks_first (s := s.receive cfg c) hfresh.nextBlkLen, hrun]
    have hbehind : Behind cfg st 0 c s' := by
      refine ⟨?_, by omega, ?_⟩
      · rw [Nat.zero_add]
        exact hplace
      · rw [Nat.zero_add]
        exact hitems
    have hrest : cs.flatten = (blockBytes st.blocks).drop (0 + c.length - 64) := by
      have hdrop := congrArg (List.drop c.length) hflatten
      rw [List.flatten_cons, List.drop_left, EncStream.bytes, List.drop_append, hst.first] at hdrop
      rw [hdrop, List.drop_eq_nil_iff.2 (by rw [hst.first]; exact hsize), Nat.zero_add]
      rfl
    have hsizes : ∀ d ∈ cs.dropLast, 64 ≤ d.length := by
      intro x hx
      cases cs with
      | nil => cases hx
      | cons d' ds => exact hchunks.size x (List.mem_cons_of_mem _ hx)
    have hempty : [] ∉ c :: cs ↔ ∀ d ∈ cs, d ≠ [] := by
      rw [List.mem_cons, not_or]
      refine ⟨fun h d hd hnil => h.2 (hnil ▸ hd), fun h => ⟨fun hnil => ?_, fun hmem => h [] hmem rfl⟩⟩
      rw [← hnil] at hsize
      exact absurd hsize (by decide)
    unfold sent
    rw [feedChunks_cons hfeed, hempty]
    exact hbehind.iff hst hrest hwords.2 hsizes

/-- The stream as one chunk. -/
theorem sent_whole (hst : st.WellFormed cfg.engine) (hchunks : Chunks st.bytes cs)
    (hfresh : Fresh s) : sent cfg [st.bytes] s = st.items := by
  have hone : Chunks st.bytes [st.bytes] := by
    refine ⟨List.flatten_singleton, fun c hc => ?_, nofun⟩
    rw [List.mem_singleton.1 hc, ← hchunks.flatten]
    exact length_words hchunks.words
  refine (sent_iff hst hone hfresh).2 ⟨trivial, fun hmem => ?_⟩
  have hfirst := hst.first
  have hnil : st.bytes = [] := (List.mem_singleton.1 hmem).symm
  rw [(List.append_eq_nil_iff.1 hnil).1] at hfirst
  exact absurd hfirst (by decide)

/-- Systems with DDR copy out of the chunk buffer. -/
theorem headersCopied_ddr (hddr : cfg.deviceCopy = none) : HeadersCopied cfg st n cs := by
  fun_induction HeadersCopied cfg st n cs with
  | case1 n c c' cs ih =>
    refine ⟨fun k hdr bs _ _ => ?_, ih⟩
    unfold PlConfig.assembled PlConfig.copyData
    rw [hddr]
    exact List.take_append_drop k hdr
  | case2 => trivial

end Stream

/-- **Chunks of an encrypted bitstream**: they send what the bitstream in one chunk sends exactly when none
is empty and the headers they cut are copied right. -/
theorem chunkSplit_iff {cfg : PlConfig} {st : EncStream} {chunks : List (List UInt8)} {s : PlState}
    (hst : st.WellFormed cfg.engine) (hchunks : Chunks st.bytes chunks) (hfresh : Fresh s) :
    sent cfg chunks s = sent cfg [st.bytes] s ↔ HeadersCopied cfg st 0 chunks ∧ [] ∉ chunks := by
  rw [sent_whole hst hchunks hfresh]
  exact sent_iff hst hchunks hfresh

/-- With DDR, only an empty chunk at the end makes a difference. -/
theorem chunkSplit_ddr {cfg : PlConfig} {st : EncStream} {chunks : List (List UInt8)} {s : PlState}
    (hddr : cfg.deviceCopy = none) (hst : st.WellFormed cfg.engine)
    (hchunks : Chunks st.bytes chunks) (hfresh : Fresh s) (hempty : [] ∉ chunks) :
    sent cfg chunks s = sent cfg [st.bytes] s := by
  rw [sent_whole hst hchunks hfresh]
  exact (sent_iff hst hchunks hfresh).2 ⟨headersCopied_ddr hddr, hempty⟩

/-! ### A stream of one word -/

/-- The next block behind the first header has one word, that behind the second none. -/
def oneWordEngine : AesEngine where
  gcmTagOk _ := true
  iv3 past := if past.length = 2 then 0x01000000 else 0

def oneWordConfig (deviceCopy : Option (UInt32 → UInt8)) : PlConfig :=
  ⟨oneWordEngine, deviceCopy, 0xFFFC0000, 0xFFFE0000, rfl, rfl⟩

def oneWordStream : EncStream := ⟨.replicate 64 1, [⟨.replicate 4 2, .replicate 64 3⟩]⟩

/-- A word of the second header is in the first chunk. -/
def oneWordChunks : List (List UInt8) := [oneWordStream.bytes.take 72, oneWordStream.bytes.drop 72]

def startState : PlState := ⟨0, 0, fun _ => 0, 0, fun _ => 0, [], []⟩

theorem oneWordStream_wellFormed : oneWordStream.WellFormed oneWordEngine := by
  refine ⟨rfl, ⟨rfl, rfl, by decide, by decide, rfl, rfl, rfl⟩, ?_⟩
  have hlen : oneWordStream.bytes.length = 132 := by
    simp [oneWordStream, EncStream.bytes, blockBytes, Block.bytes]
  rw [hlen]
  decide

theorem oneWordChunks_chunks : Chunks oneWordStream.bytes oneWordChunks :=
  ⟨by decide, by decide, by decide⟩

theorem chunkSplit_oneWord :
    sent (oneWordConfig none) oneWordChunks startState =
        sent (oneWordConfig none) [oneWordStream.bytes] startState ↔
      HeadersCopied (oneWordConfig none) oneWordStream 0 oneWordChunks ∧ [] ∉ oneWordChunks :=
  chunkSplit_iff oneWordStream_wellFormed oneWordChunks_chunks ⟨rfl, rfl, rfl⟩

/-- Without DDR the header is put together from the boot device. -/
theorem not_chunkSplit :
    ¬ ∀ (cfg : PlConfig) (st : EncStream) (chunks : List (List UInt8)) (s : PlState),
      st.WellFormed cfg.engine → Chunks st.bytes chunks → Fresh s →
        sent cfg chunks s = sent cfg [st.bytes] s := by
  intro hall
  let cfg := oneWordConfig (some fun _ => 0)
  have hst : oneWordStream.WellFormed cfg.engine := oneWordStream_wellFormed
  have hfresh : Fresh startState := ⟨rfl, rfl, rfl⟩
  have hsame := hall cfg oneWordStream oneWordChunks startState hst oneWordChunks_chunks hfresh
  rw [sent_whole hst oneWordChunks_chunks hfresh, sent_iff hst oneWordChunks_chunks hfresh] at hsame
  have hcopied := hsame.1.1 4 (.replicate 64 3) [] rfl (by decide)
  exact absurd hcopied (by decide)

end Chunks

end MeasuredBoot.PlDecrypt
