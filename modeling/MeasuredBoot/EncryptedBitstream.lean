import MeasuredBoot.BitstreamDigest
import MeasuredBoot.Lib.Regions

/-!
# Where an encrypted bitstream ends (`Pl_Measure_Encrypted`)

Each secure header names the length of the block behind it, so the loop follows the partition by what
the AES engine decrypts. The lengths are words, multiplied and added up in 32 bits, and only their sum
is compared with the unencrypted size; nothing compares the source address with the end of the partition.
`encryptedContained_iff`: for which words the loop ends, stays inside, and succeeds only on lengths that add up.
-/

namespace MeasuredBoot.Stream

open Prog

/-! ## The stream as its headers describe it -/

/-- The length is in the last word of the IV. -/
theorem lt_ivWords : 3 < 4 := by decide

section Headers

variable (source : Nat) (size : UInt32) (blocks : Nat → AesBlock) (i : Nat)

/-- The length of the next block, in words, as the `i`-th header has it. -/
def nextBlkWords : UInt32 :=
  have := lt_ivWords
  xilHtonl (blocks i).iv[3]

/-- The length in bytes, as the loop computes it. -/
def nextBlkLen : UInt32 := nextBlkWords blocks i * 4

/-- The data in front of the `i`-th header. -/
def blkLen : Nat → UInt32
  | 0 => 0
  | i + 1 => nextBlkLen blocks i

/-- `CurrentImgLen`, before the `i`-th header. -/
def imgLen : Nat → UInt32
  | 0 => 0
  | i + 1 => imgLen i + nextBlkLen blocks i

/-- `SrcAddr`: behind every block there is the next header, and a tag. -/
def blkAddr : Nat → Nat
  | 0 => source
  | i + 1 => blkAddr i + (blkLen blocks i).toNat + secureHdrSize + secureGcmTagSize

/-- The lengths in front of the `i`-th header, as integers. -/
def lengths : Nat → Nat
  | 0 => 0
  | i + 1 => lengths i + 4 * (nextBlkWords blocks i).toNat

/-- The lengths add up to the size. -/
def AddsUp : Prop :=
  ∃ n, nextBlkWords blocks n = 0 ∧ (∀ i < n, nextBlkWords blocks i ≠ 0) ∧
    lengths blocks n = size.toNat

end Headers

/-- The machine whose engine decrypts the first `k` headers. -/
def PlHw.answering (hw : PlHw) (blocks : Nat → AesBlock) (k : Nat) : PlHw :=
  { hw with aesBlocks := (List.range' 0 k).map blocks }

/-- The loop ends, has read inside the `encBytes` at `source`, and has succeeded only if the lengths add
up to the size. -/
def EncryptedContained (hw : PlHw) (source encBytes : Nat) (size : UInt32) (blocks : Nat → AesBlock)
    (s : PlState) : Prop :=
  ∃ k r s' rs, plMeasureEncrypted (hw.answering blocks k) source size s = .ok r s' ∧
    s'.reads = s.reads ++ rs ∧
    (∀ x ∈ rs, source ≤ x.1 ∧ x.1 + x.2 ≤ source + encBytes) ∧
    (r.1 = xfsblSuccess → AddsUp size blocks)

/-! ## One block -/

namespace AesBlock

variable (b : AesBlock) (first : Bool)

/-- What `XSecure_AesDecryptBlk` returns; the first block has no data. -/
def answer : UInt32 :=
  if b.ivWait ≠ xfsblSuccess then b.ivWait
  else if first = false ∧ b.dataWait ≠ xfsblSuccess then b.dataWait
  else if b.headerWait ≠ xfsblSuccess then b.headerWait
  else if b.tagWait ≠ xfsblSuccess then b.tagWait
  else if b.aesWait ≠ xfsblSuccess then b.aesWait
  else if b.gcmTagOk then xfsblSuccess
  else aesGcmTagMismatch

/-- How much of the source it reads. -/
def taken (len : Nat) : Nat :=
  if b.ivWait ≠ xfsblSuccess then 0
  else if first = false ∧ b.dataWait ≠ xfsblSuccess then len
  else if b.headerWait ≠ xfsblSuccess then len + secureHdrSize
  else len + secureHdrSize + secureGcmTagSize

/-- The DMA driver asserts nothing of its transfers wrong. -/
def Accepted (src : Nat) (len : UInt32) : Prop :=
  b.ivWait = xfsblSuccess → src % 4 = 0 ∧ len / 4 ≤ xcsudmaSizeMax

end AesBlock

section Block

variable {hw : PlHw} {s : PlState} {b : AesBlock} {first : Bool} {src n : Nat} {len wait : UInt32}

theorem passToAes_run (hsrc : src % 4 = 0) (hn : .ofNat (n / 4) ≤ xcsudmaSizeMax) :
    ∃ s', passToAes hw src n wait s = .ok wait s' ∧ s'.reads = s.reads ++ [(src, n)] := by
  unfold passToAes
  rw [bind_apply, xcsuDmaTransfer_run ⟨hsrc, hn⟩]
  exact ⟨_, rfl, rfl⟩

theorem passToAes_hang (h : ¬ (src % 4 = 0 ∧ .ofNat (n / 4) ≤ xcsudmaSizeMax)) :
    passToAes hw src n wait s = .error .hang s := by
  unfold passToAes
  rw [bind_apply]
  unfold xcsuDmaTransfer
  rw [if_neg h]
  rfl

theorem ofNat_words (len : UInt32) : UInt32.ofNat (len.toNat / 4) = len / 4 := by
  rw [← UInt32.toNat_inj, UInt32.toNat_div, show (4 : UInt32).toNat = 4 from rfl]
  exact UInt32.toNat_ofNat_of_lt' (show _ < 2 ^ 32 by have := len.toNat_lt; omega)

/-- The header and the tag, behind the data. -/
theorem aesPushBlk_header {t : PlState} {rs : List (Nat × Nat)} (hsrc : (src + len.toNat) % 4 = 0)
    (ht : t.reads = s.reads ++ rs) (hrs : Tiles src rs (src + len.toNat))
    (hdata : (if first then pure xfsblSuccess else passToAes hw src len.toNat b.dataWait : Pl UInt32) s =
      .ok xfsblSuccess t) (hiv : b.ivWait = xfsblSuccess)
    (hwait : ¬ (first = false ∧ b.dataWait ≠ xfsblSuccess)) :
    ∃ s' rs', aesPushBlk hw b src (src + len.toNat + secureHdrSize) len first s =
        .ok (b.answer first) s' ∧ s'.reads = s.reads ++ rs' ∧
      Tiles src rs' (src + b.taken first len.toNat) := by
  unfold aesPushBlk
  rw [bind_apply, hdata]
  obtain ⟨u, hheader, hu⟩ := @passToAes_run hw t (src + len.toNat) secureHdrSize b.headerWait hsrc
    (by decide)
  have hurs : u.reads = s.reads ++ (rs ++ [(src + len.toNat, secureHdrSize)]) := by
    rw [hu, ht, List.append_assoc]
  have hutiles := hrs.append (Tiles.single (src + len.toNat) secureHdrSize)
  unfold AesBlock.answer AesBlock.taken
  rw [if_neg (not_not_intro hiv), if_neg hwait, if_neg (not_not_intro hiv), if_neg hwait]
  show ∃ s' rs', (passToAes hw (src + len.toNat) secureHdrSize b.headerWait >>= _) t = _ ∧ _
  rw [bind_apply, hheader]
  by_cases hh : b.headerWait ≠ xfsblSuccess
  · rw [if_pos hh, if_pos hh, ← Nat.add_assoc]
    dsimp only
    rw [if_pos hh]
    exact ⟨u, _, rfl, hurs, hutiles⟩
  · rw [if_neg hh, if_neg hh]
    dsimp only
    rw [if_neg hh]
    have htagSrc : (src + len.toNat + secureHdrSize) % 4 = 0 := by
      unfold secureHdrSize
      omega
    obtain ⟨v, htag, hv⟩ := @passToAes_run hw u _ secureGcmTagSize b.tagWait htagSrc (by decide)
    have hvrs : v.reads = s.reads ++ (rs ++ [(src + len.toNat, secureHdrSize)] ++
        [(src + len.toNat + secureHdrSize, secureGcmTagSize)]) := by
      rw [hv, hurs, List.append_assoc]
    have hvtiles := hutiles.append (Tiles.single (src + len.toNat + secureHdrSize) secureGcmTagSize)
    rw [bind_apply, htag]
    dsimp only
    refine ⟨v, _, ?_, hvrs, ?_⟩
    · by_cases hg : b.tagWait ≠ xfsblSuccess
      · rw [if_pos hg, if_pos hg]
        rfl
      rw [if_neg hg, if_neg hg]
      by_cases ha : b.aesWait ≠ xfsblSuccess
      · rw [if_pos ha, if_pos ha]
        rfl
      rw [if_neg ha, if_neg ha]
      rfl
    · rw [← Nat.add_assoc, ← Nat.add_assoc]
      exact hvtiles

/-- A block the DMA driver accepts. -/
theorem xsecureAesDecryptBlk_run {iv : Vector UInt32 4} (hword : len.toNat % 4 = 0)
    (hfirst : first = true → len = 0) (haccepted : b.Accepted src len) :
    ∃ s' rs, xsecureAesDecryptBlk hw b iv src (src + len.toNat + secureHdrSize) len first s =
        .ok (b.answer first) s' ∧ s'.reads = s.reads ++ rs ∧
      Tiles src rs (src + b.taken first len.toNat) := by
  unfold xsecureAesDecryptBlk
  rw [bind_apply, xcsuDmaTransfer_run ⟨rfl, by decide⟩]
  dsimp only
  by_cases hiv : b.ivWait ≠ xfsblSuccess
  · rw [if_pos hiv]
    unfold AesBlock.answer AesBlock.taken
    rw [if_pos hiv, if_pos hiv]
    exact ⟨_, [], rfl, (List.append_nil _).symm, rfl⟩
  rw [if_neg hiv]
  obtain ⟨hsrc, hmax⟩ := haccepted (not_not.1 hiv)
  cases first with
  | true =>
    obtain rfl := hfirst rfl
    exact aesPushBlk_header hsrc (List.append_nil _).symm rfl rfl (not_not.1 hiv) (by simp)
  | false =>
    rw [← ofNat_words] at hmax
    obtain ⟨t, hdata, ht⟩ := @passToAes_run hw (s.move
      (iv.toList.flatMap fun w => leBytes 4 w.toNat)) src len.toNat b.dataWait hsrc hmax
    by_cases hd : b.dataWait ≠ xfsblSuccess
    · have hstop : false = false ∧ b.dataWait ≠ xfsblSuccess := ⟨rfl, hd⟩
      refine ⟨t, _, ?_, ht, ?_⟩
      · unfold AesBlock.answer
        rw [if_neg hiv, if_pos hstop]
        unfold aesPushBlk
        rw [bind_apply, if_neg Bool.false_ne_true, hdata]
        dsimp only
        rw [if_pos hd]
        rfl
      · unfold AesBlock.taken
        rw [if_neg hiv, if_pos hstop]
        exact Tiles.single _ _
    · rw [not_not.1 hd] at hdata
      refine aesPushBlk_header (by omega) ht (Tiles.single _ _) ?_ (not_not.1 hiv) (fun h => hd h.2)
      rw [if_neg Bool.false_ne_true, not_not.1 hd]
      exact hdata

/-- One it does not. -/
theorem xsecureAesDecryptBlk_hang {iv : Vector UInt32 4} (hfirst : first = true → len = 0)
    (h : ¬ b.Accepted src len) :
    ∃ s', xsecureAesDecryptBlk hw b iv src (src + len.toNat + secureHdrSize) len first s =
      .error .hang s' := by
  obtain ⟨hiv, hno⟩ := Classical.not_imp.1 h
  unfold xsecureAesDecryptBlk
  rw [bind_apply, xcsuDmaTransfer_run ⟨rfl, by decide⟩]
  dsimp only
  rw [if_neg (not_not_intro hiv)]
  unfold aesPushBlk
  cases first with
  | true =>
    obtain rfl := hfirst rfl
    have hhang := @passToAes_hang hw (s.move (iv.toList.flatMap fun w => leBytes 4 w.toNat)) src
      secureHdrSize b.headerWait (fun hp => hno ⟨hp.1, by decide⟩)
    rw [bind_apply, if_pos rfl]
    show ∃ s', (passToAes hw src secureHdrSize b.headerWait >>= _) _ = _
    rw [bind_apply, hhang]
    exact ⟨_, rfl⟩
  | false =>
    rw [← ofNat_words] at hno
    have hhang := @passToAes_hang hw (s.move (iv.toList.flatMap fun w => leBytes 4 w.toNat)) src
      len.toNat b.dataWait hno
    rw [bind_apply, if_neg Bool.false_ne_true, hhang]
    exact ⟨_, rfl⟩

end Block

/-! ## The loop -/

section Loop

variable (source : Nat) (size : UInt32) (blocks : Nat → AesBlock)

/-- Behind the `i`-th header the loop goes on. -/
def Goes (i : Nat) : Prop :=
  (blocks i).answer (i == 0) = xfsblSuccess ∧ nextBlkLen blocks i ≠ 0 ∧ imgLen blocks (i + 1) ≤ size

/-- Its status where it does not. -/
def outcome (i : Nat) : UInt32 :=
  if (blocks i).answer (i == 0) ≠ xfsblSuccess then (blocks i).answer (i == 0)
  else if nextBlkLen blocks i = 0 ∧ imgLen blocks (i + 1) = size then xfsblSuccess
  else aesImageLenMismatch

def AcceptedAt (i : Nat) : Prop :=
  (blocks i).Accepted (blkAddr source blocks i) (blkLen blocks i)

/-- Where the reads of the `i`-th block end. -/
def readsEnd (i : Nat) : Nat :=
  blkAddr source blocks i + (blocks i).taken (i == 0) (blkLen blocks i).toNat

/-- The loop at the `i`-th header, with `k` headers to come. -/
def loopAt (hw : PlHw) (iv : Vector UInt32 4) (i k : Nat) : Pl UInt32 :=
  measureBlocks hw size ((List.range' i k).map blocks) iv (blkAddr source blocks i)
    (blkAddr source blocks i + (blkLen blocks i).toNat + secureHdrSize) (blkLen blocks i)
    (imgLen blocks i) (i == 0)

variable {source size blocks} {hw : PlHw} {iv : Vector UInt32 4} {s s' : PlState} {i k m : Nat}
  {status : UInt32}

theorem blkLen_word (i : Nat) : (blkLen blocks i).toNat % 4 = 0 := by
  cases i with
  | zero => rfl
  | succ i =>
    show (nextBlkWords blocks i * 4).toNat % 4 = 0
    rw [UInt32.toNat_mul, show (4 : UInt32).toNat = 4 from rfl]
    omega

theorem blkLen_first (h : (i == 0) = true) : blkLen blocks i = 0 := by
  obtain rfl := eq_of_beq h
  rfl

/-- What follows a block that was decrypted. -/
theorem loopAt_succ :
    loopAt source size blocks hw iv i (k + 1) = (do
      let status ← xsecureAesDecryptBlk hw (blocks i) iv (blkAddr source blocks i)
        (blkAddr source blocks i + (blkLen blocks i).toNat + secureHdrSize) (blkLen blocks i) (i == 0)
      if status ≠ xfsblSuccess then pure status
      else if nextBlkLen blocks i = 0 then
        pure (if imgLen blocks (i + 1) ≠ size then aesImageLenMismatch else xfsblSuccess)
      else if imgLen blocks (i + 1) > size then pure aesImageLenMismatch
      else loopAt source size blocks hw (blocks i).iv (i + 1) k) := by
  unfold loopAt
  rw [List.range'_succ, List.map_cons]
  rfl

/-- A block that stops the loop. -/
theorem loopAt_stop {t : PlState} (hstop : ¬ Goes size blocks i)
    (hblk : xsecureAesDecryptBlk hw (blocks i) iv (blkAddr source blocks i)
      (blkAddr source blocks i + (blkLen blocks i).toNat + secureHdrSize) (blkLen blocks i) (i == 0) s =
        .ok ((blocks i).answer (i == 0)) t) :
    loopAt source size blocks hw iv i (k + 1) s = .ok (outcome size blocks i) t := by
  rw [loopAt_succ, bind_apply, hblk]
  dsimp only
  unfold outcome
  by_cases ha : (blocks i).answer (i == 0) ≠ xfsblSuccess
  · rw [if_pos ha, if_pos ha]
    rfl
  rw [if_neg ha, if_neg ha]
  by_cases hz : nextBlkLen blocks i = 0
  · rw [if_pos hz]
    by_cases himg : imgLen blocks (i + 1) = size
    · rw [if_neg (not_not_intro himg), if_pos ⟨hz, himg⟩]
      rfl
    · rw [if_pos himg, if_neg fun h => himg h.2]
      rfl
  · have hgt : imgLen blocks (i + 1) > size := by
      by_contra hle
      exact hstop ⟨not_not.1 ha, hz, UInt32.not_lt.1 hle⟩
    rw [if_neg hz, if_pos hgt, if_neg fun h => hz h.1]
    rfl

/-- One that does not. -/
theorem loopAt_go {t : PlState} (hgo : Goes size blocks i)
    (hblk : xsecureAesDecryptBlk hw (blocks i) iv (blkAddr source blocks i)
      (blkAddr source blocks i + (blkLen blocks i).toNat + secureHdrSize) (blkLen blocks i) (i == 0) s =
        .ok ((blocks i).answer (i == 0)) t) :
    loopAt source size blocks hw iv i (k + 1) s =
      loopAt source size blocks hw (blocks i).iv (i + 1) k t := by
  obtain ⟨ha, hz, hle⟩ := hgo
  rw [loopAt_succ, bind_apply, hblk]
  dsimp only
  rw [if_neg (not_not_intro ha), if_neg hz, if_neg (UInt32.not_lt.2 hle)]

theorem goes_taken (hgo : Goes size blocks i) (len : Nat) :
    (blocks i).taken (i == 0) len = len + secureHdrSize + secureGcmTagSize := by
  have ha := hgo.1
  unfold AesBlock.answer at ha
  unfold AesBlock.taken
  by_cases h1 : (blocks i).ivWait ≠ xfsblSuccess
  · rw [if_pos h1] at ha
    exact absurd ha h1
  rw [if_neg h1] at ha ⊢
  by_cases h2 : (i == 0) = false ∧ (blocks i).dataWait ≠ xfsblSuccess
  · rw [if_pos h2] at ha
    exact absurd ha h2.2
  rw [if_neg h2] at ha ⊢
  by_cases h3 : (blocks i).headerWait ≠ xfsblSuccess
  · rw [if_pos h3] at ha
    exact absurd ha h3
  rw [if_neg h3]

/-- The loop that goes on up to the `m`-th header and stops there. -/
theorem loopAt_run (him : i ≤ m) (hm : m < i + k) (hgo : ∀ j, i ≤ j → j < m → Goes size blocks j)
    (hstop : ¬ Goes size blocks m) (hacc : ∀ j, i ≤ j → j ≤ m → AcceptedAt source blocks j) :
    ∃ s' rs, loopAt source size blocks hw iv i k s = .ok (outcome size blocks m) s' ∧
      s'.reads = s.reads ++ rs ∧ Tiles (blkAddr source blocks i) rs (readsEnd source blocks m) := by
  induction k generalizing i iv s with
  | zero => omega
  | succ k ih =>
    obtain ⟨t, rs, hblk, ht, hrs⟩ := @xsecureAesDecryptBlk_run hw s (blocks i) (i == 0)
      (blkAddr source blocks i) (blkLen blocks i) iv (blkLen_word i) blkLen_first
      (hacc i (Nat.le_refl i) him)
    rcases Nat.eq_or_lt_of_le him with rfl | hlt
    · exact ⟨t, rs, loopAt_stop hstop hblk, ht, hrs⟩
    · have hgoes := hgo i (Nat.le_refl i) hlt
      rw [loopAt_go hgoes hblk]
      obtain ⟨s', rs', hrun, hs', hrs'⟩ := @ih (blocks i).iv t (i + 1) hlt (by omega)
        (fun j hj => hgo j (by omega)) (fun j hj => hacc j (by omega))
      refine ⟨s', rs ++ rs', hrun, ?_, ?_⟩
      · rw [hs', ht, List.append_assoc]
      · rw [goes_taken hgoes, ← Nat.add_assoc, ← Nat.add_assoc] at hrs
        exact hrs.append hrs'

/-- A loop that ends has a header where it stops. -/
theorem loopAt_ok (h : loopAt source size blocks hw iv i k s = .ok status s') :
    ∃ m, i ≤ m ∧ m < i + k ∧ (∀ j, i ≤ j → j < m → Goes size blocks j) ∧ ¬ Goes size blocks m ∧
      ∀ j, i ≤ j → j ≤ m → AcceptedAt source blocks j := by
  induction k generalizing i iv s with
  | zero =>
    unfold loopAt measureBlocks at h
    simp at h
  | succ k ih =>
    by_cases hacc : AcceptedAt source blocks i
    · obtain ⟨t, rs, hblk, -, -⟩ := @xsecureAesDecryptBlk_run hw s (blocks i) (i == 0)
        (blkAddr source blocks i) (blkLen blocks i) iv (blkLen_word i) blkLen_first hacc
      by_cases hgo : Goes size blocks i
      · rw [loopAt_go hgo hblk] at h
        obtain ⟨m, him, hm, hgoes, hstop, haccs⟩ := ih h
        refine ⟨m, by omega, by omega, fun j hj hjm => ?_, hstop, fun j hj hjm => ?_⟩
        · rcases Nat.eq_or_lt_of_le hj with rfl | hlt
          · exact hgo
          · exact hgoes j hlt hjm
        · rcases Nat.eq_or_lt_of_le hj with rfl | hlt
          · exact hacc
          · exact haccs j hlt hjm
      · refine ⟨i, Nat.le_refl i, by omega, fun j hj hji => by omega, hgo, fun j hj hji => ?_⟩
        obtain rfl : i = j := by omega
        exact hacc
    · obtain ⟨t, hhang⟩ := @xsecureAesDecryptBlk_hang hw s (blocks i) (i == 0)
        (blkAddr source blocks i) (blkLen blocks i) iv blkLen_first hacc
      rw [loopAt_succ, bind_apply, hhang] at h
      simp at h

end Loop

/-! ## Lengths that wrap -/

section Wrap

variable {size : UInt32} {blocks : Nat → AesBlock} {i m n : Nat}

variable (blocks) in
/-- No length up to the `m`-th header leaves 32 bits, nor does their sum. -/
def Unwrapped (m : Nat) : Prop :=
  (∀ j ≤ m, (nextBlkWords blocks j).toNat < 2 ^ 30) ∧ lengths blocks (m + 1) < 2 ^ 32

theorem lengths_le (h : i ≤ n) : lengths blocks i ≤ lengths blocks n := by
  induction n with
  | zero =>
    obtain rfl : i = 0 := by omega
    exact Nat.le_refl _
  | succ n ih =>
    rcases Nat.eq_or_lt_of_le h with rfl | hlt
    · exact Nat.le_refl _
    · exact Nat.le_trans (ih (by omega)) (Nat.le_add_right _ _)

theorem nextBlkLen_eq_zero (h : nextBlkWords blocks i = 0) : nextBlkLen blocks i = 0 := by
  unfold nextBlkLen
  rw [h]
  rfl

theorem toNat_nextBlkLen (h : (nextBlkWords blocks i).toNat < 2 ^ 30) :
    (nextBlkLen blocks i).toNat = 4 * (nextBlkWords blocks i).toNat := by
  show (nextBlkWords blocks i * 4).toNat = _
  rw [UInt32.toNat_mul, show (4 : UInt32).toNat = 4 from rfl]
  omega

theorem toNat_imgLen (h : Unwrapped blocks m) (hi : i ≤ m + 1) :
    (imgLen blocks i).toNat = lengths blocks i := by
  induction i with
  | zero => rfl
  | succ i ih =>
    have hlast : lengths blocks (i + 1) ≤ lengths blocks (m + 1) := lengths_le hi
    have hstep : lengths blocks (i + 1) = lengths blocks i + 4 * (nextBlkWords blocks i).toNat := rfl
    have hlt := h.2
    show (imgLen blocks i + nextBlkLen blocks i).toNat = _
    rw [UInt32.toNat_add, ih (by omega), toNat_nextBlkLen (h.1 i (by omega))]
    omega

/-- A loop that ends on the size: its lengths add up exactly if none of them wraps. -/
theorem addsUp_iff (hgo : ∀ j < m, Goes size blocks j) (hzero : nextBlkLen blocks m = 0)
    (himg : imgLen blocks (m + 1) = size) : AddsUp size blocks ↔ Unwrapped blocks m := by
  constructor
  · rintro ⟨n, hn, hpos, hsum⟩
    have hlt := size.toNat_lt
    have hword (j : Nat) (hj : j < n) : (nextBlkWords blocks j).toNat < 2 ^ 30 := by
      have hle : lengths blocks (j + 1) ≤ lengths blocks n := lengths_le hj
      have hstep : lengths blocks (j + 1) = lengths blocks j + 4 * (nextBlkWords blocks j).toNat := rfl
      omega
    have hmn : m ≤ n := by
      by_contra hlt
      exact (hgo n (by omega)).2.1 (nextBlkLen_eq_zero hn)
    -- behind the m-th header there is nothing
    obtain rfl : m = n := by
      by_contra hne
      have hmlt : m < n := by omega
      have hlen := toNat_nextBlkLen (hword m hmlt)
      rw [hzero, show (0 : UInt32).toNat = 0 from rfl] at hlen
      exact hpos m hmlt (UInt32.toNat_inj.1 (by rw [show (0 : UInt32).toNat = 0 from rfl]; omega))
    refine ⟨fun j hj => ?_, ?_⟩
    · rcases Nat.eq_or_lt_of_le hj with rfl | hjm
      · rw [hn]
        decide
      · exact hword j hjm
    · show lengths blocks m + 4 * (nextBlkWords blocks m).toNat < 2 ^ 32
      rw [hn, show (0 : UInt32).toNat = 0 from rfl]
      omega
  · intro h
    have hlen := toNat_nextBlkLen (h.1 m (Nat.le_refl m))
    rw [hzero, show (0 : UInt32).toNat = 0 from rfl] at hlen
    refine ⟨m, UInt32.toNat_inj.1 (by rw [show (0 : UInt32).toNat = 0 from rfl]; omega), ?_, ?_⟩
    · intro j hj hz
      exact (hgo j hj).2.1 (nextBlkLen_eq_zero hz)
    · have hsum := toNat_imgLen h (Nat.le_refl (m + 1))
      rw [himg] at hsum
      have hstep : lengths blocks (m + 1) = lengths blocks m + 4 * (nextBlkWords blocks m).toNat := rfl
      omega

end Wrap

/-! ## The measurement -/

section Measurement

variable {hw : PlHw} {source encBytes : Nat} {size : UInt32} {blocks : Nat → AesBlock} {s s' : PlState}
  {k : Nat} {r : UInt32 × Digest}

variable (hw source encBytes size blocks) in
/-- The words for which the loop is contained: it stops at a header, with every block up to there one
the DMA driver accepts, the last read inside the partition, and no length wrapped where the total then
is the size. -/
def Confined : Prop :=
  ∃ m, (∀ j < m, Goes size blocks j) ∧ ¬ Goes size blocks m ∧
    (∀ j ≤ m, AcceptedAt source blocks j) ∧ readsEnd source blocks m ≤ source + encBytes ∧
    ((blocks m).answer (m == 0) = xfsblSuccess → nextBlkLen blocks m = 0 →
      imgLen blocks (m + 1) = size → hw.aesKeyZero = xfsblSuccess → Unwrapped blocks m)

/-- The state the loop starts in. -/
def encryptedStart (s : PlState) : PlState :=
  { s with
    sss := ⟨some .aes, some .srcDma, some .srcDma⟩
    sha3Len := 0
    absorbed := []
    streamed := [] }

theorem loopAt_zero {iv : Vector UInt32 4} :
    loopAt source size blocks hw iv 0 k = measureBlocks hw size ((List.range' 0 k).map blocks) iv
      source (source + secureHdrSize) 0 0 true := by
  unfold loopAt
  rw [show (blkLen blocks 0).toNat = 0 from rfl, Nat.add_zero]
  rfl

theorem plMeasureEncrypted_apply :
    plMeasureEncrypted (hw.answering blocks k) source size s =
      match loopAt source size blocks (hw.answering blocks k) hw.fsblIv 0 k (encryptedStart s) with
      | .ok status t => .ok (if hw.aesKeyZero ≠ xfsblSuccess then hw.aesKeyZero else status,
          hw.keccak (t.absorbed ++ nistPad t.sha3Len.toNat)) t
      | .error e t => .error e t := by
  unfold plMeasureEncrypted
  rw [bind_apply]
  show (xsecureSha3Start >>= _) _ = _
  rw [bind_apply]
  show (measureBlocks _ size ((List.range' 0 k).map blocks) hw.fsblIv source _ 0 0 true >>= _)
    (encryptedStart s) = _
  rw [← loopAt_zero, bind_apply]
  cases loopAt source size blocks (hw.answering blocks k) hw.fsblIv 0 k (encryptedStart s) with
  | ok status t => rfl
  | error e t => rfl

theorem outcome_success {m : Nat} : outcome size blocks m = xfsblSuccess ↔
    (blocks m).answer (m == 0) = xfsblSuccess ∧ nextBlkLen blocks m = 0 ∧
      imgLen blocks (m + 1) = size := by
  unfold outcome
  by_cases ha : (blocks m).answer (m == 0) ≠ xfsblSuccess
  · rw [if_pos ha]
    exact ⟨fun h => absurd h ha, fun h => absurd h.1 ha⟩
  · rw [if_neg ha]
    by_cases hz : nextBlkLen blocks m = 0 ∧ imgLen blocks (m + 1) = size
    · rw [if_pos hz]
      exact ⟨fun _ => ⟨not_not.1 ha, hz⟩, fun _ => rfl⟩
    · rw [if_neg hz]
      exact ⟨fun h => absurd h (by decide), fun h => absurd h.2 hz⟩

/-- **The loop over an encrypted bitstream** ends, reads inside the partition and succeeds only on
lengths that add up exactly for the words that confine it. -/
theorem encryptedContained_iff :
    EncryptedContained hw source encBytes size blocks s ↔ Confined hw source encBytes size blocks := by
  have hle : source ≤ source + encBytes := Nat.le_add_right _ _
  constructor
  · rintro ⟨k, r, s', rs, hrun, hreads, hinside, hsum⟩
    rw [plMeasureEncrypted_apply] at hrun
    cases hloop : loopAt source size blocks (hw.answering blocks k) hw.fsblIv 0 k (encryptedStart s) with
    | error e t =>
      rw [hloop] at hrun
      simp at hrun
    | ok status t =>
      rw [hloop] at hrun
      obtain ⟨m, -, hm, hgo, hstop, hacc⟩ := loopAt_ok hloop
      obtain ⟨t', rs', hloop', ht', hrs'⟩ := @loopAt_run source size blocks (hw.answering blocks k)
        hw.fsblIv (encryptedStart s) 0 k m (Nat.zero_le m) hm hgo hstop hacc
      rw [hloop'] at hloop
      obtain ⟨rfl, rfl⟩ := EStateM.Result.ok.inj hloop
      obtain ⟨rfl, rfl⟩ := EStateM.Result.ok.inj hrun
      have hsame : rs = rs' := by
        rw [hreads] at ht'
        exact List.append_cancel_left ht'
      subst hsame
      refine ⟨m, fun j hj => hgo j (Nat.zero_le j) hj, hstop, fun j hj => hacc j (Nat.zero_le j) hj,
        (hrs'.inside_iff hle).1 hinside, fun ha hz himg hkey => ?_⟩
      refine (addsUp_iff (fun j hj => hgo j (Nat.zero_le j) hj) hz himg).1 (hsum ?_)
      show (if hw.aesKeyZero ≠ xfsblSuccess then hw.aesKeyZero else outcome size blocks m) = _
      rw [if_neg (not_not_intro hkey)]
      exact outcome_success.2 ⟨ha, hz, himg⟩
  · rintro ⟨m, hgo, hstop, hacc, hend, hwrap⟩
    obtain ⟨t, rs, hloop, ht, hrs⟩ := @loopAt_run source size blocks (hw.answering blocks (m + 1))
      hw.fsblIv (encryptedStart s) 0 (m + 1) m (Nat.zero_le m) (by omega) (fun j _ => hgo j) hstop
      (fun j _ => hacc j)
    have hrun := @plMeasureEncrypted_apply hw source size blocks s (m + 1)
    rw [hloop] at hrun
    refine ⟨m + 1, _, t, rs, hrun, ht, (hrs.inside_iff hle).2 hend, fun hr => ?_⟩
    · dsimp only at hr
      by_cases hkey : hw.aesKeyZero ≠ xfsblSuccess
      · rw [if_pos hkey] at hr
        exact absurd hr hkey
      · rw [if_neg hkey] at hr
        obtain ⟨ha, hz, himg⟩ := outcome_success.1 hr
        exact (addsUp_iff hgo hz himg).2 (hwrap ha hz himg (not_not.1 hkey))

end Measurement

/-! ## A stream that wraps -/

/-- The engine's answer with the next length, as the register holds it. -/
def answerOf (words : UInt32) : AesBlock :=
  ⟨0, 0, 0, 0, 0, true, ⟨#[0, 0, 0, xilHtonl words], rfl⟩⟩

/-- A block of one word, then a header that names 2^30 words. -/
def wrappingBlocks : Nat → AesBlock
  | 0 => answerOf 1
  | _ => answerOf 0x40000000

/-- A partition of 4 bytes, with the blocks' headers and tags, is measured whole, and the length in its
last header is taken for 0. -/
theorem not_encryptedContained :
    ¬ ∀ (hw : PlHw) (source encBytes : Nat) (size : UInt32) (blocks : Nat → AesBlock) (s : PlState),
      source % 4 = 0 → EncryptedContained hw source encBytes size blocks s := by
  intro hall
  obtain ⟨k, r, s', rs, hrun, -, -, hsum⟩ := hall readyHw 0 132 4 wrappingBlocks idlePlState rfl
  match k, hrun with
  | 0, hrun => cases hrun
  | 1, hrun => cases hrun
  | k + 2, hrun =>
    have hok : ∃ d u, plMeasureEncrypted (readyHw.answering wrappingBlocks (k + 2)) 0 4 idlePlState =
        .ok (xfsblSuccess, d) u := ⟨_, _, rfl⟩
    obtain ⟨d, u, hok⟩ := hok
    rw [hrun] at hok
    obtain ⟨rfl, -⟩ := EStateM.Result.ok.inj hok
    obtain ⟨n, hn, -, -⟩ := hsum rfl
    cases n with
    | zero => exact absurd hn (by decide)
    | succ n => exact absurd hn (show nextBlkWords (fun _ => answerOf 0x40000000) 0 ≠ 0 by decide)

end MeasuredBoot.Stream
