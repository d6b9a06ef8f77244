import MeasuredBoot.BitstreamChunks

/-!
# The loop of `XFsbl_DecrptPl`

`At` is the state of the processor at a place of the bitstream: what `SizeofData`, `NextBlkLen`, `Hdr`
and `SecureHdr` hold there. `decrptPlLoop_run`: from the data of a block, the loop sends what is due of
the bytes it gets and ends at the place behind them, by induction on the blocks.
-/

namespace MeasuredBoot.PlDecrypt

open Prog
open MeasuredBoot.Stream (xilHtonl secureHdrSize secureGcmTagSize)

/-! ## The machine at a place -/

section Machine

variable {cfg : PlConfig} {s s' t : PlState} {bs : List Block} {rest hdr : List UInt8}
  {e k m n src : Nat} {size : UInt32} {p : Place}

theorem items_append (ts ts' : List Transfer) : items (ts ++ ts') = items ts ++ items ts' :=
  List.flatMap_append

theorem items_singleton (t : Transfer) : items [t] = t.items := List.flatMap_singleton _ _

theorem nextBlkLen_words (e : AesEngine) (past : List Item) :
    (e.nextBlkLen past).toNat % 4 = 0 := by
  unfold AesEngine.nextBlkLen
  rw [UInt32.toNat_mul, show (4 : UInt32).toNat = 4 from rfl]
  omega

structure InData (cfg : PlConfig) (s : PlState) (rest hdr : List UInt8) (bs : List Block) : Prop where
  sizeofData : s.sizeofData.toNat = rest.length
  nonempty : rest ≠ []
  words : rest.length % 4 = 0
  fits : rest.length / 4 ≤ xcsudmaSizeMax.toNat
  length : hdr.length = 64
  next : s.nextBlkLen ≠ 0
  carry : s.hdr = 0
  follows : Follows cfg.engine (items s.transfers ++ rest.map .byte ++ headerItems hdr) bs

/-- `SecureHdr` keeps what was copied of the `k` bytes that ended at `e`. -/
structure InHeader (cfg : PlConfig) (e : Nat) (s : PlState) (k : Nat) (hdr : List UInt8)
    (bs : List Block) : Prop where
  sizeofData : s.sizeofData = 0
  cut : k < 64
  words : k % 4 = 0
  length : hdr.length = 64
  next : s.nextBlkLen ≠ 0
  carry : s.hdr.toNat = k
  kept : s.secureHdr.load 0 k = cfg.copyData (hdr.take k) (e - k)
  follows : Follows cfg.engine (items s.transfers ++ headerItems hdr) bs

/-- The state at a place; the chunk so far ended at `e`. -/
def At (cfg : PlConfig) (e : Nat) (s : PlState) : Place → Prop
  | .data rest hdr bs => InData cfg s rest hdr bs
  | .header k hdr bs => InHeader cfg e s k hdr bs
  | .done => s.nextBlkLen = 0 ∧ s.sizeofData = 0

/-- `n` bytes from `p` on were taken, and what is due was sent. -/
structure Sent (cfg : PlConfig) (e : Nat) (p : Place) (n : Nat) (s s' : PlState) : Prop where
  place : At cfg e s' (p.advance n)
  items : items s'.transfers ++ (p.advance n).items = items s.transfers ++ p.items

theorem Sent.trans (h : Sent cfg e p m s t) (h' : Sent cfg e (p.advance m) n t s') :
    Sent cfg e p (m + n) s s' := by
  obtain ⟨hplace, hitems⟩ := h'
  rw [advance_advance] at hplace hitems
  exact ⟨hplace, hitems.trans h.items⟩

/-- `XFsbl_DecrptSetUpNextBlk` behind a header. -/
theorem at_next (h : Follows cfg.engine (items s.transfers) bs) (hhdr : s.hdr = 0)
    (hnext : s.nextBlkLen = cfg.engine.nextBlkLen (items s.transfers))
    (hsize : s.sizeofData = cfg.engine.nextBlkLen (items s.transfers)) :
    At cfg e s (skip bs 0) := by
  cases bs with
  | nil => exact ⟨hnext.trans h.2, hsize.trans h.2⟩
  | cons b bs =>
    obtain ⟨-, hlen, hdata, hfits, hhdrLen, hfollows⟩ := h
    rw [skip_zero_cons hdata]
    refine ⟨by rw [hsize, hlen], hdata, ?_, hfits, hhdrLen, fun hzero => hdata ?_, hhdr, ?_⟩
    · rw [← hlen]
      exact nextBlkLen_words _ _
    · rw [hnext] at hzero
      rw [hzero] at hlen
      exact List.length_eq_zero_iff.1 hlen.symm
    · rw [List.append_assoc]
      exact hfollows

theorem dmaPlCopy_run {t : Transfer} (hsrc : src % 4 = 0) (hsize : size ≤ xcsudmaSizeMax) :
    dmaPlCopy src size t s =
      .ok () { s.note [.read src (size.toNat * 4)] with transfers := s.transfers ++ [t] } := by
  unfold dmaPlCopy
  rw [if_pos ⟨hsrc, hsize⟩]
  rfl

/-- What `XFsbl_DecrypSecureHdr` sends. -/
def PlState.sendHeader (s : PlState) (src : Nat) (hdr : List UInt8) : PlState :=
  { (s.note [.read src secureHdrSize]).note [.read (src + secureHdrSize) secureGcmTagSize] with
    transfers :=
      s.transfers ++ [.header (hdr.take secureHdrSize)] ++ [.tag (hdr.drop secureHdrSize)] }

theorem items_sendHeader (s : PlState) (src : Nat) (hdr : List UInt8) :
    items (s.sendHeader src hdr).transfers = items s.transfers ++ headerItems hdr := by
  unfold PlState.sendHeader
  rw [items_append, items_append, List.append_assoc]
  rfl

theorem decrypSecureHdr_eq (hsrc : src % 4 = 0) :
    decrypSecureHdr cfg src hdr s =
      if cfg.engine.gcmTagOk (items s.transfers ++ headerItems hdr) then .ok () (s.sendHeader src hdr)
      else .error (.status xfsblErrorBitstreamGcmTagMismatch) (s.sendHeader src hdr) := by
  unfold decrypSecureHdr
  rw [bind_apply, dmaPlCopy_run hsrc (by decide)]
  dsimp only
  have htag : (src + secureHdrSize) % 4 = 0 := by
    unfold secureHdrSize
    omega
  rw [bind_apply, dmaPlCopy_run htag (by decide), ← items_sendHeader s src]
  dsimp only
  rw [bind_apply]
  show (if cfg.engine.gcmTagOk (items (s.sendHeader src hdr).transfers) then _ else _ : Pl Unit)
    (s.sendHeader src hdr) = _
  by_cases hok : cfg.engine.gcmTagOk (items (s.sendHeader src hdr).transfers) = true
  · rw [if_pos hok, if_pos hok]
    rfl
  · rw [if_neg hok, if_neg hok]
    rfl

theorem decrypSecureHdr_run (hsrc : src % 4 = 0)
    (hfollows : Follows cfg.engine (items s.transfers ++ headerItems hdr) bs) :
    decrypSecureHdr cfg src hdr s = .ok () (s.sendHeader src hdr) := by
  rw [decrypSecureHdr_eq hsrc, if_pos hfollows.tagOk]

theorem next_ite {l m : UInt32} :
    (if (if l ≠ 0 then src + 64 else n) ≠ 0 ∧ m ≠ 0 ∧ l ≠ 0 then
      some (if l ≠ 0 then src + 64 else n, l, if l ≠ 0 then src + 64 else n) else none) =
      if l ≠ 0 ∧ m ≠ 0 then some (src + 64, l, src + 64) else none := by
  by_cases hl : l = 0
  · simp [hl]
  · by_cases hm : m = 0
    · simp [hm]
    · simp [hl, hm]

/-- A whole header in the chunk. -/
theorem decrptHeader_run {nextBlkAddr : Nat} (h : InHeader cfg e s 0 hdr bs) (hsrc : src % 4 = 0)
    (hload : s.chunk.load src 64 = hdr) :
    ∃ s', decrptHeader cfg src size nextBlkAddr s =
        .ok (if size - xfsblAesTagSize ≠ 0 ∧ s'.sizeofData ≠ 0 then
          some (src + 64, size - xfsblAesTagSize, src + 64) else none) s' ∧
      Sent cfg e (.header 0 hdr bs) 64 s s' ∧ s'.chunk = s.chunk := by
  let u := (s.sendHeader src hdr).note [.minus size xfsblAesTagSize]
  let next := cfg.engine.nextBlkLen (items u.transfers)
  let s' : PlState := { u with nextBlkLen := next, sizeofData := next }
  have hfollows : Follows cfg.engine (items s'.transfers) bs := by
    show Follows cfg.engine (items (s.sendHeader src hdr).transfers) bs
    rw [items_sendHeader]
    exact h.follows
  refine ⟨s', ?_, ⟨?_, ?_⟩, rfl⟩
  · unfold decrptHeader
    rw [bind_apply]
    show (decrypSecureHdr cfg src (s.chunk.load src 64) >>= _) s = _
    rw [bind_apply, hload, decrypSecureHdr_run hsrc h.follows]
    dsimp only
    rw [bind_apply]
    exact congrArg (EStateM.Result.ok · s') next_ite
  · exact at_next hfollows (UInt8.toNat_inj.1 h.carry) rfl rfl
  · show items s'.transfers ++ (skip bs 0).items = _
    rw [hfollows.items_skip, show s'.transfers = (s.sendHeader src hdr).transfers from rfl,
      items_sendHeader, List.append_assoc]
    rfl

theorem load_take {m : Mem} {a n : Nat} {xs ys : List UInt8} (h : m.load a n ++ xs = ys)
    {j : Nat} (hj : j ≤ n) : m.load a j = ys.take j := by
  have hlen : (m.load a j).length = j := Mem.length_load m a j
  obtain ⟨d, rfl⟩ := Nat.exists_eq_add_of_le hj
  rw [Mem.load_add, List.append_assoc] at h
  rw [← h, List.take_left' hlen]

theorem load_drop {m : Mem} {a n : Nat} {xs ys : List UInt8} (h : m.load a n ++ xs = ys)
    {j : Nat} (hj : j ≤ n) : m.load (a + j) (n - j) ++ xs = ys.drop j := by
  have hlen : (m.load a j).length = j := Mem.length_load m a j
  obtain ⟨d, rfl⟩ := Nat.exists_eq_add_of_le hj
  rw [Mem.load_add, List.append_assoc] at h
  rw [← h, List.drop_left' hlen, Nat.add_sub_cancel_left]

/-- A chunk that ends within the data of a block. -/
theorem decrptData_within (h : InData cfg s rest hdr bs) (hsrc : src % 4 = 0)
    (hwords : size.toNat % 4 = 0) (hle : size.toNat ≤ rest.length)
    (hload : s.chunk.load src size.toNat = rest.take size.toNat) :
    ∃ s', decrptData cfg src size s = .ok (src, 0) s' ∧
      Sent cfg e (.data rest hdr bs) size.toNat s s' := by
  have hsize : size ≤ s.sizeofData := UInt32.le_iff_toNat_le.2 (by rw [h.sizeofData]; exact hle)
  have hpos : 0 < rest.length := List.length_pos_iff.2 h.nonempty
  have hne : s.sizeofData ≠ 0 := by
    intro h0
    have hlen := h.sizeofData
    rw [h0, show (0 : UInt32).toNat = 0 from rfl] at hlen
    omega
  have hfits : size / 4 ≤ xcsudmaSizeMax := by
    rw [UInt32.le_iff_toNat_le, UInt32.toNat_div, show (4 : UInt32).toNat = 4 from rfl]
    exact Nat.le_trans (Nat.div_le_div_right hle) h.fits
  have hall : size.toNat / 4 * 4 = size.toNat := by omega
  let s' : PlState := { (s.note [.read src ((size / 4).toNat * 4)]).note [.minus s.sizeofData size] with
    transfers := s.transfers ++ [.data (rest.take size.toNat)], sizeofData := s.sizeofData - size }
  have hitems : items s'.transfers = items s.transfers ++ (rest.take size.toNat).map .byte := by
    rw [items_append, items_singleton]
    rfl
  have hsub : s'.sizeofData.toNat = rest.length - size.toNat := by
    rw [UInt32.toNat_sub_of_le _ _ hsize, h.sizeofData]
  have hsplit : items s.transfers ++ rest.map Item.byte =
      items s'.transfers ++ (rest.drop size.toNat).map .byte := by
    rw [hitems, List.append_assoc, ← List.map_append, List.take_append_drop]
  refine ⟨s', ?_, ?_⟩
  · unfold decrptData
    rw [bind_apply]
    show (if size ≤ s.sizeofData ∧ s.sizeofData ≠ 0 then _ else _ : Pl (Nat × UInt32)) s = _
    rw [if_pos ⟨hsize, hne⟩, bind_apply, dmaPlCopy_run hsrc hfits, hall, hload]
    rfl
  · have hadvance : (Place.data rest hdr bs).advance size.toNat = if size.toNat < rest.length then
        .data (rest.drop size.toNat) hdr bs else .header 0 hdr bs := by
      show skip (⟨rest, hdr⟩ :: bs) size.toNat = _
      rw [skip_cons]
      dsimp only
      by_cases hlt : size.toNat < rest.length
      · rw [if_pos hlt, if_pos hlt]
      · rw [if_neg hlt, if_neg hlt, if_pos (by omega),
          show size.toNat - rest.length = 0 by omega]
    have hdrop : (rest.drop size.toNat).length = rest.length - size.toNat := List.length_drop
    have hfollows := h.follows
    rw [hsplit] at hfollows
    by_cases hlt : size.toNat < rest.length
    · rw [if_pos hlt] at hadvance
      refine ⟨?_, ?_⟩
      · rw [hadvance]
        refine ⟨hsub.trans hdrop.symm, ?_, ?_, ?_, h.length, h.next, h.carry, hfollows⟩
        · exact List.length_pos_iff.1 (by omega)
        · have := h.words
          omega
        · exact Nat.le_trans (Nat.div_le_div_right (by omega)) h.fits
      · rw [hadvance]
        show items s'.transfers ++ ((rest.drop size.toNat).map .byte ++ _ ++ _) =
          items s.transfers ++ (rest.map .byte ++ _ ++ _)
        rw [← List.append_assoc, ← List.append_assoc, ← List.append_assoc, ← List.append_assoc, hsplit]
    · rw [if_neg hlt] at hadvance
      have hnil : rest.drop size.toNat = [] := List.drop_eq_nil_iff.2 (by omega)
      rw [hnil, List.map_nil, List.append_nil] at hfollows hsplit
      refine ⟨?_, ?_⟩
      · rw [hadvance]
        refine ⟨UInt32.toNat_inj.1 (hsub.trans (by rw [← hdrop, hnil]; rfl)), by decide, rfl, h.length,
          h.next, by rw [show s'.hdr = 0 from h.carry]; rfl, ?_, hfollows⟩
        show [] = cfg.copyData [] _
        unfold PlConfig.copyData
        cases cfg.deviceCopy with
        | none => rfl
        | some device => rfl
      · rw [hadvance]
        show items s'.transfers ++ (_ ++ _) = items s.transfers ++ (rest.map .byte ++ _ ++ _)
        rw [← List.append_assoc, ← List.append_assoc, ← List.append_assoc, hsplit]

/-- The state behind the data of a block. -/
def PlState.sendRest (s : PlState) (src : Nat) (size : UInt32) (rest : List UInt8) : PlState :=
  { (s.note [.read src ((s.sizeofData / 4).toNat * 4)]).note [.minus size s.sizeofData] with
    transfers := s.transfers ++ [.data rest], sizeofData := 0 }

theorem items_sendRest (s : PlState) (src : Nat) (size : UInt32) (rest : List UInt8) :
    items (s.sendRest src size rest).transfers = items s.transfers ++ rest.map .byte := by
  show items (s.transfers ++ [.data rest]) = _
  rw [items_append, items_singleton]
  rfl

theorem copyData_nil (cfg : PlConfig) (src : Nat) : cfg.copyData [] src = [] := by
  unfold PlConfig.copyData
  cases cfg.deviceCopy with
  | none => rfl
  | some device => rfl

theorem length_copyData (cfg : PlConfig) (bytes : List UInt8) (src : Nat) :
    (cfg.copyData bytes src).length = bytes.length := by
  unfold PlConfig.copyData
  cases cfg.deviceCopy with
  | none => rfl
  | some device => simp

theorem InData.behind (h : InData cfg s rest hdr bs) (e src : Nat) (size : UInt32) :
    InHeader cfg e (s.sendRest src size rest) 0 hdr bs := by
  refine ⟨rfl, by decide, rfl, h.length, h.next, ?_, ?_, ?_⟩
  · rw [show (s.sendRest src size rest).hdr = 0 from h.carry]
    rfl
  · show [] = cfg.copyData [] _
    rw [copyData_nil]
  · rw [items_sendRest]
    exact h.follows

theorem InData.lt_size (h : InData cfg s rest hdr bs) (hlt : rest.length < size.toNat) :
    ¬ (size ≤ s.sizeofData ∧ s.sizeofData ≠ 0) ∧ s.sizeofData ≠ 0 ∧
      (size - s.sizeofData).toNat = size.toNat - rest.length ∧ s.sizeofData / 4 ≤ xcsudmaSizeMax ∧
      s.sizeofData.toNat / 4 * 4 = rest.length := by
  have hlen := h.sizeofData
  have hpos : 0 < rest.length := List.length_pos_iff.2 h.nonempty
  refine ⟨fun hle => ?_, fun h0 => ?_, ?_, ?_, ?_⟩
  · have hle : size.toNat ≤ s.sizeofData.toNat := hle.1
    omega
  · rw [h0, show (0 : UInt32).toNat = 0 from rfl] at hlen
    omega
  · rw [UInt32.toNat_sub_of_le _ _ (UInt32.le_iff_toNat_le.2 (by omega)), hlen]
  · rw [UInt32.le_iff_toNat_le, UInt32.toNat_div, show (4 : UInt32).toNat = 4 from rfl, hlen]
    exact h.fits
  · have := h.words
    omega

/-- The data of a block, and all that the chunk has of the header behind it. -/
theorem decrptData_cut {xs : List UInt8} (h : InData cfg s rest hdr bs) (hsrc : src % 4 = 0)
    (hwords : size.toNat % 4 = 0) (hlt : rest.length < size.toNat)
    (hcut : size.toNat < rest.length + 64)
    (hload : s.chunk.load src size.toNat ++ xs = rest ++ hdr ++ blockBytes bs) :
    ∃ s' a, decrptData cfg src size s = .ok (a, 0) s' ∧
      Sent cfg (src + size.toNat) (.data rest hdr bs) size.toNat s s' := by
  obtain ⟨hmore, hne, hsub, hfits, hall⟩ := h.lt_size hlt
  let u := s.sendRest src size rest
  let k := size.toNat - rest.length
  have hsmall : size - s.sizeofData < xfsblAesTagSize := by
    rw [UInt32.lt_iff_toNat_lt, hsub]
    show _ < 64
    omega
  have hdata : s.chunk.load src rest.length = rest := by
    rw [load_take hload (Nat.le_of_lt hlt), List.append_assoc, List.take_left]
  have hhdr : s.chunk.load (src + rest.length) k = hdr.take k := by
    have hsuffix := load_drop hload (Nat.le_of_lt hlt)
    rw [List.append_assoc, List.drop_left] at hsuffix
    have hlen := h.length
    rw [load_take hsuffix (Nat.le_refl _), List.take_append_of_le_length (by omega)]
  let s' : PlState := { u.note [.read (src + rest.length) k, .carry 0 k] with
    secureHdr := u.secureHdr.store 0 (cfg.copyData (hdr.take k) (src + rest.length))
    hdr := (size - s.sizeofData).toUInt8 }
  refine ⟨s', src + rest.length, ?_, ?_⟩
  · unfold decrptData
    rw [bind_apply]
    show (if size ≤ s.sizeofData ∧ s.sizeofData ≠ 0 then _ else _ : Pl (Nat × UInt32)) s = _
    rw [if_neg hmore, if_pos hne, bind_apply, dmaPlCopy_run hsrc hfits, hall, hdata]
    dsimp only
    rw [bind_apply]
    show (if size - s.sizeofData < xfsblAesTagSize then _ else _ : Pl (Nat × UInt32)) u = _
    rw [if_pos hsmall, hsub, h.sizeofData]
    show EStateM.Result.ok (src + rest.length, (0 : UInt32)) {
      u.note [.read (src + rest.length) k, .carry 0 k] with
      secureHdr := u.secureHdr.store 0
        (cfg.copyData (s.chunk.load (src + rest.length) k) (src + rest.length))
      hdr := (size - s.sizeofData).toUInt8 } = _
    rw [hhdr]
  · have hadvance : (Place.data rest hdr bs).advance size.toNat = .header k hdr bs := by
      show skip (⟨rest, hdr⟩ :: bs) size.toNat = _
      rw [skip_cons]
      dsimp only
      rw [if_neg (by omega), if_pos hcut]
    have hbehind := h.behind 0 src size
    have hlen : (cfg.copyData (hdr.take k) (src + rest.length)).length = k := by
      rw [length_copyData, List.length_take, h.length]
      omega
    refine ⟨?_, ?_⟩
    · rw [hadvance]
      refine ⟨rfl, by omega, ?_, h.length, h.next, ?_, ?_, hbehind.follows⟩
      · have := h.words
        omega
      · show (size - s.sizeofData).toUInt8.toNat = k
        rw [UInt32.toNat_toUInt8, hsub]
        omega
      · rw [show src + size.toNat - k = src + rest.length by omega]
        have hload := Mem.load_store u.secureHdr 0 (cfg.copyData (hdr.take k) (src + rest.length))
        rwa [hlen] at hload
    · rw [hadvance]
      show items u.transfers ++ (_ ++ _) = items s.transfers ++ (rest.map .byte ++ _ ++ _)
      rw [items_sendRest, ← List.append_assoc, ← List.append_assoc, ← List.append_assoc]

/-- The data of a block, with the whole header behind it in the chunk. -/
theorem decrptData_over {xs : List UInt8} (h : InData cfg s rest hdr bs) (hsrc : src % 4 = 0)
    (hover : rest.length + 64 ≤ size.toNat)
    (hload : s.chunk.load src size.toNat ++ xs = rest ++ hdr ++ blockBytes bs) :
    decrptData cfg src size s =
      .ok (src + rest.length, size - s.sizeofData) (s.sendRest src size rest) := by
  have hlt : rest.length < size.toNat := by omega
  obtain ⟨hmore, hne, hsub, hfits, hall⟩ := h.lt_size hlt
  have hlarge : ¬ size - s.sizeofData < xfsblAesTagSize := by
    rw [UInt32.lt_iff_toNat_lt, hsub]
    show ¬ _ < 64
    omega
  have hdata : s.chunk.load src rest.length = rest := by
    rw [load_take hload (by omega), List.append_assoc, List.take_left]
  unfold decrptData
  rw [bind_apply]
  show (if size ≤ s.sizeofData ∧ s.sizeofData ≠ 0 then _ else _ : Pl (Nat × UInt32)) s = _
  rw [if_neg hmore, if_pos hne, bind_apply, dmaPlCopy_run hsrc hfits, hall, hdata]
  dsimp only
  rw [bind_apply]
  show (if size - s.sizeofData < xfsblAesTagSize then _ else _ : Pl (Nat × UInt32))
    (s.sendRest src size rest) = _
  rw [if_neg hlarge, h.sizeofData]
  rfl

theorem decrptData_header (h : s.sizeofData = 0) :
    decrptData cfg src size s = .ok (src, size) s := by
  unfold decrptData
  rw [bind_apply]
  show (if size ≤ s.sizeofData ∧ s.sizeofData ≠ 0 then _ else _ : Pl (Nat × UInt32)) s = _
  rw [if_neg fun hle => hle.2 h, if_neg (not_not_intro h)]
  rfl

theorem advance_rest (rest hdr : List UInt8) (bs : List Block) :
    (Place.data rest hdr bs).advance rest.length = .header 0 hdr bs := by
  show skip (⟨rest, hdr⟩ :: bs) rest.length = _
  rw [skip_cons]
  dsimp only
  rw [if_neg (Nat.lt_irrefl _), if_pos (by omega), Nat.sub_self]

theorem InData.sent_behind (h : InData cfg s rest hdr bs) (e src : Nat) (size : UInt32) :
    Sent cfg e (.data rest hdr bs) rest.length s (s.sendRest src size rest) := by
  refine ⟨?_, ?_⟩
  · rw [advance_rest]
    exact h.behind e src size
  · rw [advance_rest, items_sendRest]
    show _ ++ (_ ++ _) = items s.transfers ++ (rest.map .byte ++ _ ++ _)
    rw [← List.append_assoc, ← List.append_assoc, ← List.append_assoc]

/-- A pass from data over a whole header. -/
theorem decrptPlPass_over {xs : List UInt8} {nextBlkAddr : Nat} (h : InData cfg s rest hdr bs)
    (hsrc : src % 4 = 0) (hover : rest.length + 64 ≤ size.toNat)
    (hload : s.chunk.load src size.toNat ++ xs = rest ++ hdr ++ blockBytes bs) :
    ∃ s' l, decrptPlPass cfg src size nextBlkAddr s =
        .ok (if l ≠ 0 ∧ s'.sizeofData ≠ 0 then
          some (src + (rest.length + 64), l, src + (rest.length + 64)) else none) s' ∧
      Sent cfg e (.data rest hdr bs) (rest.length + 64) s s' ∧ s'.chunk = s.chunk ∧
      l.toNat = size.toNat - (rest.length + 64) := by
  have hlt : rest.length < size.toNat := by omega
  obtain ⟨-, -, hsub, -, -⟩ := h.lt_size hlt
  have hsrc' : (src + rest.length) % 4 = 0 := by
    have := h.words
    omega
  have hhdr : s.chunk.load (src + rest.length) 64 = hdr := by
    have hsuffix := load_drop hload (j := rest.length) (by omega)
    rw [List.append_assoc, List.drop_left] at hsuffix
    rw [load_take hsuffix (by omega), List.take_left' h.length]
  obtain ⟨s', hrun, hsent, hchunk⟩ := @decrptHeader_run cfg (s.sendRest src size rest) bs hdr e
    (src + rest.length) (size - s.sizeofData) nextBlkAddr (h.behind e src size) hsrc' hhdr
  have hmid := h.sent_behind e src size
  rw [← advance_rest] at hsent
  have hnonzero : size - s.sizeofData ≠ 0 := by
    intro h0
    rw [h0, show (0 : UInt32).toNat = 0 from rfl] at hsub
    omega
  refine ⟨s', size - s.sizeofData - xfsblAesTagSize, ?_, hmid.trans hsent, hchunk, ?_⟩
  · unfold decrptPlPass
    rw [bind_apply, decrptData_over h hsrc hover hload]
    dsimp only
    rw [bind_apply]
    show (if (s.sendRest src size rest).sizeofData = 0 ∧ size - s.sizeofData ≠ 0 then _ else _ :
      Pl (Option (Nat × UInt32 × Nat))) (s.sendRest src size rest) = _
    rw [if_pos ⟨rfl, hnonzero⟩, hrun, Nat.add_assoc]
  · have hle : xfsblAesTagSize ≤ size - s.sizeofData := by
      rw [UInt32.le_iff_toNat_le, hsub]
      show 64 ≤ _
      omega
    rw [UInt32.toNat_sub_of_le _ _ hle, hsub]
    show _ - 64 = _
    omega

/-- With bytes left of the chunk, there is a next block. -/
theorem next_block {m : Mem} {xs : List UInt8} {l : UInt32} (hplace : At cfg e s (skip bs 0))
    (hdata : ∀ b ∈ bs.head?, b.data ≠ []) (hload : m.load src l.toNat ++ xs = blockBytes bs)
    (hl : l ≠ 0) :
    ∃ b bs', bs = b :: bs' ∧ InData cfg s b.data b.hdr bs' ∧ s.sizeofData ≠ 0 := by
  have hpos : l.toNat ≠ 0 := fun h0 => hl (UInt32.toNat_inj.1 h0)
  cases bs with
  | nil =>
    have hlen := congrArg List.length hload
    rw [List.length_append, Mem.length_load] at hlen
    exact absurd hlen (Nat.ne_of_gt (by show 0 < _; omega))
  | cons b bs =>
    have hne : b.data ≠ [] := hdata b rfl
    rw [skip_zero_cons hne] at hplace
    refine ⟨b, bs, rfl, hplace, fun h0 => ?_⟩
    have hlen := hplace.sizeofData
    rw [h0] at hlen
    exact hne (List.length_eq_zero_iff.1 hlen.symm)

/-- The loop behind a header: on with the next block, or at its end. -/
theorem decrptPlLoop_next {xs : List UInt8} {fuel : Nat} (hplace : At cfg e s (skip bs 0))
    (hdata : ∀ b ∈ bs.head?, b.data ≠ [])
    (hload : s.chunk.load src size.toNat ++ xs = blockBytes bs)
    (hrun : ∀ b bs', bs = b :: bs' → InData cfg s b.data b.hdr bs' →
      ∃ s', decrptPlLoop cfg fuel src size src s = .ok () s' ∧
        Sent cfg e (.data b.data b.hdr bs') size.toNat s s') :
    ∃ s', (match (if size ≠ 0 ∧ s.sizeofData ≠ 0 then some (src, size, src) else none) with
        | some (srcAddr, size, nextBlkAddr) => decrptPlLoop cfg fuel srcAddr size nextBlkAddr
        | none => pure ()) s = .ok () s' ∧ Sent cfg e (skip bs 0) size.toNat s s' := by
  by_cases hsize : size = 0
  · subst hsize
    rw [if_neg fun h => h.1 rfl]
    refine ⟨s, rfl, ?_⟩
    show Sent cfg e (skip bs 0) 0 s s
    refine ⟨?_, ?_⟩ <;> rw [skip_advance]
    exact hplace
  · obtain ⟨b, bs, rfl, hb, hsizeof⟩ := next_block hplace hdata hload hsize
    rw [skip_zero_cons (hdata b rfl), if_pos ⟨hsize, hsizeof⟩]
    exact hrun b bs rfl hb

theorem decrptPlPass_last {a : Nat} {nextBlkAddr : Nat}
    (h : decrptData cfg src size s = .ok (a, 0) s') :
    decrptPlPass cfg src size nextBlkAddr s = .ok none s' := by
  unfold decrptPlPass
  rw [bind_apply, h]
  dsimp only
  rw [bind_apply]
  show (if s'.sizeofData = 0 ∧ (0 : UInt32) ≠ 0 then _ else _ :
    Pl (Option (Nat × UInt32 × Nat))) s' = _
  rw [if_neg fun hc => hc.2 rfl]
  rfl

theorem decrptPlLoop_last {fuel nextBlkAddr : Nat}
    (h : decrptPlPass cfg src size nextBlkAddr s = .ok none s') :
    decrptPlLoop cfg (fuel + 1) src size nextBlkAddr s = .ok () s' := by
  rw [decrptPlLoop, bind_apply, h]
  rfl

theorem Follows.head {e : AesEngine} {past : List Item} (h : Follows e past bs) :
    ∀ b ∈ bs.head?, b.data ≠ [] := by
  intro b hb
  cases bs with
  | nil => cases hb
  | cons b' bs =>
    obtain rfl := Option.some.inj hb
    exact h.2.2.1

/-- The loop from the data of a block, given what it does from the next. -/
theorem decrptPlLoop_step {xs : List UInt8} {fuel nextBlkAddr : Nat} (h : InData cfg s rest hdr bs)
    (hsrc : src % 4 = 0) (hwords : size.toNat % 4 = 0) (he : src + size.toNat = e)
    (hload : s.chunk.load src size.toNat ++ xs = rest ++ hdr ++ blockBytes bs)
    (hnext : ∀ b bs' t src' l, bs = b :: bs' → InData cfg t b.data b.hdr bs' → src' % 4 = 0 →
      l.toNat % 4 = 0 → src' + l.toNat = e →
      t.chunk.load src' l.toNat ++ xs = b.data ++ b.hdr ++ blockBytes bs' →
      ∃ s', decrptPlLoop cfg fuel src' l src' t = .ok () s' ∧
        Sent cfg e (.data b.data b.hdr bs') l.toNat t s') :
    ∃ s', decrptPlLoop cfg (fuel + 1) src size nextBlkAddr s = .ok () s' ∧
      Sent cfg e (.data rest hdr bs) size.toNat s s' := by
  have hrestWords := h.words
  by_cases hle : size.toNat ≤ rest.length
  · have hpre := load_take hload (Nat.le_refl _)
    rw [List.append_assoc, List.take_append_of_le_length hle] at hpre
    obtain ⟨s', hdata, hsent⟩ := decrptData_within (e := e) h hsrc hwords hle hpre
    exact ⟨s', decrptPlLoop_last (decrptPlPass_last hdata), hsent⟩
  by_cases hcut : size.toNat < rest.length + 64
  · obtain ⟨s', a, hdata, hsent⟩ := decrptData_cut h hsrc hwords (by omega) hcut hload
    rw [he] at hsent
    exact ⟨s', decrptPlLoop_last (decrptPlPass_last hdata), hsent⟩
  obtain ⟨t, l, hpass, hsent, hchunk, hl⟩ := @decrptPlPass_over cfg s bs rest hdr e src size xs
    nextBlkAddr h hsrc (by omega) hload
  let src' := src + (rest.length + 64)
  have hsrc' : src' % 4 = 0 := by omega
  have hadvance : (Place.data rest hdr bs).advance (rest.length + 64) = skip bs 0 := by
    rw [← advance_advance, advance_rest]
    rfl
  have hload' : t.chunk.load src' l.toNat ++ xs = blockBytes bs := by
    have hlen : (rest ++ hdr).length = rest.length + 64 := by rw [List.length_append, h.length]
    have hsuffix := load_drop hload (j := rest.length + 64) (by omega)
    rwa [List.drop_left' hlen, ← hchunk, ← hl] at hsuffix
  have hplace := hsent.place
  rw [hadvance] at hplace
  obtain ⟨s', hrun, hsent'⟩ := @decrptPlLoop_next cfg t bs e src' l xs fuel hplace h.follows.head hload'
    fun b bs' hbs hb => hnext b bs' t src' l hbs hb hsrc' (by omega) (by omega) (by rw [hload', hbs]; rfl)
  rw [← hadvance] at hsent'
  have hall := hsent.trans hsent'
  rw [show rest.length + 64 + l.toNat = size.toNat by omega] at hall
  refine ⟨s', ?_, hall⟩
  rw [decrptPlLoop, bind_apply, hpass]
  exact hrun

/-- The loop from the data of a block, by induction on the blocks behind it. -/
theorem decrptPlLoop_run {xs : List UInt8} {fuel nextBlkAddr : Nat} (h : InData cfg s rest hdr bs)
    (hfuel : bs.length < fuel) (hsrc : src % 4 = 0) (hwords : size.toNat % 4 = 0)
    (he : src + size.toNat = e)
    (hload : s.chunk.load src size.toNat ++ xs = rest ++ hdr ++ blockBytes bs) :
    ∃ s', decrptPlLoop cfg fuel src size nextBlkAddr s = .ok () s' ∧
      Sent cfg e (.data rest hdr bs) size.toNat s s' := by
  induction bs generalizing s rest hdr src size nextBlkAddr fuel with
  | nil =>
    obtain ⟨fuel, rfl⟩ := Nat.exists_eq_add_one_of_ne_zero (Nat.ne_of_gt hfuel)
    exact decrptPlLoop_step h hsrc hwords he hload nofun
  | cons b bs ih =>
    obtain ⟨fuel, rfl⟩ := Nat.exists_eq_add_one_of_ne_zero (Nat.ne_of_gt (Nat.zero_lt_of_lt hfuel))
    refine decrptPlLoop_step h hsrc hwords he hload ?_
    rintro _ _ t src' l ⟨⟩ hb hsrc' hl he' hload'
    exact ih hb (Nat.lt_of_succ_lt_succ hfuel) hsrc' hl he' hload'

end Machine

end MeasuredBoot.PlDecrypt
