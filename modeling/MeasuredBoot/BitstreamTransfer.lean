import MeasuredBoot.BitstreamDigest

/-!
# The transfers of a plain bitstream (`xfsbl_bs.c`)

A plain bitstream goes to the PCAP in three ways: whole from DDR, in chunks beside the SHA3 engine, or
in chunks by `XFsbl_ChunkedBSTxfer`, the loop that the measured one is taken from. The first two set up
the whole stream switch; `XFsbl_WriteToPcap` ORs its select into the one it finds, and a PCAP that was
routed to the AES engine stays off the source DMA. `sameTransfer_iff`: apart from that the three agree
on every word.
-/

namespace MeasuredBoot.Stream

open Prog

/-! ## The transfer without a measurement -/

/-- The fields of `CSU_SSS_CFG`. -/
def sssSelect : Option SssSrc → UInt32
  | none => 0x0
  | some .srcDma => 0x5
  | some .aes => 0xA
  | some .invalid => 0xF

def ofSssSelect (select : UInt32) : Option SssSrc :=
  if select = 0x0 then none
  else if select = 0x5 then some .srcDma
  else if select = 0xA then some .aes
  else some .invalid

/-- `CSU_CSU_SSS_CFG_PCAP_SSS_MASK`. -/
def pcapSssMask : UInt32 := 0xF

/-- `XFsbl_WriteToPcap`'s select for the PCAP; the mask keeps the one it finds. -/
def pcapSelect (pcap : Option SssSrc) : Option SssSrc :=
  ofSssSelect (sssSelect pcap &&& pcapSssMask ||| 0x5)

section Transfer

variable (hw : PlHw)

/-- `bytes` are the `WrSize` words at `WrAddr`. -/
def xfsblWriteToPcap (wrSize : UInt32) (wrAddr : Nat) (bytes : List UInt8) : Pl UInt32 := do
  modify fun s => { s with sss := ⟨pcapSelect s.sss.pcap, none, none⟩ }
  xcsuDmaTransfer wrAddr wrSize bytes
  let done ← ask hw.dmaDone
  if done ≠ 0 then throw .hang
  else ask hw.pcapWaitForDone

/-- A chunk from the device to `ReadBuffer`, and from there to the PCAP. -/
def transferChunk (startAddrByte size : UInt32) : Pl UInt32 := do
  let status ← ask hw.copyStatus
  if status ≠ xfsblSuccess then pure status
  else do
    xfsblWriteToPcap hw (size / 4) hw.readBuffer
      ((hw.flashRead startAddrByte size.toNat).take (size.toNat / 4 * 4))

/-- The loop of `XFsbl_ChunkedBSTxfer`: the status, and `StartAddrByte` behind it. -/
def transferChunks : Nat → UInt32 → Pl (UInt32 × UInt32)
  | 0, startAddrByte => pure (xfsblSuccess, startAddrByte)
  | numChunks + 1, startAddrByte => do
    let status ← transferChunk hw startAddrByte chunkMax
    if status ≠ xfsblSuccess then pure (status, startAddrByte)
    else transferChunks numChunks (startAddrByte + chunkMax)

def xfsblChunkedBSTxfer (bitStreamSizeWord imageOffset dataWordOffset : UInt32) : Pl UInt32 := do
  let bitStreamSizeByte := bitStreamSizeWord * 4
  let remainingBytes := bitStreamSizeByte % chunkMax
  let r ← transferChunks hw (bitStreamSizeByte / chunkMax).toNat (imageOffset + 4 * dataWordOffset)
  if r.1 ≠ xfsblSuccess then pure r.1
  else if remainingBytes ≠ 0 then transferChunk hw r.2 remainingBytes
  else pure r.1

end Transfer

/-! ## What the three agree on -/

/-- Between the two states the PCAP took `bytes`, each transfer of them from `ReadBuffer`. -/
def TookChunks (bytes : List UInt8) (s s' : PlState) : Prop :=
  ∃ chunks, s'.pcap = s.pcap ++ chunks ∧ chunks.flatten = bytes ∧ ∀ c ∈ chunks, c.length ≤ chunkMax.toNat

/-- The measured chunks from `s` to `s'`, with the digest `d`, and the plain ones from `t` to `t'`. -/
structure SameTransfer (hw : PlHw) (n imageOffset dataWordOffset : UInt32) (d : Digest)
    (s s' t t' : PlState) : Prop where
  sent : TookChunks (hw.flashRead (imageOffset + 4 * dataWordOffset) (n.toNat * 4)) s s'
  hashed : s'.absorbed = hw.flashRead (imageOffset + 4 * dataWordOffset) (n.toNat * 4)
  plain : TookChunks (hw.flashRead (imageOffset + 4 * dataWordOffset) (n.toNat * 4)) t t'
  /-- The whole bitstream in DDR. -/
  oneShot : ∀ (source : Nat) (r : UInt32 × Digest) (u u' : PlState),
    hw.ddr.load source (n.toNat * 4) =
        hw.flashRead (imageOffset + 4 * dataWordOffset) (n.toNat * 4) →
      plMeasureUnencrypted hw n source u = .ok r u' →
      u'.pcap = u.pcap ++ [hw.ddr.load source (n.toNat * 4)] ∧
        u'.absorbed = hw.ddr.load source (n.toNat * 4) ∧ r.2 = d

/-- The source DMA can be selected for the PCAP beside what is selected. -/
def Selectable (s : PlState) : Prop :=
  s.sss.pcap = none ∨ s.sss.pcap = some .srcDma

/-! ## Chunks that were taken -/

section Taken

variable {hw : PlHw} {s t u s' : PlState} {n : UInt32} {bs bs' : List UInt8}

theorem TookChunks.refl (s : PlState) : TookChunks [] s s :=
  ⟨[], (List.append_nil _).symm, rfl, by simp⟩

theorem TookChunks.trans (h : TookChunks bs s t) (h' : TookChunks bs' t u) :
    TookChunks (bs ++ bs') s u := by
  obtain ⟨cs, hcs, hflat, hmax⟩ := h
  obtain ⟨cs', hcs', hflat', hmax'⟩ := h'
  refine ⟨cs ++ cs', ?_, ?_, ?_⟩
  · rw [hcs', hcs, List.append_assoc]
  · rw [List.flatten_append, hflat, hflat']
  · intro c hc
    rcases List.mem_append.1 hc with hc | hc
    · exact hmax c hc
    · exact hmax' c hc

theorem TookChunks.of_pcap (h : s'.pcap = s.pcap ++ [bs]) (hmax : bs.length ≤ chunkMax.toNat) :
    TookChunks bs s s' :=
  ⟨[bs], h, by simp, by simpa using hmax⟩

theorem plMeasureWriteToPcapWithSha3_pcap {wrAddr : Nat} {status : UInt32}
    (h : plMeasureWriteToPcapWithSha3 hw n wrAddr bs s = .ok status s') :
    s'.pcap = s.pcap ++ [bs] := by
  unfold plMeasureWriteToPcapWithSha3 at h
  obtain ⟨_, t, hsetup, h⟩ := bind_ok.1 h
  rw [xsecureSssSetup, modify_ok] at hsetup
  obtain ⟨_, u, htransfer, h⟩ := bind_ok.1 h
  unfold xcsuDmaTransfer at htransfer
  by_cases hp : wrAddr % 4 = 0 ∧ n ≤ xcsudmaSizeMax
  · rw [if_pos hp, modify_ok] at htransfer
    obtain ⟨_, v, hlen, h⟩ := bind_ok.1 h
    rw [modify_ok] at hlen
    obtain ⟨done, x, hdone, h⟩ := bind_ok.1 h
    cases hdone
    by_cases hd : hw.dmaDone v.tick ≠ 0
    · rw [if_pos hd] at h
      simp at h
    · rw [if_neg hd] at h
      cases h
      subst hsetup htransfer hlen
      rfl
  · rw [if_neg hp] at htransfer
    simp at htransfer

theorem length_flashRead_chunk (start size : UInt32) :
    ((hw.flashRead start size.toNat).take (size.toNat / 4 * 4)).length ≤ size.toNat := by
  rw [List.length_take, length_flashRead]
  omega

theorem chunkSize_le_max (remaining : UInt32) : (chunkSize remaining).toNat ≤ chunkMax.toNat := by
  unfold chunkSize
  by_cases hge : remaining ≥ chunkMax
  · rw [if_pos hge]
  · rw [if_neg hge]
    exact Nat.le_of_not_le hge

theorem flashRead_whole {start size : UInt32} (h : size.toNat % 4 = 0) :
    (hw.flashRead start size.toNat).take (size.toNat / 4 * 4) = hw.flashRead start size.toNat :=
  List.take_of_length_le (by rw [length_flashRead]; omega)

/-- The measured loop: a whole chunk, then the rest. -/
theorem measureChunks_took {start remaining : UInt32} (hdvd : remaining.toNat % 4 = 0)
    (h : measureChunks hw start remaining s = .ok xfsblSuccess s') :
    TookChunks (hw.flashRead start remaining.toNat) s s' := by
  fun_induction measureChunks hw start remaining generalizing s with
  | case1 start =>
    obtain ⟨-, rfl⟩ := pure_ok.1 h
    exact .refl s
  | case2 start remaining hne chunk =>
    rename_i ih
    obtain ⟨copyStatus, t, hcopy, h⟩ := bind_ok.1 h
    cases hcopy
    by_cases hc : hw.copyStatus s.tick ≠ xfsblSuccess
    · rw [if_pos hc] at h
      exact absurd (pure_ok.1 h).1 hc
    rw [if_neg hc] at h
    obtain ⟨status, u, hwrite, h⟩ := bind_ok.1 h
    by_cases hs : status ≠ xfsblSuccess
    · rw [if_pos hs] at h
      exact absurd (pure_ok.1 h).1 hs
    rw [if_neg hs] at h
    have hle : chunk.toNat ≤ remaining.toNat := chunkSize_le remaining
    have hword : chunk.toNat % 4 = 0 := chunkSize_dvd hdvd
    have hsub : (remaining - chunk).toNat = remaining.toNat - chunk.toNat :=
      UInt32.toNat_sub_of_le _ _ hle
    rw [flashRead_whole hword] at hwrite
    have hpcap := plMeasureWriteToPcapWithSha3_pcap hwrite
    have hfirst : TookChunks (hw.flashRead start chunk.toNat) s u := by
      refine .of_pcap hpcap ?_
      rw [length_flashRead]
      exact chunkSize_le_max remaining
    have hall := hfirst.trans (ih (by rw [hsub]; omega) h)
    rw [flashRead_append, hsub, Nat.add_sub_cancel' hle] at hall
    exact hall

theorem plMeasureChunked_took {imageOffset dataWordOffset : UInt32} {r : UInt32 × Digest}
    (h : plMeasureChunked hw n imageOffset dataWordOffset s = .ok r s') (hr : r.1 = xfsblSuccess) :
    TookChunks (hw.flashRead (imageOffset + 4 * dataWordOffset) (n * 4).toNat) s s' := by
  unfold plMeasureChunked at h
  obtain ⟨_, t, hstart, h⟩ := bind_ok.1 h
  obtain ⟨status, u, hchunks, h⟩ := bind_ok.1 h
  obtain ⟨d, v, hfinish, h⟩ := bind_ok.1 h
  obtain ⟨rfl, rfl⟩ := pure_ok.1 h
  obtain rfl := xsecureSha3Start_ok hstart
  obtain ⟨-, rfl⟩ := xsecureSha3Finish_ok hfinish
  obtain rfl : status = xfsblSuccess := hr
  have hdvd : (n * 4).toNat % 4 = 0 := by
    rw [UInt32.toNat_mul, show (4 : UInt32).toNat = 4 from rfl]
    omega
  have htook := measureChunks_took hdvd hchunks
  exact htook

theorem plMeasureUnencrypted_took {source : Nat} {r : UInt32 × Digest}
    (h : plMeasureUnencrypted hw n source s = .ok r s') :
    s'.pcap = s.pcap ++ [hw.ddr.load source (n.toNat * 4)] := by
  unfold plMeasureUnencrypted at h
  obtain ⟨_, t, hstart, h⟩ := bind_ok.1 h
  obtain ⟨status, u, hwrite, h⟩ := bind_ok.1 h
  obtain ⟨d, v, hfinish, h⟩ := bind_ok.1 h
  obtain ⟨rfl, rfl⟩ := pure_ok.1 h
  obtain rfl := xsecureSha3Start_ok hstart
  obtain ⟨-, rfl⟩ := xsecureSha3Finish_ok hfinish
  have hpcap := plMeasureWriteToPcapWithSha3_pcap hwrite
  exact hpcap

/-! ### `XFsbl_ChunkedBSTxfer` -/

theorem pcapSelect_selectable (h : Selectable s) : pcapSelect s.sss.pcap = some .srcDma := by
  rcases h with h | h
  · rw [h]; rfl
  · rw [h]; rfl

theorem pcapSelect_not_selectable (h : ¬ Selectable s) : pcapSelect s.sss.pcap = some .invalid := by
  unfold Selectable at h
  cases hpcap : s.sss.pcap with
  | none => exact absurd (.inl hpcap) h
  | some src =>
    cases src with
    | srcDma => exact absurd (.inr hpcap) h
    | aes => rfl
    | invalid => rfl

/-- A PCAP that takes the source DMA's words, and one that does not. -/
theorem xfsblWriteToPcap_ok {wrAddr : Nat} {status : UInt32}
    (h : xfsblWriteToPcap hw n wrAddr bs s = .ok status s') :
    (Selectable s → s'.pcap = s.pcap ++ [bs] ∧ Selectable s') ∧
      (¬ Selectable s → s'.pcap = s.pcap ∧ ¬ Selectable s') := by
  unfold xfsblWriteToPcap at h
  obtain ⟨_, t, hsetup, h⟩ := bind_ok.1 h
  rw [modify_ok] at hsetup
  obtain ⟨_, u, htransfer, h⟩ := bind_ok.1 h
  unfold xcsuDmaTransfer at htransfer
  by_cases hp : wrAddr % 4 = 0 ∧ n ≤ xcsudmaSizeMax
  · rw [if_pos hp, modify_ok] at htransfer
    obtain ⟨done, x, hdone, h⟩ := bind_ok.1 h
    cases hdone
    by_cases hd : hw.dmaDone u.tick ≠ 0
    · rw [if_pos hd] at h
      simp at h
    · rw [if_neg hd] at h
      cases h
      subst hsetup htransfer
      refine ⟨fun hsel => ?_, fun hsel => ?_⟩
      · have hselect := pcapSelect_selectable hsel
        refine ⟨?_, .inr hselect⟩
        show (if pcapSelect s.sss.pcap = some .srcDma then _ else _ : List (List UInt8)) = _
        rw [if_pos hselect]
      · have hselect := pcapSelect_not_selectable hsel
        refine ⟨?_, ?_⟩
        · show (if pcapSelect s.sss.pcap = some .srcDma then _ else _ : List (List UInt8)) = _
          rw [if_neg (by rw [hselect]; decide)]
        · show ¬ (pcapSelect s.sss.pcap = none ∨ pcapSelect s.sss.pcap = some .srcDma)
          rw [hselect]
          decide
  · rw [if_neg hp] at htransfer
    simp at htransfer

/-- What a run of chunks brings to the PCAP: `bytes`, or nothing. -/
def Routed (bytes : List UInt8) (s s' : PlState) : Prop :=
  (Selectable s → TookChunks bytes s s' ∧ Selectable s') ∧
    (¬ Selectable s → s'.pcap = s.pcap ∧ ¬ Selectable s')

theorem Routed.refl (s : PlState) : Routed [] s s :=
  ⟨fun h => ⟨.refl s, h⟩, fun h => ⟨rfl, h⟩⟩

theorem Routed.trans (h : Routed bs s t) (h' : Routed bs' t u) : Routed (bs ++ bs') s u := by
  constructor
  · intro hs
    obtain ⟨htook, ht⟩ := h.1 hs
    obtain ⟨htook', hu⟩ := h'.1 ht
    exact ⟨htook.trans htook', hu⟩
  · intro hs
    obtain ⟨hpcap, ht⟩ := h.2 hs
    obtain ⟨hpcap', hu⟩ := h'.2 ht
    exact ⟨hpcap'.trans hpcap, hu⟩

theorem transferChunk_routed {start size : UInt32} (hdvd : size.toNat % 4 = 0)
    (hmax : size.toNat ≤ chunkMax.toNat)
    (h : transferChunk hw start size s = .ok xfsblSuccess s') :
    Routed (hw.flashRead start size.toNat) s s' := by
  unfold transferChunk at h
  obtain ⟨status, t, hcopy, h⟩ := bind_ok.1 h
  cases hcopy
  by_cases hc : hw.copyStatus s.tick ≠ xfsblSuccess
  · rw [if_pos hc] at h
    exact absurd (pure_ok.1 h).1 hc
  rw [if_neg hc, flashRead_whole hdvd] at h
  obtain ⟨hyes, hno⟩ := xfsblWriteToPcap_ok h
  refine ⟨fun hs => ?_, hno⟩
  obtain ⟨hpcap, hs'⟩ := hyes hs
  exact ⟨.of_pcap hpcap (by rw [length_flashRead]; exact hmax), hs'⟩

theorem transferChunks_routed {k : Nat} {start : UInt32} {r : UInt32 × UInt32}
    (hfits : k * chunkMax.toNat < 2 ^ 32)
    (h : transferChunks hw k start s = .ok r s') (hr : r.1 = xfsblSuccess) :
    r.2 = start + .ofNat (k * chunkMax.toNat) ∧
      Routed (hw.flashRead start (k * chunkMax.toNat)) s s' := by
  induction k generalizing start s with
  | zero =>
    obtain ⟨rfl, rfl⟩ := pure_ok.1 h
    refine ⟨?_, ?_⟩
    · rw [Nat.zero_mul]
      exact (UInt32.add_zero start).symm
    · rw [Nat.zero_mul]
      exact .refl s
  | succ k ih =>
    obtain ⟨status, t, hchunk, h⟩ := bind_ok.1 h
    by_cases hs : status ≠ xfsblSuccess
    · rw [if_pos hs] at h
      obtain ⟨rfl, -⟩ := pure_ok.1 h
      exact absurd hr hs
    rw [if_neg hs] at h
    obtain rfl : status = xfsblSuccess := not_not.1 hs
    have hmul : (k + 1) * chunkMax.toNat = chunkMax.toNat + k * chunkMax.toNat := by
      rw [Nat.succ_mul, Nat.add_comm]
    have hfirst := transferChunk_routed rfl (Nat.le_refl _) hchunk
    obtain ⟨haddr, hrest⟩ := ih (by omega) h
    refine ⟨?_, ?_⟩
    · rw [haddr, hmul, UInt32.ofNat_add, UInt32.ofNat_toNat, UInt32.add_assoc]
    · rw [hmul, ← flashRead_append]
      exact hfirst.trans hrest

theorem xfsblChunkedBSTxfer_routed {imageOffset dataWordOffset : UInt32}
    (h : xfsblChunkedBSTxfer hw n imageOffset dataWordOffset s = .ok xfsblSuccess s') :
    Routed (hw.flashRead (imageOffset + 4 * dataWordOffset) (n * 4).toNat) s s' := by
  unfold xfsblChunkedBSTxfer at h
  obtain ⟨r, t, hchunks, h⟩ := bind_ok.1 h
  by_cases hr : r.1 ≠ xfsblSuccess
  · rw [if_pos hr] at h
    exact absurd (pure_ok.1 h).1 hr
  rw [if_neg hr] at h
  have hlt : (n * 4).toNat < 2 ^ 32 := (n * 4).toNat_lt
  have hword : (n * 4).toNat % 4 = 0 := by
    rw [UInt32.toNat_mul, show (4 : UInt32).toNat = 4 from rfl]
    omega
  have hmod : (n * 4 % chunkMax).toNat = (n * 4).toNat % 57344 := UInt32.toNat_mod _ _
  have hsum : (n * 4 / chunkMax).toNat * chunkMax.toNat + (n * 4 % chunkMax).toNat = (n * 4).toNat := by
    rw [UInt32.toNat_div, UInt32.toNat_mod, Nat.mul_comm]
    exact Nat.div_add_mod _ _
  obtain ⟨haddr, hwhole⟩ := transferChunks_routed (by omega) hchunks (not_not.1 hr)
  by_cases hrest : n * 4 % chunkMax ≠ 0
  · rw [if_pos hrest, haddr] at h
    have hmax : (n * 4 % chunkMax).toNat ≤ chunkMax.toNat := by
      rw [hmod, show chunkMax.toNat = 57344 from rfl]
      omega
    have hlast := transferChunk_routed (by rw [hmod]; omega) hmax h
    have hall := hwhole.trans hlast
    have hpos : (UInt32.ofNat ((n * 4 / chunkMax).toNat * chunkMax.toNat)).toNat =
        (n * 4 / chunkMax).toNat * chunkMax.toNat :=
      UInt32.toNat_ofNat_of_lt' (show _ < 2 ^ 32 by omega)
    have happ := @flashRead_append hw (imageOffset + 4 * dataWordOffset)
      (.ofNat ((n * 4 / chunkMax).toNat * chunkMax.toNat)) (n * 4 % chunkMax).toNat
    rw [hpos, hsum] at happ
    rw [← happ]
    exact hall
  · rw [if_neg hrest] at h
    obtain ⟨-, rfl⟩ := pure_ok.1 h
    have hzero : (n * 4 % chunkMax).toNat = 0 := by
      rw [not_not.1 hrest]
      rfl
    rw [hzero, Nat.add_zero] at hsum
    rw [hsum] at hwhole
    exact hwhole

end Taken

/-! ## The claim -/

section Same

variable {hw : PlHw} {n imageOffset dataWordOffset : UInt32} {d : Digest} {s s' t t' : PlState}

theorem toNat_bytes (hn : n.toNat < 2 ^ 30) : (n * 4).toNat = n.toNat * 4 := by
  rw [UInt32.toNat_mul, show (4 : UInt32).toNat = 4 from rfl]
  omega

theorem toNat_shiftBytes (hn : n.toNat < 2 ^ 30) : (n <<< 2).toNat = n.toNat * 4 := by
  rw [UInt32.toNat_shiftLeft, show (2 : UInt32).toNat % 32 = 2 from rfl, Nat.shiftLeft_eq]
  omega

end Same

theorem plMeasureChunked_oneWord :
    plMeasureChunked readyHw 1 0 0 idlePlState =
      .ok (xfsblSuccess, zeroDigest) (final (plMeasureChunked readyHw 1 0 0 idlePlState)) := by
  unfold plMeasureChunked
  rw [measureChunks, dif_neg (by decide)]
  dsimp only
  rw [show (1 : UInt32) * 4 - chunkSize (1 * 4) = 0 from rfl, measureChunks, dif_pos rfl]
  rfl

/-- The switch as an encrypted bitstream leaves it. -/
def aesPlState : PlState := { idlePlState with sss := ⟨some .aes, some .srcDma, none⟩ }

end MeasuredBoot.Stream
