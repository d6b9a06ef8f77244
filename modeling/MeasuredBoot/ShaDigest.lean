import MeasuredBoot.ShaDriver

/-!
# `XFsbl_ShaDigest` (`xfsbl_rsa_sha.c`)

The digest of a buffer, fed to the driver in chunks of at most 1024 bytes, which no block of the engine divides.
`shaDigest_chunks`: the chunks are the buffer, and with an engine that works the digest is the hash
of all of it.
-/

namespace MeasuredBoot.Csu

open Prog

/-! ## Source -/

def xfsblHashTypeSha3 : UInt32 := 48

/-- An operation on `SecureSha3`. -/
def onSha3 {α : Type} (f : Sha3 → ShaM (α × Sha3)) : ShaM α := do
  let s ← get
  let r ← f s.secureSha3
  modify fun s => { s with secureSha3 := r.2 }
  pure r.1

section Wrappers

variable (hw : ShaHw)

/-- The status of the initialisation is dropped. -/
def initializeAndStart (sha : Sha3) : ShaM (Unit × Sha3) := do
  let r ← xsecureSha3Initialize hw sha
  let sha ← xsecureSha3Start r.2
  pure ((), sha)

def xfsblShaStart (hashLen : UInt32) : ShaM Unit :=
  if hashLen = xfsblHashTypeSha3 then onSha3 (initializeAndStart hw) else pure ()

/-- The status is dropped. -/
def updateDropped (mem : Mem) (data : Nat) (size : UInt32) : ShaM Unit := do
  let _ ← onSha3 fun sha => xsecureSha3Update hw sha mem data size

def xfsblShaUpdate (mem : Mem) (data : Nat) (size hashLen : UInt32) : ShaM Unit :=
  if hashLen = xfsblHashTypeSha3 then updateDropped hw mem data size else pure ()

/-- The status is dropped. -/
def finishDropped (hash : Digest) : ShaM Digest :=
  onSha3 fun sha => do
    let r ← xsecureSha3Finish hw sha hash
    pure r.2

def xfsblShaFinish (hash : Digest) (hashLen : UInt32) : ShaM Digest :=
  if hashLen = xfsblHashTypeSha3 then finishDropped hw hash else pure hash

def chunkSize (remainingData : UInt32) : UInt32 := if remainingData > 1024 then 1024 else remainingData

theorem toNat_chunkSize (n : UInt32) : (chunkSize n).toNat = min n.toNat 1024 := by
  unfold chunkSize
  have h1024 : (1024 : UInt32).toNat = 1024 := rfl
  split
  next h =>
    have := UInt32.lt_iff_toNat_lt.mp h
    omega
  next h =>
    have := UInt32.le_iff_toNat_le.mp (UInt32.not_lt.mp h)
    omega

def shaDigestLoop (mem : Mem) (currentDataPointer : Nat) (remainingData : UInt32) : ShaM Unit :=
  if remainingData > 0 then do
    let currentChunkSize := chunkSize remainingData
    updateDropped hw mem currentDataPointer currentChunkSize
    shaDigestLoop mem (currentDataPointer + currentChunkSize.toNat) (remainingData - currentChunkSize)
  else pure ()
termination_by remainingData.toNat
decreasing_by
  rename_i h
  have hpos : 0 < remainingData.toNat := UInt32.lt_iff_toNat_lt.mp h
  have hchunk := toNat_chunkSize remainingData
  rw [UInt32.toNat_sub_of_le _ _ (UInt32.le_iff_toNat_le.mpr (by omega))]
  omega

def xfsblShaDigest (mem : Mem) (input : Nat) (size : UInt32) (out : Digest) (hashLen : UInt32) :
    ShaM Digest :=
  if hashLen = xfsblHashTypeSha3 then do
    onSha3 (initializeAndStart hw)
    shaDigestLoop hw mem input size
    finishDropped hw out
  else pure out

end Wrappers

/-! ## The updates of a run -/

/-- The updates from `s` to `t` are chunks, and make up `m`. -/
def Feeds (m : List UInt8) (s t : ShaState) : Prop :=
  ∃ us, t.updates = s.updates ++ us ∧ (∀ u ∈ us, u ≠ [] ∧ u.length ≤ 1024) ∧ us.flatten = m

theorem Feeds.none {s t : ShaState} (h : t.updates = s.updates) : Feeds [] s t :=
  ⟨[], by rw [h, List.append_nil], fun _ hu => (List.not_mem_nil hu).elim, rfl⟩

theorem Feeds.one {s t : ShaState} {m : List UInt8} (h : t.updates = s.updates ++ [m]) (hm : m ≠ [])
    (hlen : m.length ≤ 1024) : Feeds m s t :=
  ⟨[m], h, by simpa using ⟨hm, hlen⟩, by simp⟩

theorem Feeds.trans {s t v : ShaState} {m n : List UInt8} (h : Feeds m s t) (h' : Feeds n t v) :
    Feeds (m ++ n) s v := by
  obtain ⟨us, hus, hall, rfl⟩ := h
  obtain ⟨vs, hvs, hall', rfl⟩ := h'
  refine ⟨us ++ vs, by rw [hvs, hus, List.append_assoc], fun u hu => ?_, List.flatten_append⟩
  exact (List.mem_append.1 hu).elim (hall u) (hall' u)

section Updates

variable {hw : ShaHw} {mem : Mem} {s t : ShaState} {data : Nat} {size : UInt32} {u : Unit}

/-- What an operation on the instance leaves of the rest, however it ends. -/
theorem final_onSha3 {α : Type} (f : Sha3 → ShaM (α × Sha3)) (s : ShaState) :
    (final (onSha3 f s)).updates = (final (f s.secureSha3 s)).updates := by
  show (final ((f s.secureSha3 >>= _) s)).updates = _
  rw [bind_apply]
  cases f s.secureSha3 s with
  | ok r t => rfl
  | error e t => rfl

theorem updates_update (sha : Sha3) (s : ShaState) :
    (final (xsecureSha3Update hw sha mem data size s)).updates =
      s.updates ++ [mem.load data size.toNat] := by
  have hkeeps : Frame Keeps (do
      assert (sha.sha3State = .engineStarted)
      let r ← updateLoop hw { sha with sha3Len := sha.sha3Len + size } mem data size
      if r.1 ≠ xfsblSuccess then pure (r.1, { r.2 with sha3State := .initialized })
      else pure r : ShaM (UInt32 × Sha3)) := by
    refine frame_bind (keeps_assert _) fun _ => frame_bind (keeps_updateLoop _ _ _ _) fun _ => ?_
    exact frame_ite (fun _ => frame_pure _) fun _ => frame_pure _
  exact (hkeeps { s with updates := s.updates ++ [mem.load data size.toNat] }).updates

theorem updates_updateDropped (s : ShaState) :
    (final (updateDropped hw mem data size s)).updates = s.updates ++ [mem.load data size.toNat] := by
  have hdrop : final (updateDropped hw mem data size s) =
      final (onSha3 (fun sha => xsecureSha3Update hw sha mem data size) s) :=
    final_seq (fun _ _ => rfl) s
  rw [hdrop, final_onSha3, updates_update]

theorem updates_start (hw : ShaHw) (s : ShaState) :
    (final (onSha3 (initializeAndStart hw) s)).updates = s.updates := by
  rw [final_onSha3]
  have hkeeps : Frame Keeps (initializeAndStart hw s.secureSha3) :=
    frame_bind (keeps_initialized _) fun _ => frame_bind (keeps_start _) fun _ => frame_pure _
  exact (hkeeps s).updates

theorem updates_finish (hw : ShaHw) (out : Digest) (s : ShaState) :
    (final (finishDropped hw out s)).updates = s.updates := by
  unfold finishDropped
  rw [final_onSha3]
  exact ((frame_bind (keeps_finish s.secureSha3 out) fun _ => frame_pure _) s).updates

/-- A chunk is fed, whatever becomes of it. -/
theorem feeds_chunk (hw : ShaHw) (mem : Mem) (data : Nat) (hsize : size > 0) (s : ShaState) :
    Feeds (mem.load data (chunkSize size).toNat) s (final (updateDropped hw mem data (chunkSize size) s)) := by
  have hpos : 0 < size.toNat := UInt32.lt_iff_toNat_lt.mp hsize
  have hchunk := toNat_chunkSize size
  refine .one (updates_updateDropped s) (List.ne_nil_of_length_pos ?_) ?_
  · rw [Mem.length_load]
    omega
  · rw [Mem.length_load]
    omega

theorem load_chunk (mem : Mem) (data : Nat) (size : UInt32) :
    mem.load data size.toNat = mem.load data (chunkSize size).toNat ++
      mem.load (data + (chunkSize size).toNat) (size - chunkSize size).toNat := by
  have hchunk := toNat_chunkSize size
  rw [← Mem.load_add, UInt32.toNat_sub_of_le _ _ (UInt32.le_iff_toNat_le.mpr (by omega)),
    Nat.add_sub_cancel' (by omega)]

/-- However the loop ends, what it fed is a beginning of the data; if it returns, all of it. -/
theorem feeds_loop (hw : ShaHw) (mem : Mem) (data : Nat) (size : UInt32) (s : ShaState) :
    ∃ m, Feeds m s (final (shaDigestLoop hw mem data size s)) ∧ m <+: mem.load data size.toNat ∧
      ∀ t, shaDigestLoop hw mem data size s = .ok () t → m = mem.load data size.toNat := by
  induction data, size using shaDigestLoop.induct generalizing s with
  | case1 data size hsize chunk =>
    rename_i ih
    have hfirst := feeds_chunk hw mem data hsize s
    rw [shaDigestLoop, if_pos hsize, bind_apply, load_chunk]
    cases hrun : updateDropped hw mem data (chunkSize size) s with
    | ok u t =>
      rw [hrun] at hfirst
      obtain ⟨m, hm, hprefix, hall⟩ := ih t
      refine ⟨_, hfirst.trans hm, List.prefix_append_right_inj _ |>.2 hprefix, fun v hv => ?_⟩
      rw [hall v hv]
    | error e t =>
      rw [hrun] at hfirst
      exact ⟨_, hfirst, List.prefix_append _ _, nofun⟩
  | case2 data size hsize =>
    have hzero : size.toNat = 0 :=
      Nat.le_zero.1 (UInt32.le_iff_toNat_le.mp (UInt32.not_lt.mp hsize))
    rw [shaDigestLoop, if_neg hsize, hzero]
    exact ⟨[], .none rfl, List.prefix_rfl, fun _ _ => rfl⟩

end Updates

/-! ## The hash of a session -/

/-- The hash of `message` is under way. -/
structure Running (s : ShaState) (padType : Sha3PadType) (message : List UInt8) : Prop where
  fed : Fed s s.secureSha3 message
  padType : s.secureSha3.sha3PadType = padType
  notLast : s.secureSha3.isLastUpdate = false
  len : s.secureSha3.sha3Len = .ofNat message.length

/-- It is, unless an operation failed and put the engine under reset. -/
def Session (s : ShaState) (padType : Sha3PadType) (message : List UInt8) : Prop :=
  s.secureSha3.sha3State = .engineStarted → Running s padType message

section Session

variable {hw : ShaHw} {mem : Mem} {s t : ShaState} {padType : Sha3PadType} {message : List UInt8}
  {data : Nat} {size : UInt32} {u : Unit} {out d : Digest}

theorem onSha3_ok {α : Type} {f : Sha3 → ShaM (α × Sha3)} {a : α} (h : onSha3 f s = .ok a t) :
    ∃ v, f s.secureSha3 s = .ok (a, t.secureSha3) v ∧ t = { v with secureSha3 := t.secureSha3 } := by
  obtain ⟨w, s1, hget, h⟩ := bind_ok.1 h
  obtain ⟨rfl, rfl⟩ := get_ok.1 hget
  obtain ⟨r, v, hf, h⟩ := bind_ok.1 h
  obtain ⟨_, s2, hm, h⟩ := bind_ok.1 h
  obtain rfl := modify_ok.1 hm
  obtain ⟨rfl, rfl⟩ := pure_ok.1 h
  exact ⟨v, hf, rfl⟩

theorem Running.counts (h : Running s padType message) (hlen : message.length < 2 ^ 32) :
    s.secureSha3.Counts message := by
  refine ⟨h.notLast, ?_⟩
  rw [h.len, UInt32.toNat_ofNat_of_lt' hlen]

theorem start_ok (h : onSha3 (initializeAndStart hw) s = .ok u t) :
    t.secureSha3.sha3State = .engineStarted ∧
      ∃ p, Running t p [] ∧ (hw.cryptoCheck s.tick = xfsblSuccess → p = .nist) := by
  obtain ⟨v, h, ht⟩ := onSha3_ok h
  obtain ⟨⟨status, sha⟩, s1, hinit, h⟩ := bind_ok.1 h
  obtain ⟨sha', s2, hstart, h⟩ := bind_ok.1 h
  obtain ⟨heq, rfl⟩ := pure_ok.1 h
  obtain ⟨_, s3, hassert, hstart⟩ := bind_ok.1 hstart
  obtain ⟨-, rfl⟩ := assert_ok.1 hassert
  obtain ⟨_, s4, hm, hstart⟩ := bind_ok.1 hstart
  obtain rfl := modify_ok.1 hm
  obtain ⟨hsha', rfl⟩ := pure_ok.1 hstart
  have hsecure : sha' = t.secureSha3 := congrArg Prod.snd heq
  rw [← hsecure, ← hsha']
  refine ⟨rfl, sha.sha3PadType, ⟨⟨.empty (by decide), rfl, ?_, ?_, ?_⟩, ?_, ?_, ?_⟩, fun hcheck => ?_⟩
  · rw [ht]
    rfl
  · rw [← hsecure, ← hsha']
    rfl
  · rw [← hsecure, ← hsha']
    rfl
  · rw [← hsecure, ← hsha']
  · rw [← hsecure, ← hsha']
  · rw [← hsecure, ← hsha']
    rfl
  · obtain ⟨status', s5, hask, hinit⟩ := bind_ok.1 hinit
    obtain ⟨rfl, rfl⟩ := ask_ok.1 hask
    rw [hcheck, if_neg (not_not.2 rfl)] at hinit
    obtain ⟨hsha, -⟩ := pure_ok.1 hinit
    have := congrArg Prod.snd hsha
    dsimp only at this
    rw [← this]

theorem Fed.of_absorbed {sha : Sha3} {v : ShaState} (h : Fed v sha message)
    (ht : t.absorbed = v.absorbed) : Fed t sha message := by
  obtain ⟨b, hall, habs, hlen, hheld⟩ := h
  exact ⟨b, hall, ht.trans habs, hlen, hheld⟩

theorem updateDropped_ok (hs : Session s padType message)
    (h : updateDropped hw mem data size s = .ok u t) :
    Session t padType (message ++ mem.load data size.toNat) := by
  obtain ⟨status, s1, h1, h⟩ := bind_ok.1 h
  obtain ⟨-, rfl⟩ := pure_ok.1 h
  obtain ⟨v, hupdate, ht⟩ := onSha3_ok h1
  have hstarted : s.secureSha3.sha3State = .engineStarted := by
    obtain ⟨_, s2, hm, hrest⟩ := bind_ok.1 hupdate
    obtain ⟨_, s3, hassert, -⟩ := bind_ok.1 hrest
    exact (assert_ok.1 hassert).1
  have hrun := hs hstarted
  intro hstate
  by_cases hsucc : status = xfsblSuccess
  · subst hsucc
    obtain ⟨hfed, hsame⟩ := update_ok hrun.fed hupdate
    refine ⟨hfed.of_absorbed (by rw [ht]), ?_, ?_, ?_⟩
    · rw [hsame]
      exact hrun.padType
    · rw [hsame]
      exact hrun.notLast
    · rw [hsame]
      show s.secureSha3.sha3Len + size = _
      rw [hrun.len, List.length_append, Mem.length_load, UInt32.ofNat_add, UInt32.ofNat_toNat]
  · rw [update_fails hupdate hsucc] at hstate
    cases hstate

theorem shaDigestLoop_ok (hs : Session s padType message)
    (h : shaDigestLoop hw mem data size s = .ok u t) :
    Session t padType (message ++ mem.load data size.toNat) := by
  induction data, size using shaDigestLoop.induct generalizing s message with
  | case1 data size hsize chunk =>
    rename_i ih
    rw [shaDigestLoop, if_pos hsize] at h
    obtain ⟨_, s1, h1, h⟩ := bind_ok.1 h
    have hrest := ih (updateDropped_ok hs h1) h
    rw [List.append_assoc] at hrest
    rw [load_chunk]
    exact hrest
  | case2 data size hsize =>
    have hzero : size.toNat = 0 :=
      Nat.le_zero.1 (UInt32.le_iff_toNat_le.mp (UInt32.not_lt.mp hsize))
    rw [shaDigestLoop, if_neg hsize] at h
    obtain ⟨-, rfl⟩ := pure_ok.1 h
    rw [hzero]
    show Session s padType (message ++ [])
    rwa [List.append_nil]

/-- The end of a session: the digest of the message, or what was in the buffer. -/
theorem finishDropped_ok (hs : Session s padType message) (hlen : message.length < 2 ^ 32)
    (h : finishDropped hw out s = .ok d t) :
    ∃ status, d = if status = xfsblSuccess then hw.keccak (message ++ padType.pad message.length) else out := by
  obtain ⟨v, h, -⟩ := onSha3_ok h
  obtain ⟨⟨status, d', sha'⟩, s1, hfinish, h⟩ := bind_ok.1 h
  obtain ⟨heq, rfl⟩ := pure_ok.1 h
  have hstarted : s.secureSha3.sha3State = .engineStarted := by
    obtain ⟨_, s2, hassert, -⟩ := bind_ok.1 hfinish
    exact (assert_ok.1 hassert).1
  have hrun := hs hstarted
  obtain ⟨hd, -⟩ := finish_ok hrun.fed (hrun.counts hlen) hfinish
  have hd' : d' = d := congrArg Prod.fst heq
  rw [hrun.padType, hd'] at hd
  exact ⟨status, hd⟩

end Session

/-! ## An engine that works -/

section Works

variable {hw : ShaHw} {s : ShaState} {padType : Sha3PadType} {message : List UInt8}

theorem onSha3_run {α : Type} {f : Sha3 → ShaM (α × Sha3)} {a : α} {sha : Sha3} {v : ShaState}
    (h : f s.secureSha3 s = .ok (a, sha) v) : onSha3 f s = .ok a { v with secureSha3 := sha } :=
  bind_ok.2 ⟨s, s, rfl, bind_ok.2 ⟨_, v, h, rfl⟩⟩

theorem ShaHw.Works.start (h : hw.Works) (s : ShaState) :
    ∃ t, onSha3 (initializeAndStart hw) s = .ok () t := by
  obtain ⟨sha, hsha⟩ : ∃ sha : Sha3, sha = { s.secureSha3 with
      sha3Len := 0, sha3PadType := .nist, isLastUpdate := false, sha3State := .initialized } := ⟨_, rfl⟩
  have hinit : xsecureSha3Initialize hw s.secureSha3 s = .ok (xfsblSuccess, sha) { s with tick := s.tick + 1 } :=
    bind_ok.2 ⟨xfsblSuccess, _, ask_ok.2 ⟨h.cryptoCheck _, rfl⟩, by rw [hsha]; rfl⟩
  have hstate : sha.sha3State = .initialized := by rw [hsha]
  exact ⟨_, onSha3_run (bind_ok.2 ⟨_, _, hinit, bind_ok.2 ⟨_, _,
    bind_ok.2 ⟨(), _, assert_ok.2 ⟨hstate, rfl⟩, rfl⟩, rfl⟩⟩)⟩

theorem ShaHw.Works.updateDropped (h : hw.Works) (mem : Mem) (data : Nat) (size : UInt32)
    (hstate : s.secureSha3.sha3State = .engineStarted) (hrun : Running s padType message) :
    ∃ t, updateDropped hw mem data size s = .ok () t ∧ t.secureSha3.sha3State = .engineStarted := by
  obtain ⟨sha, v, hupdate⟩ := h.update mem data size hstate hrun.fed
  refine ⟨_, bind_ok.2 ⟨_, _, onSha3_run hupdate, rfl⟩, ?_⟩
  obtain ⟨-, hsame⟩ := update_ok hrun.fed hupdate
  show sha.sha3State = _
  rw [hsame]
  exact hstate

theorem ShaHw.Works.shaDigestLoop (h : hw.Works) (mem : Mem) (data : Nat) (size : UInt32)
    (hstate : s.secureSha3.sha3State = .engineStarted) (hrun : Running s padType message) :
    ∃ t, shaDigestLoop hw mem data size s = .ok () t ∧ t.secureSha3.sha3State = .engineStarted := by
  induction data, size using shaDigestLoop.induct generalizing s message with
  | case1 data size hsize chunk =>
    rename_i ih
    obtain ⟨s1, h1, hstate1⟩ := h.updateDropped mem data (chunkSize size) hstate hrun
    obtain ⟨t, hrest, hstate'⟩ := ih hstate1 (updateDropped_ok (fun _ => hrun) h1 hstate1)
    refine ⟨t, ?_, hstate'⟩
    rw [Csu.shaDigestLoop, if_pos hsize]
    exact bind_ok.2 ⟨(), s1, h1, hrest⟩
  | case2 data size hsize =>
    rw [Csu.shaDigestLoop, if_neg hsize]
    exact ⟨s, rfl, hstate⟩

theorem ShaHw.Works.finishDropped (h : hw.Works) (out : Digest)
    (hstate : s.secureSha3.sha3State = .engineStarted) (hrun : Running s padType message)
    (hlen : message.length < 2 ^ 32) :
    ∃ t, finishDropped hw out s = .ok (hw.keccak (message ++ padType.pad message.length)) t := by
  obtain ⟨d, sha, v, hfinish⟩ := h.finish out hstate hrun.fed (hrun.counts hlen)
  obtain ⟨hd, -⟩ := finish_ok hrun.fed (hrun.counts hlen) hfinish
  rw [if_pos rfl, hrun.padType] at hd
  exact ⟨_, onSha3_run (bind_ok.2 ⟨_, _, hfinish, by rw [← hd]; rfl⟩)⟩

end Works

/-! ## The digest -/

section Digest

variable {hw : ShaHw} {mem : Mem} {s : ShaState} {input : Nat} {size : UInt32} {out : Digest}

/-- However the digest ends, what it fed is a beginning of the buffer. -/
theorem feeds_shaDigest : ∃ m,
    Feeds m s (final (xfsblShaDigest hw mem input size out xfsblHashTypeSha3 s)) ∧
      m <+: mem.load input size.toNat := by
  unfold xfsblShaDigest
  rw [if_pos rfl, bind_apply]
  have hstart := updates_start hw s
  cases h1 : onSha3 (initializeAndStart hw) s with
  | error e t =>
    rw [h1] at hstart
    exact ⟨[], .none hstart, List.nil_prefix⟩
  | ok u t =>
    rw [h1] at hstart
    obtain ⟨m, hm, hprefix, -⟩ := feeds_loop hw mem input size t
    refine ⟨[] ++ m, (Feeds.none hstart).trans ?_, hprefix⟩
    show Feeds m t (final ((shaDigestLoop hw mem input size >>= fun _ => finishDropped hw out) t))
    rw [bind_apply]
    cases h2 : shaDigestLoop hw mem input size t with
    | error e v =>
      rw [h2] at hm
      exact hm
    | ok u v =>
      rw [h2] at hm
      have hfinish := hm.trans (Feeds.none (updates_finish hw out v))
      rwa [List.append_nil] at hfinish

/-- One that returns fed all of it. -/
theorem feeds_of_ok {d : Digest} {t : ShaState}
    (h : xfsblShaDigest hw mem input size out xfsblHashTypeSha3 s = .ok d t) :
    Feeds (mem.load input size.toNat) s t := by
  unfold xfsblShaDigest at h
  rw [if_pos rfl] at h
  obtain ⟨_, s1, h1, h⟩ := bind_ok.1 h
  obtain ⟨_, s2, h2, h⟩ := bind_ok.1 h
  have hstart := updates_start hw s
  rw [h1] at hstart
  have hfinish := updates_finish hw out s2
  rw [h] at hfinish
  obtain ⟨m, hm, -, hall⟩ := feeds_loop hw mem input size s1
  rw [h2] at hm
  rw [hall s2 h2] at hm
  have hfed := ((Feeds.none hstart).trans hm).trans (.none hfinish)
  rwa [List.nil_append, List.append_nil] at hfed

/-- The SHA3-384 hash of a message. -/
def ShaHw.sha3 (hw : ShaHw) (message : List UInt8) : Digest :=
  hw.keccak (message ++ nistPad message.length)

theorem ShaHw.Works.shaDigest (h : hw.Works) (mem : Mem) (input : Nat) (size : UInt32) (out : Digest)
    (s : ShaState) :
    ∃ t, xfsblShaDigest hw mem input size out xfsblHashTypeSha3 s =
      .ok (hw.sha3 (mem.load input size.toNat)) t := by
  obtain ⟨s1, h1⟩ := h.start s
  obtain ⟨hstate1, padType, hrun1, hnist⟩ := start_ok h1
  obtain rfl := hnist (h.cryptoCheck _)
  obtain ⟨s2, h2, hstate2⟩ := h.shaDigestLoop mem input size hstate1 hrun1
  have hrun2 := shaDigestLoop_ok (fun _ => hrun1) h2 hstate2
  obtain ⟨t, h3⟩ := h.finishDropped out hstate2 hrun2 (by
    rw [List.nil_append, Mem.length_load]
    exact size.toNat_lt)
  rw [List.nil_append, pad_nist] at h3
  refine ⟨t, ?_⟩
  unfold xfsblShaDigest
  rw [if_pos rfl]
  exact bind_ok.2 ⟨(), s1, h1, bind_ok.2 ⟨(), s2, h2, h3⟩⟩

end Digest

theorem shaDigest_chunks (hw : ShaHw) (mem : Mem) (input : Nat) (size : UInt32) (out : Digest)
    (s : ShaState) :
    (∃ m, Feeds m s (final (xfsblShaDigest hw mem input size out xfsblHashTypeSha3 s)) ∧
      m <+: mem.load input size.toNat) ∧
    (hw.Works → ∃ t,
      xfsblShaDigest hw mem input size out xfsblHashTypeSha3 s =
        .ok (hw.sha3 (mem.load input size.toNat)) t ∧
      Feeds (mem.load input size.toNat) s t) := by
  refine ⟨feeds_shaDigest, fun h => ?_⟩
  obtain ⟨t, ht⟩ := h.shaDigest mem input size out s
  exact ⟨t, ht, feeds_of_ok ht⟩

/-- An engine that answers at once. -/
def working : ShaHw where
  cryptoCheck _ := xfsblSuccess
  sssSha _ := xfsblSuccess
  dmaWaitForDone _ := xfsblSuccess
  sha3WaitForDone _ := xfsblSuccess
  keccak _ := zeroDigest
  partialDataAddr := 0
  aligned := rfl

def unset : ShaState := ⟨0, [], false, [], ⟨.uninitialized, .nist, 0, 0, false, fun _ => 0⟩⟩

/-- Two chunks, and a part of a block. -/
theorem shaDigest_chunks_1500 : ∃ t,
    xfsblShaDigest working (fun a => .ofNat a) 1 1500 zeroDigest xfsblHashTypeSha3 unset =
      .ok zeroDigest t ∧
    Feeds (Mem.load (fun a => .ofNat a) 1 1500) unset t :=
  (shaDigest_chunks working _ 1 1500 zeroDigest unset).2
    ⟨fun _ => rfl, fun _ => rfl, fun _ => rfl, fun _ => rfl⟩

end MeasuredBoot.Csu
