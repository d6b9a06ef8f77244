import MeasuredBoot.Lib.Words
import MeasuredBoot.PartitionRange

/-!
# The arithmetic on a partition header

`copyExprs` and `validationExprs` are the lengths, offsets and addresses `XFsbl_PartitionCopy`,
`XFsbl_PartitionValidation` and `XFsbl_PartitionSignVer` compute from a partition header, as
expressions over its words. The validator bounds the length words by each other only, so an
accepted header can make them wrap; `exact_iff_wordsFit` says which headers do not. A wrapped length is
what the check of the TCM banks sees (`tcmLength_wraps`).
-/

namespace MeasuredBoot

open WordExpr

/-! ## The check of the TCM banks -/

/-- The room of the TCM banks at an address of an R5. -/
def tcmRoom (destinationCpu : UInt32) (address : UInt64) : Option Nat :=
  if (destinationCpu = xihPhAttrbDestCpuR5_0 ∨ destinationCpu = xihPhAttrbDestCpuR5_1) ∧
      inR5TcmBank address then some xfsblR5TcmBankLength.toNat
  else if destinationCpu = xihPhAttrbDestCpuR5L ∧ inR5LTcm address then
    some (xfsblR5TcmBankLength.toNat * 4)
  else none

/-- `length` bytes fit where the partition goes, if that is a TCM. -/
def FitsTcm (destinationCpu : UInt32) (address : UInt64) (length : Nat) : Prop :=
  ∀ room ∈ tcmRoom destinationCpu address, length ≤ room

instance (destinationCpu : UInt32) (address : UInt64) (length : Nat) :
    Decidable (FitsTcm destinationCpu address length) :=
  inferInstanceAs (Decidable (∀ room ∈ tcmRoom destinationCpu address, length ≤ room))

/-- `XFsbl_GetLoadAddress` succeeds exactly where the partition fits. -/
theorem getLoadAddress_ok_iff {destinationCpu length : UInt32} {address x : UInt64} :
    getLoadAddress destinationCpu address length = .ok x ↔
      FitsTcm destinationCpu address length.toNat ∧ x = globalAddress destinationCpu address := by
  have hlength {bank : UInt64} : length.toUInt64 > bank ↔ ¬ length.toNat ≤ bank.toNat := by
    rw [gt_iff_lt, UInt64.lt_iff_toNat_lt, UInt32.toNat_toUInt64, Nat.not_le]
  have hlockstep : (xfsblR5TcmBankLength * 4).toNat = xfsblR5TcmBankLength.toNat * 4 := by decide
  have pass {p : Prop} [Decidable p] {code : UInt32} {y : UInt64} :
      (if p then .error code else .ok y : Except UInt32 UInt64) = .ok x ↔ ¬ p ∧ x = y := by
    by_cases hp : p
    · simp [hp]
    · simp [hp, eq_comm]
  unfold getLoadAddress FitsTcm tcmRoom globalAddress
  by_cases h0 : destinationCpu = xihPhAttrbDestCpuR5_0 ∧ inR5TcmBank address
  · rw [if_pos h0, if_pos h0, pass, hlength, if_pos ⟨.inl h0.1, h0.2⟩]
    simp
  by_cases h1 : destinationCpu = xihPhAttrbDestCpuR5_1 ∧ inR5TcmBank address
  · rw [if_neg h0, if_pos h1, if_neg h0, if_pos h1, pass, hlength, if_pos ⟨.inr h1.1, h1.2⟩]
    simp
  have hbank : ¬ ((destinationCpu = xihPhAttrbDestCpuR5_0 ∨
      destinationCpu = xihPhAttrbDestCpuR5_1) ∧ inR5TcmBank address) := by
    rintro ⟨h | h, ha⟩
    · exact h0 ⟨h, ha⟩
    · exact h1 ⟨h, ha⟩
  rw [if_neg h0, if_neg h1, if_neg h0, if_neg h1, if_neg hbank]
  by_cases hL : destinationCpu = xihPhAttrbDestCpuR5L ∧ inR5LTcm address
  · rw [if_pos hL, if_pos hL, if_pos hL, pass, hlength, hlockstep]
    simp
  · rw [if_neg hL, if_neg hL, if_neg hL]
    simp [eq_comm]

/-! ## What is computed -/

/-- A number of words in bytes. -/
def bytesExpr (words : UInt32) : WordExpr := .op .mul 32 (.read words.toNat) (.read 4)

section Computed

variable (inst : XFsblPs) (h : PartitionHeader)

/-- `SrcAddress`. -/
def srcAddressExpr : WordExpr :=
  .op .add 32 (.read inst.imageOffsetAddress.toNat) (bytesExpr h.dataWordOffset)

/-- `Length`, with the certificate. -/
def lengthExpr : WordExpr := bytesExpr h.totalDataWordLength

/-- `Length - XFSBL_AUTH_CERT_MIN_SIZE`: the length of the copy, and `HashDataLen`. -/
def dataLengthExpr : WordExpr := .op .sub 32 (lengthExpr h) (.read xfsblAuthCertMinSize.toNat)

/-- `SrcAddress + Length`: where the certificate is in flash. -/
def certificateExpr : WordExpr := .op .add 32 (srcAddressExpr inst h) (dataLengthExpr h)

/-- `HashOffset`. -/
def hashOffsetExpr : WordExpr :=
  .op .add 32 (.read inst.imageOffsetAddress.toNat) (bytesExpr h.checksumWordOffset)

/-- `PlParams.PlAuth.AcOfset`, a `u32`. -/
def acOffsetExpr (loadAddress : UInt64) : WordExpr :=
  .store 32 (.op .add 64 (.read loadAddress.toNat)
    (.op .sub 32 (bytesExpr h.authCertificateOffset) (bytesExpr h.dataWordOffset)))

/-- The address `XFsbl_GetLoadAddress` computes. -/
def tcmAddressExprs (destinationCpu : UInt32) (address : UInt64) : List WordExpr :=
  if destinationCpu = xihPhAttrbDestCpuR5_0 ∧ inR5TcmBank address then
    [.op .add 64 (.read xfsblR50HighAtcmStartAddress.toNat) (.read address.toNat)]
  else if destinationCpu = xihPhAttrbDestCpuR5_1 ∧ inR5TcmBank address then
    [.op .add 64 (.read xfsblR51HighAtcmStartAddress.toNat) (.read address.toNat)]
  else if destinationCpu = xihPhAttrbDestCpuR5L ∧ inR5LTcm address then
    [.op .add 64 (.read xfsblR50HighAtcmStartAddress.toNat) (.read address.toNat)]
  else []

/-- `XFsbl_PartitionCopy`. -/
def copyExprs : List WordExpr :=
  if h.unEncryptedDataWordLength = 0 then []
  else
    [srcAddressExpr inst h, lengthExpr h] ++
      (if h.authenticated && !h.toPl then [dataLengthExpr h, certificateExpr inst h] else []) ++
      (if PlKept h inst.resetReason then []
        else match getLoadAddress (h.effectiveCpu inst.processorID)
            (plLoadAddress h h.destinationLoadAddress) (copyLength h) with
          | .ok _ => tcmAddressExprs (h.effectiveCpu inst.processorID)
              (plLoadAddress h h.destinationLoadAddress)
          | .error _ => [])

/-- A signed bitstream gets to `XFsbl_SecPlPartition`: it is in blocks, and not for SHA2. -/
def InBlocks : Prop :=
  h.getBlockSize ≠ 0 ∧ inst.bootHdrAttributes &&& xihBhImageAttrbSha2Mask ≠ xihBhImageAttrbSha2Mask

instance : Decidable (InBlocks inst h) := inferInstanceAs (Decidable (_ ∧ _))

/-- `XFsbl_PartitionSignVer`: `HashDataLen`. -/
def signVerExprs : List WordExpr := [dataLengthExpr h]

/-- The parameters of `XFsbl_SecPlPartition`. -/
def plParamsExprs (loadAddress : UInt64) : List WordExpr :=
  [lengthExpr h, bytesExpr h.unEncryptedDataWordLength, acOffsetExpr h loadAddress]

/-- `XFsbl_PartitionValidation` from the load address on. -/
def placedExprs (loadAddress : UInt64) : List WordExpr :=
  (if h.encrypted then [bytesExpr h.unEncryptedDataWordLength] else []) ++
    (if h.getChecksumType = xihPhAttrbHashSha3 then [lengthExpr h, hashOffsetExpr inst h] else []) ++
    (if h.authenticated = false then []
      else if h.toPl = false then signVerExprs h
      else if InBlocks inst h then plParamsExprs h loadAddress
      else [])

/-- `XFsbl_PartitionValidation`. -/
def validationExprs : List WordExpr :=
  if PlKept h inst.resetReason then []
  else
    lengthExpr h ::
      match getLoadAddress (h.effectiveCpu inst.processorID) h.destinationLoadAddress
          (h.totalDataWordLength * 4) with
      | .ok loadAddress =>
        tcmAddressExprs (h.effectiveCpu inst.processorID) h.destinationLoadAddress ++
          placedExprs inst h (plLoadAddress h loadAddress)
      | .error _ => []

end Computed

/-! ## The machine's values are the model's -/

section Values

variable {inst : XFsblPs} {h : PartitionHeader}

theorem eval_bytesExpr (x : UInt32) : (bytesExpr x).eval = (x * 4).toNat := eval_mul32 rfl rfl

theorem eval_srcAddressExpr : (srcAddressExpr inst h).eval = (srcAddress inst h).toNat :=
  eval_add32 rfl (eval_bytesExpr _)

theorem eval_dataLengthExpr : (dataLengthExpr h).eval =
    (h.totalDataWordLength * 4 - xfsblAuthCertMinSize).toNat := eval_sub32 (eval_bytesExpr _) rfl

theorem eval_copyLength : (copyLength h).toNat =
    if h.authenticated && !h.toPl then (dataLengthExpr h).eval else (lengthExpr h).eval := by
  unfold copyLength
  split
  · exact eval_dataLengthExpr.symm
  · exact (eval_bytesExpr _).symm

theorem eval_hashOffsetExpr : (hashOffsetExpr inst h).eval =
    (inst.imageOffsetAddress + h.checksumWordOffset * 4).toNat := eval_add32 rfl (eval_bytesExpr _)

theorem eval_tcmAddressExprs {destinationCpu : UInt32} {address : UInt64} :
    ∀ x ∈ tcmAddressExprs destinationCpu address,
      x.eval = (globalAddress destinationCpu address).toNat := by
  intro x hx
  unfold tcmAddressExprs at hx
  unfold globalAddress
  split at hx
  · rw [List.mem_singleton.1 hx, if_pos (by assumption)]
    exact eval_add64 rfl rfl
  rw [if_neg (by assumption)]
  split at hx
  · rw [List.mem_singleton.1 hx, if_pos (by assumption)]
    exact eval_add64 rfl rfl
  rw [if_neg (by assumption)]
  split at hx
  · rw [List.mem_singleton.1 hx, if_pos (by assumption)]
    exact eval_add64 rfl rfl
  · cases hx

end Values

/-! ## Where nothing wraps -/

/-- The validation gets past the load address. -/
def Placed (inst : XFsblPs) (h : PartitionHeader) : Prop :=
  ¬ PlKept h inst.resetReason ∧
    FitsTcm (h.effectiveCpu inst.processorID) h.destinationLoadAddress
      (4 * h.totalDataWordLength.toNat)

instance (inst : XFsblPs) (h : PartitionHeader) : Decidable (Placed inst h) :=
  inferInstanceAs (Decidable (_ ∧ _))

/-- The headers and image offsets on which the arithmetic is exact. -/
structure WordsFit (inst : XFsblPs) (h : PartitionHeader) : Prop where
  data : h.unEncryptedDataWordLength ≠ 0 → 4 * h.totalDataWordLength.toNat < 2 ^ 32 ∧
    inst.imageOffsetAddress.toNat + 4 * h.dataWordOffset.toNat < 2 ^ 32
  certificate : h.authenticated = true → h.toPl = false →
    xfsblAuthCertMinSize.toNat ≤ 4 * h.totalDataWordLength.toNat ∧
      inst.imageOffsetAddress.toNat + 4 * h.dataWordOffset.toNat +
        4 * h.totalDataWordLength.toNat < 2 ^ 32 + xfsblAuthCertMinSize.toNat
  hash : Placed inst h → h.getChecksumType = xihPhAttrbHashSha3 →
    inst.imageOffsetAddress.toNat + 4 * h.checksumWordOffset.toNat < 2 ^ 32
  blocks : Placed inst h → h.authenticated = true → h.toPl = true → InBlocks inst h →
    h.dataWordOffset ≤ h.authCertificateOffset ∧ 4 * h.authCertificateOffset.toNat < 2 ^ 32 ∧
      (plLoadAddress h (globalAddress (h.effectiveCpu inst.processorID)
        h.destinationLoadAddress)).toNat + 4 * h.authCertificateOffset.toNat <
          2 ^ 32 + 4 * h.dataWordOffset.toNat

section Exact

variable {inst : XFsblPs} {h : PartitionHeader} {words : UInt32}

theorem value_bytesExpr : (bytesExpr words).value = 4 * words.toNat := by
  simp only [bytesExpr, value, WordOp.apply]
  omega

theorem exact_bytesExpr : (bytesExpr words).Exact ↔ 4 * words.toNat < 2 ^ 32 := by
  have hv : (WordOp.mul.apply (read words.toNat).value (read 4).value : Int) = 4 * words.toNat :=
    value_bytesExpr
  rw [bytesExpr, exact_op, hv]
  simp only [exact_read, true_and, Fits]
  omega

theorem exact_offset {offset : UInt32} :
    (op .add 32 (.read inst.imageOffsetAddress.toNat) (bytesExpr offset)).Exact ↔
      inst.imageOffsetAddress.toNat + 4 * offset.toNat < 2 ^ 32 := by
  rw [exact_op, exact_bytesExpr, value_bytesExpr]
  simp only [exact_read, true_and, Fits, WordOp.apply, value]
  omega

theorem exact_dataLengthExpr : (dataLengthExpr h).Exact ↔
    xfsblAuthCertMinSize.toNat ≤ 4 * h.totalDataWordLength.toNat ∧
      4 * h.totalDataWordLength.toNat < 2 ^ 32 := by
  rw [dataLengthExpr, lengthExpr, exact_op, exact_bytesExpr, value_bytesExpr]
  simp only [exact_read, true_and, Fits, WordOp.apply, value]
  omega

theorem exact_certificateExpr : (certificateExpr inst h).Exact ↔
    (srcAddressExpr inst h).Exact ∧ (dataLengthExpr h).Exact ∧
      inst.imageOffsetAddress.toNat + 4 * h.dataWordOffset.toNat +
        4 * h.totalDataWordLength.toNat < 2 ^ 32 + xfsblAuthCertMinSize.toNat := by
  have hs : (srcAddressExpr inst h).value =
      inst.imageOffsetAddress.toNat + 4 * h.dataWordOffset.toNat := by
    rw [srcAddressExpr, value, value_bytesExpr]
    rfl
  have hl : (dataLengthExpr h).value =
      4 * h.totalDataWordLength.toNat - xfsblAuthCertMinSize.toNat := by
    rw [dataLengthExpr, lengthExpr, value, value_bytesExpr]
    rfl
  rw [certificateExpr, exact_op, hs, hl, exact_dataLengthExpr]
  refine and_congr_right fun _ => and_congr_right fun hdata => ?_
  simp only [Fits, WordOp.apply]
  omega

theorem exact_acOffsetExpr {loadAddress : UInt64} : (acOffsetExpr h loadAddress).Exact ↔
    4 * h.authCertificateOffset.toNat < 2 ^ 32 ∧ 4 * h.dataWordOffset.toNat < 2 ^ 32 ∧
      h.dataWordOffset ≤ h.authCertificateOffset ∧
      loadAddress.toNat + 4 * h.authCertificateOffset.toNat <
        2 ^ 32 + 4 * h.dataWordOffset.toNat := by
  rw [acOffsetExpr, exact_store, exact_op, exact_op, exact_bytesExpr, exact_bytesExpr,
    UInt32.le_iff_toNat_le]
  simp only [exact_read, true_and, Fits, WordOp.apply, value, value_bytesExpr]
  omega

theorem exact_tcmAddressExprs {destinationCpu : UInt32} {address : UInt64} :
    ∀ x ∈ tcmAddressExprs destinationCpu address, x.Exact := by
  have hbank (ha : inR5TcmBank address) : address.toNat < 0x30000 := by
    rcases ha with ⟨-, hlt⟩ | ⟨-, hlt⟩
    · have hlt : address.toNat < 0x10000 := UInt64.lt_iff_toNat_lt.1 hlt
      omega
    · exact UInt64.lt_iff_toNat_lt.1 hlt
  have hexact {high : UInt64} (hh : high.toNat < 2 ^ 32) (ha : address.toNat < 0x40000) :
      (op .add 64 (.read high.toNat) (.read address.toNat)).Exact := by
    rw [exact_op]
    simp only [exact_read, true_and, Fits, WordOp.apply, value]
    omega
  intro x hx
  unfold tcmAddressExprs at hx
  split at hx
  · rename_i hc
    rw [List.mem_singleton.1 hx]
    exact hexact (by decide) (by have := hbank hc.2; omega)
  split at hx
  · rename_i hc
    rw [List.mem_singleton.1 hx]
    exact hexact (by decide) (by have := hbank hc.2; omega)
  split at hx
  · rename_i hc
    rw [List.mem_singleton.1 hx]
    exact hexact (by decide) (UInt64.lt_iff_toNat_lt.1 hc.2.2)
  · cases hx

theorem forall_mem_ite {α : Type} {p : Prop} [Decidable p] {xs : List α} {P : α → Prop} :
    (∀ x ∈ (if p then xs else []), P x) ↔ (p → ∀ x ∈ xs, P x) := by
  by_cases hp : p <;> simp [hp]

/-- The length words of an accepted header. -/
theorem Accepted.lengths_le {cpu reset : UInt32} (ha : Accepted h cpu reset) :
    h.unEncryptedDataWordLength.toNat ≤ h.totalDataWordLength.toNat ∧
      (h.unEncryptedDataWordLength = 0 →
        h.totalDataWordLength.toNat = 0 ∧ h.authenticated = false) := by
  have hl : partitionLengthsOk h = true := by simpa using ha.lengths
  have hle : h.unEncryptedDataWordLength.toNat ≤ h.totalDataWordLength.toNat := by
    unfold partitionLengthsOk at hl
    split at hl <;>
      simp only [Bool.and_eq_true, beq_iff_eq, decide_eq_true_eq, UInt32.lt_iff_toNat_lt,
        ← UInt32.toNat_inj] at hl <;> omega
  refine ⟨hle, fun h0 => ?_⟩
  have hauth : h.authenticated = false := by
    by_contra hc
    exact ha.xipPlain ⟨h0, .inl (by simpa using hc)⟩
  have henc : h.encrypted = false := by
    by_contra hc
    exact ha.xipPlain ⟨h0, .inr (by simpa using hc)⟩
  simp only [partitionLengthsOk, hauth, henc, Bool.and_eq_true, beq_iff_eq] at hl
  rw [← hl.2, ← hl.1, h0]
  exact ⟨rfl, hauth⟩

/-- The copy. -/
theorem copy_exact_iff : (∀ x ∈ copyExprs inst h, x.Exact) ↔ (h.unEncryptedDataWordLength ≠ 0 →
    (srcAddressExpr inst h).Exact ∧ (lengthExpr h).Exact ∧
      (h.authenticated = true → h.toPl = false →
        (dataLengthExpr h).Exact ∧ (certificateExpr inst h).Exact)) := by
  have htcm : ∀ x ∈ (if PlKept h inst.resetReason then []
      else match getLoadAddress (h.effectiveCpu inst.processorID)
          (plLoadAddress h h.destinationLoadAddress) (copyLength h) with
        | .ok _ => tcmAddressExprs (h.effectiveCpu inst.processorID)
            (plLoadAddress h h.destinationLoadAddress)
        | .error _ => []), x.Exact := by
    intro x hx
    split at hx
    · cases hx
    split at hx
    · exact exact_tcmAddressExprs x hx
    · cases hx
  unfold copyExprs
  by_cases h0 : h.unEncryptedDataWordLength = 0
  · simp [h0]
  · rw [if_neg h0]
    simp only [List.forall_mem_append, List.forall_mem_cons, forall_mem_ite, Bool.and_eq_true,
      Bool.not_eq_true', and_imp]
    constructor
    · rintro ⟨⟨⟨hsrc, hlen, -⟩, hcert⟩, -⟩ -
      refine ⟨hsrc, hlen, fun hau hpl => ?_⟩
      obtain ⟨hdata, hat, -⟩ := hcert hau hpl
      exact ⟨hdata, hat⟩
    · intro hx
      obtain ⟨hsrc, hlen, hcert⟩ := hx h0
      refine ⟨⟨⟨hsrc, hlen, List.forall_mem_nil _⟩, fun hau hpl => ?_⟩, htcm⟩
      obtain ⟨hdata, hat⟩ := hcert hau hpl
      exact ⟨hdata, hat, List.forall_mem_nil _⟩

/-- The validation from the load address on, where the lengths are exact. -/
theorem placed_exact_iff {loadAddress : UInt64} (hlen : (lengthExpr h).Exact)
    (hunEnc : (bytesExpr h.unEncryptedDataWordLength).Exact)
    (hsign : h.authenticated = true → h.toPl = false → (dataLengthExpr h).Exact) :
    (∀ x ∈ placedExprs inst h loadAddress, x.Exact) ↔
      (h.getChecksumType = xihPhAttrbHashSha3 → (hashOffsetExpr inst h).Exact) ∧
      (h.authenticated = true → h.toPl = true → InBlocks inst h →
        (acOffsetExpr h loadAddress).Exact) := by
  unfold placedExprs signVerExprs plParamsExprs
  rw [List.forall_mem_append, List.forall_mem_append, forall_mem_ite, forall_mem_ite]
  have hfirst : h.encrypted = true → ∀ x ∈ [bytesExpr h.unEncryptedDataWordLength], x.Exact := by
    intro _ x hx
    rw [List.mem_singleton.1 hx]
    exact hunEnc
  have hhash : (∀ x ∈ [lengthExpr h, hashOffsetExpr inst h], x.Exact) ↔
      (hashOffsetExpr inst h).Exact := by
    simp [hlen]
  rw [hhash]
  cases hau : h.authenticated with
  | false => simp [hunEnc]
  | true =>
    cases hpl : h.toPl with
    | false => simp [hunEnc, hsign hau hpl]
    | true =>
      have hparams : (∀ x ∈ [lengthExpr h, bytesExpr h.unEncryptedDataWordLength,
          acOffsetExpr h loadAddress], x.Exact) ↔ (acOffsetExpr h loadAddress).Exact := by
        simp [hlen, hunEnc]
      simp only [Bool.true_eq_false, if_false, forall_mem_ite, hparams, true_implies]
      exact ⟨fun hx => hx.imp_left And.right, fun hx => ⟨⟨hfirst, hx.1⟩, hx.2⟩⟩

theorem toNat_bytes (hw : 4 * words.toNat < 2 ^ 32) : (words * 4).toNat = 4 * words.toNat := by
  rw [UInt32.toNat_mul]
  show words.toNat * 4 % 2 ^ 32 = _
  omega

/-- The validation. -/
theorem validation_exact_iff (hlen : (lengthExpr h).Exact)
    (hunEnc : (bytesExpr h.unEncryptedDataWordLength).Exact)
    (hsign : h.authenticated = true → h.toPl = false → (dataLengthExpr h).Exact) :
    (∀ x ∈ validationExprs inst h, x.Exact) ↔ (Placed inst h →
      (h.getChecksumType = xihPhAttrbHashSha3 → (hashOffsetExpr inst h).Exact) ∧
      (h.authenticated = true → h.toPl = true → InBlocks inst h →
        (acOffsetExpr h (plLoadAddress h (globalAddress (h.effectiveCpu inst.processorID)
          h.destinationLoadAddress))).Exact)) := by
  have hlen4 : 4 * h.totalDataWordLength.toNat < 2 ^ 32 := exact_bytesExpr.1 hlen
  unfold validationExprs
  by_cases hk : PlKept h inst.resetReason
  · simp [hk, Placed]
  rw [if_neg hk, List.forall_mem_cons]
  cases hg : getLoadAddress (h.effectiveCpu inst.processorID) h.destinationLoadAddress
      (h.totalDataWordLength * 4) with
  | ok loadAddress =>
    obtain ⟨hfits, rfl⟩ := getLoadAddress_ok_iff.1 hg
    rw [toNat_bytes hlen4] at hfits
    simp only [List.forall_mem_append, placed_exact_iff hlen hunEnc hsign]
    exact ⟨fun hx _ => hx.2.2, fun hx => ⟨hlen, exact_tcmAddressExprs, hx ⟨hk, hfits⟩⟩⟩
  | error code =>
    have hfits : ¬ Placed inst h := by
      rintro ⟨-, hfits⟩
      rw [← toNat_bytes hlen4] at hfits
      rw [getLoadAddress_ok_iff.2 ⟨hfits, rfl⟩] at hg
      cases hg
    exact ⟨fun _ hp => absurd hp hfits, fun _ => ⟨hlen, List.forall_mem_nil _⟩⟩

end Exact

section Accepted

variable {inst : XFsblPs} {h : PartitionHeader} {efuseSecCtrl : UInt32}

/-- **The accepted headers on which no length, offset or address wraps.** -/
theorem exact_iff_wordsFit (hv : validatePartitionHeader h inst.processorID inst.resetReason
      efuseSecCtrl = xfsblSuccess) :
    (∀ x ∈ copyExprs inst h ++ validationExprs inst h, x.Exact) ↔ WordsFit inst h := by
  obtain ⟨hle, hxip⟩ := (validatePartitionHeader_success hv).lengths_le
  rw [List.forall_mem_append, copy_exact_iff]
  constructor
  · rintro ⟨hcopy, hvalid⟩
    have hlen : (lengthExpr h).Exact := by
      by_cases h0 : h.unEncryptedDataWordLength = 0
      · have ht := (hxip h0).1
        exact exact_bytesExpr.2 (by omega)
      · exact (hcopy h0).2.1
    have hlen4 : 4 * h.totalDataWordLength.toNat < 2 ^ 32 := exact_bytesExpr.1 hlen
    have hunEnc : (bytesExpr h.unEncryptedDataWordLength).Exact := exact_bytesExpr.2 (by omega)
    have hcert (hau : h.authenticated = true) (hpl : h.toPl = false) := by
      have h0 : h.unEncryptedDataWordLength ≠ 0 := by
        intro h0
        simp [(hxip h0).2] at hau
      exact (hcopy h0).2.2 hau hpl
    have hplaced := (validation_exact_iff hlen hunEnc fun hau hpl => (hcert hau hpl).1).1 hvalid
    constructor
    · exact fun h0 => ⟨hlen4, exact_offset.1 (hcopy h0).1⟩
    · intro hau hpl
      obtain ⟨hdata, hat⟩ := hcert hau hpl
      exact ⟨(exact_dataLengthExpr.1 hdata).1, (exact_certificateExpr.1 hat).2.2⟩
    · exact fun hp hsum => exact_offset.1 ((hplaced hp).1 hsum)
    · intro hp hau hpl hb
      obtain ⟨hac, -, hoff, hadd⟩ := exact_acOffsetExpr.1 ((hplaced hp).2 hau hpl hb)
      exact ⟨hoff, hac, hadd⟩
  · intro hn
    have hlen4 : 4 * h.totalDataWordLength.toNat < 2 ^ 32 := by
      by_cases h0 : h.unEncryptedDataWordLength = 0
      · have ht := (hxip h0).1
        omega
      · exact (hn.data h0).1
    have hlen : (lengthExpr h).Exact := exact_bytesExpr.2 hlen4
    have hunEnc : (bytesExpr h.unEncryptedDataWordLength).Exact := exact_bytesExpr.2 (by omega)
    have hdata (hau : h.authenticated = true) (hpl : h.toPl = false) : (dataLengthExpr h).Exact :=
      exact_dataLengthExpr.2 ⟨(hn.certificate hau hpl).1, hlen4⟩
    refine ⟨fun h0 => ⟨exact_offset.2 (hn.data h0).2, hlen, fun hau hpl => ?_⟩, ?_⟩
    · exact ⟨hdata hau hpl, exact_certificateExpr.2 ⟨exact_offset.2 (hn.data h0).2, hdata hau hpl,
        (hn.certificate hau hpl).2⟩⟩
    · refine (validation_exact_iff hlen hunEnc hdata).2 fun hp => ⟨fun hsum => ?_, ?_⟩
      · exact exact_offset.2 (hn.hash hp hsum)
      · intro hau hpl hb
        obtain ⟨hoff, hac, hadd⟩ := hn.blocks hp hau hpl hb
        have hoff' := UInt32.le_iff_toNat_le.1 hoff
        exact exact_acOffsetExpr.2 ⟨hac, by omega, hoff, hadd⟩

/-- The check of the TCM banks sees a length modulo `2 ^ 32`. -/
theorem tcmLength_wraps {destinationCpu words : UInt32} {address : UInt64} {room : Nat}
    (hr : tcmRoom destinationCpu address = some room) :
    (∃ x, getLoadAddress destinationCpu address (words * 4) = .ok x) ↔
      4 * words.toNat % 2 ^ 32 ≤ room := by
  have hmod : (words * 4).toNat = 4 * words.toNat % 2 ^ 32 := by
    rw [UInt32.toNat_mul, Nat.mul_comm]
    rfl
  have hfits : FitsTcm destinationCpu address (words * 4).toNat ↔
      4 * words.toNat % 2 ^ 32 ≤ room := by
    rw [hmod, FitsTcm, hr]
    simp
  rw [← hfits]
  constructor
  · rintro ⟨x, hx⟩
    exact (getLoadAddress_ok_iff.1 hx).1
  · intro h
    exact ⟨_, getLoadAddress_ok_iff.2 ⟨h, rfl⟩⟩

/-- A plain partition of `2 ^ 30 + 4` words for the TCM of R5-0; a bank has `2 ^ 14`. -/
def longHeader : PartitionHeader :=
  { PartitionHeader.zero with
    encryptedDataWordLength := 0x40000004
    unEncryptedDataWordLength := 0x40000004
    totalDataWordLength := 0x40000004
    partitionAttributes := 0x500 }

/-- An instance on A53-0. -/
def a53Inst : XFsblPs := { XFsblPs.initial with processorID := xihPhAttrbDestCpuA53_0 }

theorem exact_iff_wordsFit_longHeader :
    (∀ x ∈ copyExprs a53Inst longHeader ++ validationExprs a53Inst longHeader, x.Exact) ↔
      WordsFit a53Inst longHeader :=
  @exact_iff_wordsFit a53Inst longHeader 0 (by decide +kernel)

/-- Its length wraps to 16 bytes. -/
theorem not_exact :
    ¬ ∀ (inst : XFsblPs) (h : PartitionHeader) (efuseSecCtrl : UInt32),
      validatePartitionHeader h inst.processorID inst.resetReason efuseSecCtrl = xfsblSuccess →
      ∀ x ∈ copyExprs inst h ++ validationExprs inst h, x.Exact := by
  intro hall
  have h := hall a53Inst longHeader 0 (by decide +kernel)
  revert h
  decide +kernel

end Accepted

end MeasuredBoot
