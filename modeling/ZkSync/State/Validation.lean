import ZkSync.State.Writes
import ZkSync.Types.Packable
import ZkSync.Types.TxBytes

/-!
# Validation of transactions

`check_correctness` of each transaction in `zksync_types::tx`. It is the first thing
that looks at a transaction from outside, and what comes after relies on it: the
signed bytes, the conversion to an operation and the public data pack the amounts
again, and `unwrap`.

Packing panics for a number that is too large for an exponent of five bits, and for
one that is not a `u128`. A check that comes in front of it is made in a row with
`&&`, so it protects what follows it and nothing else; no check compares a fee with
the largest one that can be packed, so a fee above `2047 * 10 ^ 31` panics wherever the
row gets that far (`Protected`). The balance that a forced exit takes comes from the
state, and is not compared with `2 ^ 128` anywhere. With these exceptions validation
is total, and what it lets through never panics (`validation_total_iff`).
-/

namespace ZkSync

open FloatConversions

/-! ## The packing checks -/

/-- `is_token_amount_packable` and `is_fee_amount_packable`, by the width of the
mantissa. -/
def FloatConversions.isPackable (mantissaLen number : Nat) : Outcome Bool := do
  let packed ← pack number 5 mantissaLen
  Outcome.test (unpack packed 5 mantissaLen = some number)

/-- `is_token_amount_packable`, which panics where packing does. -/
def isTokenAmountPackable : Nat → Outcome Bool := isPackable 35

/-- `is_fee_amount_packable`. -/
def isFeeAmountPackable : Nat → Outcome Bool := isPackable 11

/-! ## Signatures -/

/-- What the checks take from the cryptographic libraries. -/
structure SignatureVerifier where
  /-- The hash of the key of `verify_musig`, if the signature of the bytes is valid. -/
  verifyMusig : TxSignature → Bytes → Option PubKeyHash
  /-- `ChangePubKey::verify_eth_signature`. -/
  verifyEthSignature : ChangePubKey → Option Address

namespace SignatureVerifier

variable (v : SignatureVerifier)

/-- `verify_signature`. A transaction that was just read has no cached signer. -/
def verifySignature : ZkSyncTx → Outcome (Option PubKeyHash)
  | .Transfer tx => v.verifyMusig tx.signature <$> tx.getBytes
  | .Withdraw tx => v.verifyMusig tx.signature <$> tx.getBytes
  | .Close tx => .ok (v.verifyMusig tx.signature tx.getBytes)
  | .ChangePubKey tx => v.verifyMusig tx.signature <$> tx.getBytes
  | .ForcedExit tx => v.verifyMusig tx.signature <$> tx.getBytes

/-- The state machine with these libraries. -/
def env (hasher : Hasher Fr) (overflowChecks : Bool) : Env where
  hasher := hasher
  overflowChecks := overflowChecks
  verifySignature tx := (v.verifySignature tx).toOption.join
  verifyEthSignature := v.verifyEthSignature

end SignatureVerifier

/-! ## `check_correctness` -/

section CheckCorrectness

variable (v : SignatureVerifier)

/-- `check_correctness`: the ranges, the packable amounts and the signature. -/
def Transfer.checkCorrectness (tx : Transfer) : Outcome Bool :=
  Outcome.test (tx.amount < u128Bound) <&&> Outcome.test (tx.fee < u128Bound) <&&>
  isTokenAmountPackable tx.amount <&&> isFeeAmountPackable tx.fee <&&>
  Outcome.test (tx.accountId ≤ maxAccountId) <&&> Outcome.test (tx.token ≤ maxTokenId) <&&>
  Outcome.test (tx.toAddress ≠ 0) <&&> Option.isSome <$> v.verifySignature (.Transfer tx)

/-- The fee is not compared with the bound of a `u128` first. -/
def Withdraw.checkCorrectness (tx : Withdraw) : Outcome Bool :=
  Outcome.test (tx.amount < u128Bound) <&&> isFeeAmountPackable tx.fee <&&>
  Outcome.test (tx.accountId ≤ maxAccountId) <&&> Outcome.test (tx.token ≤ maxTokenId) <&&>
  Option.isSome <$> v.verifySignature (.Withdraw tx)

/-- Only the signature is checked. -/
def Close.checkCorrectness (tx : Close) : Outcome Bool :=
  Option.isSome <$> v.verifySignature (.Close tx)

/-- The signature is verified before the fee is checked. -/
def ChangePubKey.checkCorrectness (tx : ChangePubKey) : Outcome Bool :=
  Outcome.test (tx.ethSignature = none ∨ v.verifyEthSignature tx = some tx.account) <&&>
  (fun signer => decide (signer = some tx.newPkHash)) <$> v.verifySignature (.ChangePubKey tx) <&&>
  Outcome.test (tx.accountId ≤ maxAccountId) <&&> Outcome.test (tx.feeToken ≤ maxTokenId) <&&>
  isFeeAmountPackable tx.fee

/-- The fee, the ids and the signature are checked, but not the target. -/
def ForcedExit.checkCorrectness (tx : ForcedExit) : Outcome Bool :=
  isFeeAmountPackable tx.fee <&&> Outcome.test (tx.initiatorAccountId ≤ maxAccountId) <&&>
  Outcome.test (tx.token ≤ maxTokenId) <&&> Option.isSome <$> v.verifySignature (.ForcedExit tx)

/-- Every kind has a check of its own. -/
def ZkSyncTx.checkCorrectness : ZkSyncTx → Outcome Bool
  | .Transfer tx => tx.checkCorrectness v
  | .Withdraw tx => tx.checkCorrectness v
  | .Close tx => tx.checkCorrectness v
  | .ChangePubKey tx => tx.checkCorrectness v
  | .ForcedExit tx => tx.checkCorrectness v

end CheckCorrectness

/-! ## Totality -/

/-- Validation returns, and what follows a successful one does not panic. -/
structure ValidatesTotally (v : SignatureVerifier) (env : Env) (s : ZkSyncState) (tx : ZkSyncTx) :
    Prop where
  returns : (tx.checkCorrectness v).Succeeds
  bytes : tx.checkCorrectness v = .ok true → tx.getBytes.Succeeds
  converts : tx.checkCorrectness v = .ok true → Outcome.NoPanic (s.zksyncTxToZksyncOp env tx)
  publicData : tx.checkCorrectness v = .ok true →
    ∀ op, s.zksyncTxToZksyncOp env tx = .ok op → op.publicData.Succeeds

/-- A well-formed forced exit, signed by its initiator, takes no more than a `u128` from
the unlocked account it names. -/
def ForcedExit.TakesU128 (v : SignatureVerifier) (s : ZkSyncState) (tx : ForcedExit) : Prop :=
  IsFeeAmountPackable tx.fee → tx.initiatorAccountId ≤ maxAccountId → tx.token ≤ maxTokenId →
  ∀ initiator targetId target, s.getAccount tx.initiatorAccountId = some initiator →
    v.verifySignature (.ForcedExit tx) = .ok (some initiator.pubKeyHash) →
    s.accountIdByAddress.lookup tx.target = some targetId →
    s.getAccount targetId = some target → target.pubKeyHash = 0 → target.address = tx.target →
    target.getBalance tx.token < u128Bound

/-- The fee can be packed where the row of checks comes to it, and so can what a forced
exit takes. -/
def ZkSyncTx.Protected (v : SignatureVerifier) (s : ZkSyncState) : ZkSyncTx → Prop
  | .Transfer tx => tx.amount < u128Bound → tx.fee < u128Bound →
      IsTokenAmountPackable tx.amount → tx.fee ≤ maxPackable 11
  | .Withdraw tx => tx.amount < u128Bound → tx.fee ≤ maxPackable 11
  | .Close _ => True
  | .ChangePubKey tx => tx.ethSignature = none ∨ v.verifyEthSignature tx = some tx.account →
      tx.fee ≤ maxPackable 11
  | .ForcedExit tx => tx.fee ≤ maxPackable 11 ∧ tx.TakesU128 v s

section Packing

variable {mantissaLen number n : Nat}

/-- A positive answer says that the number comes back. -/
theorem FloatConversions.isPackable_eq_true :
    isPackable mantissaLen number = .ok true ↔ IsPackable mantissaLen number := by
  unfold isPackable IsPackable
  rw [Outcome.bind_eq_ok]
  simp only [Outcome.test_eq_true]

/-- The check panics where packing would. -/
theorem FloatConversions.succeeds_isPackable :
    (isPackable mantissaLen number).Succeeds ↔ (pack number 5 mantissaLen).Succeeds := by
  unfold isPackable
  constructor
  · rintro ⟨b, h⟩
    obtain ⟨packed, hpacked, -⟩ := Outcome.bind_eq_ok.mp h
    exact ⟨packed, hpacked⟩
  · rintro ⟨packed, h⟩
    rw [h]
    exact ⟨_, rfl⟩

/-- Every amount that is a `u128` is packed. -/
theorem succeeds_packTokenAmount (h : number < u128Bound) : (packTokenAmount number).Succeeds := by
  have hle : number ≤ maxPackable 35 := Nat.le_of_lt (Nat.lt_trans h (by decide))
  obtain ⟨e, -, hpack⟩ := pack_eq (n := 5) rfl h hle
  exact ⟨_, hpack⟩

/-- Packing a fee panics beyond the largest one. -/
theorem succeeds_packFeeAmount : (packFeeAmount number).Succeeds ↔ number ≤ maxPackable 11 := by
  constructor
  · rintro ⟨packed, h⟩
    exact le_of_pack h
  · intro hle
    obtain ⟨e, -, hpack⟩ := pack_eq (n := 2) rfl (Nat.lt_of_le_of_lt hle (by decide)) hle
    exact ⟨_, hpack⟩

theorem succeeds_isFeeAmountPackable :
    (isFeeAmountPackable number).Succeeds ↔ number ≤ maxPackable 11 :=
  succeeds_isPackable.trans succeeds_packFeeAmount

theorem isFeeAmountPackable_eq_true :
    isFeeAmountPackable number = .ok true ↔ IsFeeAmountPackable number := isPackable_eq_true

theorem succeeds_isTokenAmountPackable (h : number < u128Bound) :
    (isTokenAmountPackable number).Succeeds :=
  succeeds_isPackable.mpr (succeeds_packTokenAmount h)

theorem isTokenAmountPackable_eq_true :
    isTokenAmountPackable number = .ok true ↔ IsTokenAmountPackable number := isPackable_eq_true

end Packing

/-! ### The signed bytes -/

/-- Verifying needs the bytes that were signed, and those need the packed amounts. -/
theorem SignatureVerifier.succeeds_verifySignature {v : SignatureVerifier} {tx : ZkSyncTx} :
    (v.verifySignature tx).Succeeds ↔ tx.getBytes.Succeeds := by
  cases tx with
  | Transfer tx => exact Outcome.succeeds_map
  | Withdraw tx => exact Outcome.succeeds_map
  | Close tx => exact ⟨fun _ => ⟨_, rfl⟩, fun _ => ⟨_, rfl⟩⟩
  | ChangePubKey tx => exact Outcome.succeeds_map
  | ForcedExit tx => exact Outcome.succeeds_map

/-! ### The conversion -/

section Conversion

open Outcome (noPanic_ok noPanic_bind noPanic_ensure noPanic_okOrElse)

variable {env : Env} {s : ZkSyncState}

/-- With the right index every address that is found has its account. -/
theorem Indexed.found (hs : Indexed s) : IndexFound s := by
  intro address id hid
  obtain ⟨a, ha, -⟩ := hs address id hid
  exact ⟨a, ha⟩

/-- So looking an address up does not panic. -/
theorem noPanic_getAccountByAddress (hs : IndexFound s) (address : Address) :
    Outcome.NoPanic (s.getAccountByAddress address) := by
  unfold ZkSyncState.getAccountByAddress
  split
  next => exact Outcome.noPanic_ok _
  next id hid =>
    obtain ⟨a, ha⟩ := hs address id hid
    rw [ha]
    exact Outcome.noPanic_ok _

/-- In a state whose index is sound, a conversion fails with an error at worst. -/
theorem noPanic_zksyncTxToZksyncOp (hs : IndexFound s) (tx : ZkSyncTx) :
    Outcome.NoPanic (s.zksyncTxToZksyncOp env tx) := by
  cases tx with
  | Transfer tx =>
    refine noPanic_bind ?_ fun op _ => noPanic_ok _
    refine noPanic_bind (noPanic_ensure _ _) fun _ _ => noPanic_bind (noPanic_ensure _ _) fun _ _ =>
      noPanic_bind (noPanic_getAccountByAddress hs _) fun found _ => ?_
    refine noPanic_bind (noPanic_okOrElse _ _) fun account _ => ?_
    refine noPanic_bind (noPanic_ensure _ _) fun _ _ => noPanic_bind (noPanic_ensure _ _) fun _ _ =>
      noPanic_bind (noPanic_ensure _ _) fun _ _ => ?_
    refine noPanic_bind (noPanic_getAccountByAddress hs _) fun target _ => ?_
    cases target with
    | none => exact noPanic_ok _
    | some target => exact noPanic_ok _
  | Withdraw tx =>
    refine noPanic_bind ?_ fun op _ => noPanic_ok _
    refine noPanic_bind (noPanic_ensure _ _) fun _ _ =>
      noPanic_bind (noPanic_getAccountByAddress hs _) fun found _ => ?_
    refine noPanic_bind (noPanic_okOrElse _ _) fun account _ => ?_
    exact noPanic_bind (noPanic_ensure _ _) fun _ _ => noPanic_bind (noPanic_ensure _ _) fun _ _ =>
      noPanic_bind (noPanic_ensure _ _) fun _ _ => noPanic_ok _
  | Close tx => exact fun _ h => (by cases h)
  | ChangePubKey tx =>
    refine noPanic_bind ?_ fun op _ => noPanic_ok _
    refine noPanic_bind (noPanic_getAccountByAddress hs _) fun found _ => ?_
    refine noPanic_bind (noPanic_okOrElse _ _) fun account _ => ?_
    exact noPanic_bind (noPanic_ensure _ _) fun _ _ => noPanic_bind (noPanic_ensure _ _) fun _ _ =>
      noPanic_bind (noPanic_ensure _ _) fun _ _ => noPanic_bind (noPanic_ensure _ _) fun _ _ =>
      noPanic_ok _
  | ForcedExit tx =>
    refine noPanic_bind ?_ fun op _ => noPanic_ok _
    refine noPanic_bind (noPanic_okOrElse _ _) fun initiator _ => ?_
    refine noPanic_bind (noPanic_ensure _ _) fun _ _ => noPanic_bind (noPanic_ensure _ _) fun _ _ =>
      noPanic_bind (noPanic_getAccountByAddress hs _) fun found _ => ?_
    refine noPanic_bind (noPanic_okOrElse _ _) fun account _ => ?_
    exact noPanic_bind (noPanic_ensure _ _) fun _ _ => noPanic_ok _

/-- The operation carries the withdrawal it was made of. -/
theorem Withdraw.createOp_tx {tx : Withdraw} {op : WithdrawOp} (h : tx.createOp env s = .ok op) :
    op.tx = tx := by
  unfold Withdraw.createOp at h
  simp only [Outcome.bind_eq_ok] at h
  obtain ⟨_, -, found, -, ⟨id, account⟩, -, _, -, _, -, _, -, h⟩ := h
  obtain rfl := Except.ok.inj h
  rfl

/-- And the key change. -/
theorem ChangePubKey.createOp_tx {tx : ChangePubKey} {op : ChangePubKeyOp}
    (h : tx.createOp env s = .ok op) : op.tx = tx := by
  unfold ChangePubKey.createOp at h
  simp only [Outcome.bind_eq_ok] at h
  obtain ⟨found, -, ⟨id, account⟩, -, _, -, _, -, _, -, _, -, h⟩ := h
  obtain rfl := Except.ok.inj h
  rfl

/-- The operation of a forced exit, read backwards. -/
theorem ForcedExit.createOp_eq_ok {tx : ForcedExit} {op : ForcedExitOp}
    (h : tx.createOp env s = .ok op) :
    op.tx = tx ∧ ∃ initiator target, s.getAccount tx.initiatorAccountId = some initiator ∧
      env.verifySignature (.ForcedExit tx) = some initiator.pubKeyHash ∧
      s.accountIdByAddress.lookup tx.target = some op.targetAccountId ∧
      s.getAccount op.targetAccountId = some target ∧ target.pubKeyHash = 0 ∧
      op.withdrawAmount =
        if target.address = tx.target then some (target.getBalance tx.token) else none := by
  unfold ForcedExit.createOp at h
  simp only [Outcome.bind_eq_ok, Outcome.ensure_eq_ok, Outcome.okOrElse_eq_ok] at h
  obtain ⟨initiator, hinitiator, _, hsigned, _, -, found, hfound, ⟨id, target⟩, rfl, _, hlocked,
    h⟩ := h
  obtain ⟨hid, htarget⟩ := s.getAccountByAddress_eq_some hfound
  obtain rfl := Except.ok.inj h
  refine ⟨rfl, initiator, target, hinitiator, hsigned, hid, htarget, hlocked, ?_⟩
  show ((s.getAccount id).filter _).map _ = _
  rw [htarget, Option.filter_some]
  by_cases haddress : target.address = tx.target
  · rw [if_pos (decide_eq_true haddress), if_pos haddress]
    rfl
  · rw [if_neg (by simpa using haddress), if_neg haddress]
    rfl

/-- And forwards. -/
theorem ForcedExit.createOp_ok {tx : ForcedExit} {initiator target : Account} {id : AccountId}
    (hinitiator : s.getAccount tx.initiatorAccountId = some initiator)
    (hsigned : env.verifySignature (.ForcedExit tx) = some initiator.pubKeyHash)
    (htoken : tx.token ≤ maxTokenId) (hid : s.accountIdByAddress.lookup tx.target = some id)
    (htarget : s.getAccount id = some target) (hlocked : target.pubKeyHash = 0)
    (haddress : target.address = tx.target) :
    tx.createOp env s = .ok ⟨tx, id, some (target.getBalance tx.token)⟩ := by
  have hfound : s.getAccountByAddress tx.target = .ok (some (id, target)) := by
    unfold ZkSyncState.getAccountByAddress
    rw [hid]
    show (Outcome.expect (s.getAccount id) _ >>= _) = _
    rw [htarget]
    rfl
  unfold ForcedExit.createOp
  rw [hinitiator, hfound]
  simp only [Outcome.okOrElse, Outcome.ensure, Outcome.ok_bind, if_pos hsigned, if_pos htoken,
    if_pos hlocked, htarget, Option.filter_some, haddress, decide_true, if_true, Option.map_some,
    Outcome.pure_eq]

end Conversion

/-! ## When validation is total -/

section Total

variable {v : SignatureVerifier} {s : ZkSyncState} {hasher : Hasher Fr} {overflowChecks : Bool}

/-- A transfer is validated without a panic exactly if its fee can be packed where the checks come
to it. -/
theorem Transfer.validatesTotally_iff (hs : IndexFound s) (tx : Transfer) :
    ValidatesTotally v (v.env hasher overflowChecks) s (.Transfer tx) ↔
      ZkSyncTx.Protected v s (.Transfer tx) := by
  have hreturns : (tx.checkCorrectness v).Succeeds ↔ ZkSyncTx.Protected v s (.Transfer tx) := by
    unfold checkCorrectness ZkSyncTx.Protected
    simp only [Outcome.succeeds_andM, Outcome.succeeds_test, Outcome.test_eq_true, true_and,
      Outcome.succeeds_map, SignatureVerifier.succeeds_verifySignature,
      succeeds_isFeeAmountPackable, isTokenAmountPackable_eq_true, isFeeAmountPackable_eq_true]
    constructor
    · exact fun h hamount hfee hpackable => ((h hamount hfee).2 hpackable).1
    · refine fun h hamount hfee => ⟨succeeds_isTokenAmountPackable hamount, fun hpackable =>
        ⟨h hamount hfee hpackable, fun hfeePackable _ _ _ => ?_⟩⟩
      exact Transfer.succeeds_getBytes hpackable.packs hfeePackable.packs
  refine ⟨fun h => hreturns.mp h.returns, fun h => ?_⟩
  have hpassed : tx.checkCorrectness v = .ok true →
      IsTokenAmountPackable tx.amount ∧ IsFeeAmountPackable tx.fee := by
    unfold checkCorrectness
    simp only [Outcome.andM_eq_true, isTokenAmountPackable_eq_true, isFeeAmountPackable_eq_true]
    rintro ⟨-, -, hamount, hfee, -⟩
    exact ⟨hamount, hfee⟩
  refine ⟨hreturns.mpr h, fun hvalid => ?_, fun _ => noPanic_zksyncTxToZksyncOp hs _,
    fun hvalid op hop => ?_⟩
  · obtain ⟨hamount, hfee⟩ := hpassed hvalid
    exact Transfer.succeeds_getBytes hamount.packs hfee.packs
  · obtain ⟨⟨amount, hamount, -⟩, fee, hfee, -⟩ := hpassed hvalid
    obtain ⟨outcome, hcreate, hop⟩ := Outcome.bind_eq_ok.mp hop
    obtain rfl := Except.ok.inj hop
    obtain ⟨-, -, -, ⟨j, b, -, -, rfl⟩ | ⟨-, rfl⟩⟩ := Transfer.createOp_eq_ok hcreate
    · exact ⟨_, TransferOp.getPublicData_eq hamount hfee⟩
    · exact ⟨_, TransferToNewOp.getPublicData_eq hamount hfee⟩

/-- The same for a withdrawal. -/
theorem Withdraw.validatesTotally_iff (hs : IndexFound s) (tx : Withdraw) :
    ValidatesTotally v (v.env hasher overflowChecks) s (.Withdraw tx) ↔
      ZkSyncTx.Protected v s (.Withdraw tx) := by
  have hreturns : (tx.checkCorrectness v).Succeeds ↔ ZkSyncTx.Protected v s (.Withdraw tx) := by
    unfold checkCorrectness ZkSyncTx.Protected
    simp only [Outcome.succeeds_andM, Outcome.succeeds_test, Outcome.test_eq_true, true_and,
      Outcome.succeeds_map, SignatureVerifier.succeeds_verifySignature,
      succeeds_isFeeAmountPackable, isFeeAmountPackable_eq_true]
    constructor
    · exact fun h hamount => (h hamount).1
    · refine fun h hamount => ⟨h hamount, fun hfeePackable _ _ => ?_⟩
      exact Withdraw.succeeds_getBytes hamount hfeePackable.packs
  refine ⟨fun h => hreturns.mp h.returns, fun h => ?_⟩
  have hpassed : tx.checkCorrectness v = .ok true →
      tx.amount < u128Bound ∧ IsFeeAmountPackable tx.fee := by
    unfold checkCorrectness
    simp only [Outcome.andM_eq_true, Outcome.test_eq_true, isFeeAmountPackable_eq_true]
    rintro ⟨hamount, hfee, -⟩
    exact ⟨hamount, hfee⟩
  refine ⟨hreturns.mpr h, fun hvalid => ?_, fun _ => noPanic_zksyncTxToZksyncOp hs _,
    fun hvalid op hop => ?_⟩
  · obtain ⟨hamount, hfee⟩ := hpassed hvalid
    exact Withdraw.succeeds_getBytes hamount hfee.packs
  · obtain ⟨hamount, fee, hfee, -⟩ := hpassed hvalid
    obtain ⟨outcome, hcreate, hop⟩ := Outcome.bind_eq_ok.mp hop
    obtain rfl := Except.ok.inj hop
    obtain rfl := Withdraw.createOp_tx hcreate
    exact ⟨_, WithdrawOp.getPublicData_eq hamount hfee⟩

/-- Closing an account never panics. -/
theorem Close.validatesTotally (hs : IndexFound s) (tx : Close) :
    ValidatesTotally v (v.env hasher overflowChecks) s (.Close tx) :=
  ⟨⟨_, rfl⟩, fun _ => ⟨_, rfl⟩, fun _ => noPanic_zksyncTxToZksyncOp hs _,
    fun _ _ hop => (by cases hop)⟩

/-- The same for a key change. -/
theorem ChangePubKey.validatesTotally_iff (hs : IndexFound s) (tx : ChangePubKey) :
    ValidatesTotally v (v.env hasher overflowChecks) s (.ChangePubKey tx) ↔
      ZkSyncTx.Protected v s (.ChangePubKey tx) := by
  have hbytes : (ZkSyncTx.ChangePubKey tx).getBytes.Succeeds ↔ tx.fee ≤ maxPackable 11 :=
    ChangePubKey.succeeds_getBytes.trans succeeds_packFeeAmount
  have hreturns : (tx.checkCorrectness v).Succeeds ↔ ZkSyncTx.Protected v s (.ChangePubKey tx) := by
    unfold checkCorrectness ZkSyncTx.Protected
    simp only [Outcome.succeeds_andM, Outcome.succeeds_test, Outcome.test_eq_true, true_and,
      Outcome.succeeds_map, SignatureVerifier.succeeds_verifySignature,
      succeeds_isFeeAmountPackable, hbytes]
    constructor
    · exact fun h hconsent => (h hconsent).1
    · exact fun h hconsent => ⟨h hconsent, fun _ _ _ => h hconsent⟩
  refine ⟨fun h => hreturns.mp h.returns, fun h => ?_⟩
  have hpassed : tx.checkCorrectness v = .ok true → IsFeeAmountPackable tx.fee := by
    unfold checkCorrectness
    simp only [Outcome.andM_eq_true, isFeeAmountPackable_eq_true]
    rintro ⟨-, -, -, -, hfee⟩
    exact hfee
  refine ⟨hreturns.mpr h, fun hvalid => ?_, fun _ => noPanic_zksyncTxToZksyncOp hs _,
    fun hvalid op hop => ?_⟩
  · exact hbytes.mpr (succeeds_packFeeAmount.mp (hpassed hvalid).packs)
  · obtain ⟨fee, hfee, -⟩ := hpassed hvalid
    obtain ⟨outcome, hcreate, hop⟩ := Outcome.bind_eq_ok.mp hop
    obtain rfl := Except.ok.inj hop
    obtain rfl := ChangePubKey.createOp_tx hcreate
    exact ⟨_, ChangePubKeyOp.getPublicData_eq hfee⟩

/-- A state only executes what the verifier has accepted. -/
theorem env_verifySignature {tx : ZkSyncTx} {signer : PubKeyHash} :
    (v.env hasher overflowChecks).verifySignature tx = some signer ↔
      v.verifySignature tx = .ok (some signer) := by
  show (v.verifySignature tx).toOption.join = some signer ↔ _
  rw [Option.join_eq_some_iff, Outcome.toOption_eq_some]

theorem ForcedExitOp.lt_of_getPublicData {op : ForcedExitOp} {data : Bytes}
    (h : op.getPublicData = .ok data) : op.withdrawAmount.getD 0 < u128Bound := by
  obtain ⟨amount, hamount, -⟩ := Outcome.bind_eq_ok.mp h
  exact (u128Bytes_eq_ok hamount).1

/-- The same for a forced exit. -/
theorem ForcedExit.validatesTotally_iff (hs : IndexFound s) (tx : ForcedExit) :
    ValidatesTotally v (v.env hasher overflowChecks) s (.ForcedExit tx) ↔
      ZkSyncTx.Protected v s (.ForcedExit tx) := by
  have hreturns : (tx.checkCorrectness v).Succeeds ↔ tx.fee ≤ maxPackable 11 := by
    unfold checkCorrectness
    simp only [Outcome.succeeds_andM, Outcome.succeeds_test, Outcome.test_eq_true, true_and,
      Outcome.succeeds_map, SignatureVerifier.succeeds_verifySignature,
      succeeds_isFeeAmountPackable, isFeeAmountPackable_eq_true]
    refine ⟨fun h => h.1, fun h => ⟨h, fun hfeePackable _ _ => ?_⟩⟩
    exact ForcedExit.succeeds_getBytes hfeePackable.packs
  have hpassed : tx.checkCorrectness v = .ok true ↔ IsFeeAmountPackable tx.fee ∧
      tx.initiatorAccountId ≤ maxAccountId ∧ tx.token ≤ maxTokenId ∧
      ∃ signer, v.verifySignature (.ForcedExit tx) = .ok (some signer) := by
    unfold checkCorrectness
    simp only [Outcome.andM_eq_true, Outcome.test_eq_true, isFeeAmountPackable_eq_true,
      Outcome.map_eq_ok, Option.isSome_iff_exists]
    refine and_congr_right fun _ => and_congr_right fun _ => and_congr_right fun _ => ?_
    constructor
    · rintro ⟨_, h, signer, hsigner⟩
      exact ⟨signer, by rw [h, hsigner]⟩
    · rintro ⟨signer, h⟩
      exact ⟨_, h, signer, rfl⟩
  constructor
  · refine fun h => ⟨hreturns.mp h.returns, ?_⟩
    intro hfee hid htoken initiator targetId target hinitiator hsigned hlookup htarget hlocked
      haddress
    -- The conversion of such an exit succeeds, so its amount is written.
    have hop : s.zksyncTxToZksyncOp (v.env hasher overflowChecks) (.ForcedExit tx) =
        .ok (.ForcedExit ⟨tx, targetId, some (target.getBalance tx.token)⟩) := by
      have hcreate : tx.createOp (v.env hasher overflowChecks) s =
          .ok ⟨tx, targetId, some (target.getBalance tx.token)⟩ :=
        ForcedExit.createOp_ok hinitiator (env_verifySignature.mpr hsigned) htoken hlookup htarget
          hlocked haddress
      exact Outcome.bind_eq_ok.mpr ⟨_, hcreate, rfl⟩
    obtain ⟨data, hdata⟩ := h.publicData (hpassed.mpr ⟨hfee, hid, htoken, _, hsigned⟩) _ hop
    exact ForcedExitOp.lt_of_getPublicData hdata
  · rintro ⟨hfee, htakes⟩
    refine ⟨hreturns.mpr hfee, fun hvalid => ?_, fun _ => noPanic_zksyncTxToZksyncOp hs _,
      fun hvalid op hop => ?_⟩
    · exact ForcedExit.succeeds_getBytes (hpassed.mp hvalid).1.packs
    · obtain ⟨hpackable, hid, htoken, -⟩ := hpassed.mp hvalid
      obtain ⟨fee, hpack⟩ := hpackable.packs
      obtain ⟨op', hcreate, hop⟩ := Outcome.bind_eq_ok.mp hop
      obtain rfl := Except.ok.inj hop
      obtain ⟨rfl, initiator, target, hinitiator, hsigned, hlookup, htarget, hlocked, hamount⟩ :=
        ForcedExit.createOp_eq_ok hcreate
      refine ⟨_, ForcedExitOp.getPublicData_eq ?_ hpack⟩
      rw [hamount]
      split
      next haddress =>
        exact htakes hpackable hid htoken initiator _ target hinitiator
          (env_verifySignature.mp hsigned) hlookup htarget hlocked haddress
      next => exact Nat.pow_pos (by decide)

end Total

/-- In every reachable state, validation is total, and what it lets through never panics,
exactly if the transaction is protected. -/
theorem validation_total_iff (v : SignatureVerifier) (hasher : Hasher Fr) (overflowChecks : Bool)
    {s : ZkSyncState} (hs : Reachable (v.env hasher overflowChecks) s) (tx : ZkSyncTx) :
    ValidatesTotally v (v.env hasher overflowChecks) s tx ↔ tx.Protected v s := by
  have hs : IndexFound s := (reachable_indexed hs).found
  cases tx with
  | Transfer tx => exact Transfer.validatesTotally_iff hs tx
  | Withdraw tx => exact Withdraw.validatesTotally_iff hs tx
  | Close tx => exact ⟨fun _ => trivial, fun _ => Close.validatesTotally hs tx⟩
  | ChangePubKey tx => exact ChangePubKey.validatesTotally_iff hs tx
  | ForcedExit tx => exact ForcedExit.validatesTotally_iff hs tx

/-- Every signature is that of one key. -/
def signedByOne : SignatureVerifier where
  verifyMusig _ _ := some 1
  verifyEthSignature tx := some tx.account

theorem validation_total_transfer :
    ValidatesTotally signedByOne (signedByOne.env (Env.signedBy 1).hasher true) sampleState
      (.Transfer (sampleTransfer 2 0)) :=
  (validation_total_iff signedByOne (Env.signedBy 1).hasher true ⟨_, _, [], .nil _⟩ _).mpr
    fun _ _ _ => (by decide)

/-- A withdrawal with a fee that is no `u128`. -/
def costlyWithdraw : Withdraw where
  accountId := 0
  fromAddress := 1
  toAddress := 1
  token := 0
  amount := 1
  fee := 2 ^ 128
  nonce := 0
  signature := ⟨0, 0⟩
  fast := false

/-- Validation of this withdrawal panics. -/
theorem validation_panics :
    ¬ ∀ tx, (ZkSyncTx.checkCorrectness signedByOne tx).Succeeds := by
  intro h
  obtain ⟨b, hb⟩ := h (.Withdraw costlyWithdraw)
  have hpanics : costlyWithdraw.checkCorrectness signedByOne =
      .error (.panic "Only u128 allowed") := rfl
  rw [show ZkSyncTx.checkCorrectness signedByOne (.Withdraw costlyWithdraw) = _ from hpanics] at hb
  cases hb

end ZkSync
