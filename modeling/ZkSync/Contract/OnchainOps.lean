import ZkSync.Contract.ChangePubkeyMessage
import ZkSync.Contract.PriorityQueue
import ZkSync.Lib.Run

/-!
# The operations of a block, as the contract sees them

When a block is committed, the contract walks over its public data
(`collectOnchainOps`): it compares priority operations with the queue, checks the
consent to key changes and hashes the withdrawals into a chain. When the block is
verified, it walks over the withdrawals once more, now as records of 39 bytes
(`processOnchainWithdrawals`), credits them and compares the chain.

The state of the first walk is a `Walk`, and one round of its loop is `visit`; a
walk that returns is a `Run` of rounds (`collectLoop_eq_ok`), so what is proved of one
round is proved of the walk by induction. Which operation stands at the pointer
decides how far a round steps, whatever else it does (`visit_offset`).
-/

namespace ZkSync.Contract

open Bytes (ofBytesBE toBytesBE slice)

def OpType.ofCode (code : UInt8) : Option OpType :=
  [OpType.Noop, .Deposit, .TransferToNew, .PartialExit, .CloseAccount, .Transfer, .FullExit,
    .ChangePubKey, .ForcedExit][code.toNat]?

theorem OpType.ofCode_code (opType : OpType) : ofCode opType.code = some opType := by
  cases opType <;> rfl

/-- How far the pointer moves over an operation; `_CloseAccount` is not supported. -/
def OpType.bytes : OpType → Nat
  | .Noop => NOOP_BYTES
  | .Deposit => DEPOSIT_BYTES
  | .TransferToNew => TRANSFER_TO_NEW_BYTES
  | .PartialExit => PARTIAL_EXIT_BYTES
  | .CloseAccount => 0
  | .Transfer => TRANSFER_BYTES
  | .FullExit => FULL_EXIT_BYTES
  | .ChangePubKey => CHANGE_PUBKEY_BYTES
  | .ForcedExit => FORCED_EXIT_BYTES

/-! ## Signatures -/

section Signatures

variable (ext : Externals)

/-- R (32 bytes), S (32 bytes), V (1 byte). -/
def recoverAddressFromEthSignature (signature message : Bytes) : Sol Address := do
  require (signature.length = 65) "ves10"
  let (offset, signR) ← readBytes32 signature 0
  let (offset, signS) ← readBytes32 signature offset
  let signV := signature.getD offset 0
  return ext.ecrecover (ext.keccak256 message) signV signR signS

def verifyChangePubkeySignature (signature : Bytes) (newPkHash : BitVec 160) (nonce : UInt32)
    (ethAddress : Address) (accountId : UInt32) : Sol Bool := do
  let signedMessage ← changePubkeySignedMessage newPkHash nonce accountId
  let recoveredAddress ← recoverAddressFromEthSignature ext signature signedMessage
  return recoveredAddress = ethAddress

/-- 65 bytes reach the precompile, whatever they are. -/
theorem recoverAddressFromEthSignature_eq {signature : Bytes} (hlength : signature.length = 65)
    (message : Bytes) : ∃ v r s, recoverAddressFromEthSignature ext signature message =
      .ok (ext.ecrecover (ext.keccak256 message) v r s) := by
  have hread : ∀ start, start + 32 ≤ 65 →
      ∃ word, readBytes32 signature start = .ok (start + 32, word) := by
    intro start hstart
    rw [readBytes32, bytesToBytes32_eq (by rw [hlength]; exact hstart)]
    exact ⟨_, rfl⟩
  obtain ⟨signR, hR⟩ := hread 0 (by decide)
  obtain ⟨signS, hS⟩ := hread (0 + 32) (by decide)
  unfold recoverAddressFromEthSignature
  rw [require_of hlength, Outcome.ok_bind, hR, Outcome.ok_bind]
  dsimp only
  rw [hS, Outcome.ok_bind]
  exact ⟨_, _, _, rfl⟩

end Signatures

/-! ## The hash chain of withdrawals -/

section Withdrawals

variable (ext : Externals)

/-- The hash of no withdrawals. -/
def EMPTY_STRING_KECCAK : Bytes32 :=
  0xc5d2460186f7233c927e7db2dcc703c0e500b653ca82273b7bfad8045d85a470

/-- `keccak256(abi.encode(hash, addToPendingWithdrawalsQueue, owner, tokenId, amount))`:
every field takes a word. -/
def hashWithdrawal (hash : Bytes32) (withdrawal : Withdrawal) : Bytes32 :=
  ext.keccak256 (toBytesBE 32 hash.toNat ++
    (toBytesBE 32 withdrawal.addToPendingWithdrawalsQueue.toNat ++
    (toBytesBE 32 withdrawal.owner.toNat ++ (toBytesBE 32 withdrawal.tokenId.toNat ++
    toBytesBE 32 withdrawal.amount.toNat))))

def withdrawalsHash (hash : Bytes32) (withdrawals : List Withdrawal) : Bytes32 :=
  withdrawals.foldl (hashWithdrawal ext) hash

end Withdrawals

/-! ## The walk over the public data -/

/-- The variables of the loop. `offset` is `pubDataPtr - pubDataStartPtr`. -/
structure Walk where
  offset : Nat
  currentPriorityRequestId : UInt64
  ethWitnessOffset : UInt64
  processedOperationsRequiringEthWitness : UInt16
  withdrawalsDataHash : Bytes32
  deriving DecidableEq

/-- What a block is committed with. -/
structure CommitData where
  publicData : Bytes
  ethWitness : Bytes
  ethWitnessSizes : List UInt32

namespace Walk

/-- The operation has been processed. -/
def advance (w : Walk) (bytes : Nat) : Walk := { w with offset := w.offset + bytes }

def addWithdrawal (ext : Externals) (w : Walk) (withdrawal : Withdrawal) : Walk :=
  { w with withdrawalsDataHash := hashWithdrawal ext w.withdrawalsDataHash withdrawal }

def nextPriorityRequest (w : Walk) : Walk :=
  { w with currentPriorityRequestId := w.currentPriorityRequestId + 1 }

def nextWitness (w : Walk) (size : UInt32) : Walk :=
  { w with
    ethWitnessOffset := w.ethWitnessOffset + size.toUInt64
    processedOperationsRequiringEthWitness := w.processedOperationsRequiringEthWitness + 1 }

end Walk

section Collect

variable (ext : Externals) (s : Storage) (block : CommitData)

/-- The operation type at the pointer. -/
def opTypeAt (publicData : Bytes) (offset : Nat) : Option OpType :=
  publicData[offset]?.bind OpType.ofCode

/-- The consent of the owner: a signature, or else a fact stored on chain. -/
def checkConsent (w : Walk) (op : ChangePubKey) (size : UInt32) : Sol Unit :=
  if size ≠ 0 then do
    let currentEthWitness ← bytesSlice block.ethWitness w.ethWitnessOffset.toNat size.toNat
    let valid ← verifyChangePubkeySignature ext currentEthWitness op.pubKeyHash op.nonce op.owner
      op.accountId
    require valid "fpp15"
  else
    require (s.authFacts op.owner op.nonce = ext.keccak256 (addressBytes op.pubKeyHash)) "fpp16"

/-- One round of the loop, at an operation of the given type. The events that
announce a deposit or a full exit are left out. -/
def visitOp (opType : OpType) (w : Walk) : Sol Walk :=
  match opType with
  | .Transfer => return w.advance TRANSFER_BYTES
  | .Noop => return w.advance NOOP_BYTES
  | .TransferToNew => return w.advance TRANSFER_TO_NEW_BYTES
  | .Deposit => do
    let pubData ← bytesSlice block.publicData (w.offset + 1) (DEPOSIT_BYTES - 1)
    let _ ← readDepositPubdata pubData
    commitNextPriorityOperation ext s ⟨.Deposit, pubData⟩ w.currentPriorityRequestId
    return w.nextPriorityRequest.advance DEPOSIT_BYTES
  | .PartialExit => do
    let data ← readPartialExitPubdata block.publicData (w.offset + 1)
    return (w.addWithdrawal ext ⟨true, data.owner, data.tokenId, data.amount⟩).advance
      PARTIAL_EXIT_BYTES
  | .ForcedExit => do
    let data ← readForcedExitPubdata block.publicData (w.offset + 1)
    return (w.addWithdrawal ext ⟨true, data.target, data.tokenId, data.amount⟩).advance
      FORCED_EXIT_BYTES
  | .FullExit => do
    let pubData ← bytesSlice block.publicData (w.offset + 1) (FULL_EXIT_BYTES - 1)
    let fullExitData ← readFullExitPubdata pubData
    commitNextPriorityOperation ext s ⟨.FullExit, pubData⟩ w.currentPriorityRequestId
    return ((w.addWithdrawal ext ⟨false, fullExitData.owner, fullExitData.tokenId,
      fullExitData.amount⟩).nextPriorityRequest).advance FULL_EXIT_BYTES
  | .ChangePubKey => do
    let index := w.processedOperationsRequiringEthWitness.toNat
    require (index < block.ethWitnessSizes.length) "fcs13"
    let op ← readChangePubKeyPubdata block.publicData (w.offset + 1)
    let size := block.ethWitnessSizes.getD index 0
    checkConsent ext s block w op size
    return (w.nextWitness size).advance CHANGE_PUBKEY_BYTES
  | .CloseAccount => throw "fpp14"

def visit (w : Walk) : Sol Walk :=
  match opTypeAt block.publicData w.offset with
  | some opType => visitOp ext s block opType w
  | none => throw "fpp14"

variable {ext s block}

/-- A round that returns has stepped over the operation. -/
theorem visitOp_offset {opType : OpType} {w w' : Walk}
    (h : visitOp ext s block opType w = .ok w') :
    w'.offset = w.offset + opType.bytes ∧ 0 < opType.bytes := by
  cases opType with
  | Noop | TransferToNew | Transfer =>
    cases h
    exact ⟨rfl, Nat.succ_pos _⟩
  | CloseAccount => cases h
  | PartialExit | ForcedExit =>
    obtain ⟨data, -, h⟩ := Outcome.bind_eq_ok.mp h
    cases h
    exact ⟨rfl, Nat.succ_pos _⟩
  | Deposit | FullExit =>
    obtain ⟨pubData, -, h⟩ := Outcome.bind_eq_ok.mp h
    obtain ⟨data, -, h⟩ := Outcome.bind_eq_ok.mp h
    obtain ⟨_, -, h⟩ := Outcome.bind_eq_ok.mp h
    cases h
    exact ⟨rfl, Nat.succ_pos _⟩
  | ChangePubKey =>
    obtain ⟨_, -, h⟩ := Outcome.bind_eq_ok.mp h
    obtain ⟨op, -, h⟩ := Outcome.bind_eq_ok.mp h
    obtain ⟨_, -, h⟩ := Outcome.bind_eq_ok.mp h
    cases h
    exact ⟨rfl, Nat.succ_pos _⟩

theorem visit_offset {w w' : Walk} (h : visit ext s block w = .ok w') : w.offset < w'.offset := by
  unfold visit at h
  split at h
  next opType _ =>
    obtain ⟨hoffset, hpos⟩ := visitOp_offset h
    omega
  next => cases h

variable (ext s block)

def collectLoop (w : Walk) : Sol Walk :=
  if w.offset < block.publicData.length then
    match _h : visit ext s block w with
    | .ok w' => collectLoop w'
    | .error e => .error e
  else .ok w
  termination_by block.publicData.length - w.offset
  decreasing_by
    have := visit_offset _h
    omega

def Walk.start (s : Storage) : Walk where
  offset := 0
  currentPriorityRequestId := s.firstPriorityRequestId + s.totalCommittedPriorityRequests
  ethWitnessOffset := 0
  processedOperationsRequiringEthWitness := 0
  withdrawalsDataHash := EMPTY_STRING_KECCAK

/-- The hash of the withdrawals, and the storage with the new
`totalCommittedPriorityRequests`. -/
def collectOnchainOps : Sol (Bytes32 × Storage) := do
  require (block.publicData.length % chunkBytes = 0) "fcs11"
  let w ← collectLoop ext s block (Walk.start s)
  require (w.offset = block.publicData.length) "fcs12"
  require (w.ethWitnessOffset.toNat = block.ethWitness.length) "fcs14"
  require (w.processedOperationsRequiringEthWitness.toNat = block.ethWitnessSizes.length) "fcs15"
  require (w.currentPriorityRequestId ≤ s.firstPriorityRequestId + s.totalOpenPriorityRequests)
    "fcs16"
  return (w.withdrawalsDataHash, { s with
    totalCommittedPriorityRequests := w.currentPriorityRequestId - s.firstPriorityRequestId })

/-- A round at an operation: the label says at which, and what the loop had come to. -/
def VisitStep (w : Walk) (e : OpType × Walk) (w' : Walk) : Prop :=
  w.offset < block.publicData.length ∧ e.2 = w ∧
    opTypeAt block.publicData w.offset = some e.1 ∧ visitOp ext s block e.1 w = .ok w'

variable {ext s block}

theorem visit_eq_ok {w w' : Walk} : visit ext s block w = .ok w' ↔
    ∃ opType, opTypeAt block.publicData w.offset = some opType ∧
      visitOp ext s block opType w = .ok w' := by
  unfold visit
  split
  next opType hopType =>
    exact ⟨fun h => ⟨opType, hopType, h⟩, fun ⟨_, h, h'⟩ => (by
      obtain rfl := Option.some.inj (hopType.symm.trans h)
      exact h')⟩
  next hnone => exact ⟨fun h => (by cases h), fun ⟨_, h, _⟩ => (by rw [hnone] at h; cases h)⟩

/-- The loop returns where a run of rounds passes the end of the data. -/
theorem collectLoop_eq_ok {w w' : Walk} : collectLoop ext s block w = .ok w' ↔
    ∃ tr, Run (VisitStep ext s block) w tr w' ∧ block.publicData.length ≤ w'.offset := by
  constructor
  · intro h
    fun_induction collectLoop ext s block w with
    | case1 w hin w₁ hvisit ih =>
      obtain ⟨tr, hrun, hend⟩ := ih h
      obtain ⟨opType, hopType, hop⟩ := visit_eq_ok.mp hvisit
      exact ⟨(opType, w) :: tr, .cons ⟨hin, rfl, hopType, hop⟩ hrun, hend⟩
    | case2 => cases h
    | case3 w hout =>
      cases h
      exact ⟨[], .nil _, Nat.le_of_not_lt hout⟩
  · rintro ⟨tr, hrun, hend⟩
    induction hrun with
    | nil w =>
      rw [collectLoop, if_neg (Nat.not_lt.mpr hend)]
    | cons hstep _ ih =>
      obtain ⟨hin, -, hopType, hop⟩ := hstep
      have hvisit := visit_eq_ok.mpr ⟨_, hopType, hop⟩
      rw [collectLoop, if_pos hin]
      split
      next w₁ h₁ =>
        rw [hvisit] at h₁
        cases h₁
        exact ih hend
      next e h₁ =>
        rw [hvisit] at h₁
        cases h₁

end Collect

/-! ## The walk over the withdrawals -/

section Process

variable (ext : Externals)

/-- `SafeMathUInt128.add`. -/
def safeAdd128 (a b : BitVec 128) : Sol (BitVec 128) := do
  let c := a + b
  require (a ≤ c) "SafeMath: addition overflow"
  return c

/-- Sets a balance, and marks its slot. -/
def Storage.setBalance (s : Storage) (key : BitVec 176) (balance : BalanceToWithdraw) : Storage :=
  { s with balancesToWithdraw := Function.update s.balancesToWithdraw key balance }

/-- The variables of the loop, beside the storage. -/
structure ProcessState where
  storage : Storage
  localNumberOfPendingWithdrawals : UInt32
  withdrawalsDataHash : Bytes32

/-- One round: the withdrawal is credited, queued and hashed. -/
def processWithdrawal (p : ProcessState) (withdrawal : Withdrawal) : Sol ProcessState := do
  let packedBalanceKey := packAddressAndTokenId withdrawal.owner withdrawal.tokenId
  let s := p.storage
  let balance := (s.balancesToWithdraw packedBalanceKey).balanceToWithdraw
  let balance ← safeAdd128 balance withdrawal.amount
  let s := s.setBalance packedBalanceKey ⟨balance, 0xff⟩
  let withdrawalsDataHash := hashWithdrawal ext p.withdrawalsDataHash withdrawal
  if withdrawal.addToPendingWithdrawalsQueue then
    let index := s.firstPendingWithdrawalIndex + p.localNumberOfPendingWithdrawals
    let pendingWithdrawals :=
      Function.update s.pendingWithdrawals index ⟨withdrawal.owner, withdrawal.tokenId⟩
    return ⟨{ s with pendingWithdrawals }, p.localNumberOfPendingWithdrawals + 1,
      withdrawalsDataHash⟩
  else
    return ⟨s, p.localNumberOfPendingWithdrawals, withdrawalsDataHash⟩

def processLoop (withdrawalsData : Bytes) (offset : Nat) (p : ProcessState) : Sol ProcessState :=
  if offset < withdrawalsData.length then do
    let withdrawal ← readWithdrawalData withdrawalsData offset
    let p ← processWithdrawal ext p withdrawal
    processLoop withdrawalsData (offset + ONCHAIN_WITHDRAWAL_BYTES) p
  else .ok p
  termination_by withdrawalsData.length - offset
  decreasing_by
    have : 0 < ONCHAIN_WITHDRAWAL_BYTES := Nat.succ_pos _
    omega

def processOnchainWithdrawals (s : Storage) (withdrawalsData : Bytes)
    (expectedWithdrawalsDataHash : Bytes32) : Sol Storage := do
  require (withdrawalsData.length % ONCHAIN_WITHDRAWAL_BYTES = 0) "pow11"
  let p ← processLoop ext withdrawalsData 0 ⟨s, s.numberOfPendingWithdrawals, EMPTY_STRING_KECCAK⟩
  require (p.withdrawalsDataHash = expectedWithdrawalsDataHash) "pow12"
  return { p.storage with numberOfPendingWithdrawals := p.localNumberOfPendingWithdrawals }

end Process

end ZkSync.Contract
