import ZkSync.Contract.OnchainOps

/-!
# The calls of the contract

`ZkSync.sol`: what each external function does to the storage. A call that reverts
is an error and changes nothing. A transfer out is not executed here: whether it
succeeded is an argument of the call, and a call that pays reports its payments.
The functions are `nonReentrant`, so nothing happens in between.

The loop variables of the source are unsigned and compared with `<`, so they do not
wrap within a loop: a loop runs over the list of their values. What does wrap is
the bound of a loop, and the counters.
-/

namespace ZkSync.Contract

open Bytes (ofBytesBE toBytesBE slice)

/-- The values of `i` in `for (uint64 i = start; i < stop; i++)`. -/
def idsBetween (start stop : UInt64) : List UInt64 :=
  (List.range' start.toNat (stop.toNat - start.toNat)).map UInt64.ofNat

/-- The values of `i` in `for (uint32 i = start; i < stop; i++)`. -/
def indicesBetween (start stop : UInt32) : List UInt32 :=
  (List.range' start.toNat (stop.toNat - start.toNat)).map UInt32.ofNat

def minU32 (a b : UInt32) : UInt32 := if a < b then a else b

def minU64 (a b : UInt64) : UInt64 := if a < b then a else b

/-! ## Blocks -/

section Blocks

variable (ext : Externals) (governance : Governance) (msg : Msg) (s : Storage)

def createBlockCommitment (blockNumber feeAccount : UInt32) (oldRoot newRoot : Bytes32)
    (publicData : Bytes) : Bytes32 :=
  let hash := ext.sha256 (toBytesBE 32 blockNumber.toNat ++ toBytesBE 32 feeAccount.toNat)
  let hash := ext.sha256 (toBytesBE 32 hash.toNat ++ toBytesBE 32 oldRoot.toNat)
  let hash := ext.sha256 (toBytesBE 32 hash.toNat ++ toBytesBE 32 newRoot.toNat)
  ext.sha256 (toBytesBE 32 hash.toNat ++ publicData)

def createCommittedBlock (blockNumber feeAccount : UInt32) (newRoot : Bytes32) (publicData : Bytes)
    (withdrawalDataHash : Bytes32) (nCommittedPriorityRequests : UInt64) : Sol Storage := do
  require (publicData.length % chunkBytes = 0) "cbb10"
  let blockChunks := UInt32.ofNat (publicData.length / chunkBytes)
  require (isBlockSizeSupported ext blockChunks) "ccb11"
  let commitment := createBlockCommitment ext blockNumber feeAccount
    (s.blocks (blockNumber - 1)).stateRoot newRoot publicData
  let block : StoredBlock :=
    { committedAtBlock := UInt32.ofNat msg.blockNumber
      priorityOperations := nCommittedPriorityRequests
      chunks := blockChunks
      withdrawalsDataHash := withdrawalDataHash
      commitment
      stateRoot := newRoot }
  return { s with blocks := Function.update s.blocks blockNumber block }

/-- The ABI decoder accepts no array of `2 ^ 64` bytes. -/
def commitBlock (blockNumber feeAccount : UInt32) (newBlockInfo : List Bytes32)
    (block : CommitData) : Sol Storage := do
  require (block.ethWitness.length < 2 ^ 64) ""
  requireActive s
  require (blockNumber = s.totalBlocksCommitted + 1) "fck11"
  governance.requireActiveValidator msg.sender
  require (newBlockInfo.length = 1) "fck13"
  let (withdrawalsDataHash, s₁) ← collectOnchainOps ext s block
  let nPriorityRequestProcessed :=
    s₁.totalCommittedPriorityRequests - s.totalCommittedPriorityRequests
  let s₂ ← createCommittedBlock ext msg s₁ blockNumber feeAccount (newBlockInfo.getD 0 0)
    block.publicData withdrawalsDataHash nPriorityRequestProcessed
  return { s₂ with totalBlocksCommitted := s₂.totalBlocksCommitted + 1 }

/-- Clears some of the requests, and counts all of them as processed. -/
def deleteRequests (number : UInt64) : Sol Storage := do
  require (number ≤ s.totalOpenPriorityRequests) "pcs21"
  let numberOfRequestsToClear := minU64 number MAX_PRIORITY_REQUESTS_TO_DELETE_IN_VERIFY
  let startIndex := s.firstPriorityRequestId
  let priorityRequests := (idsBetween startIndex (startIndex + numberOfRequestsToClear)).foldl
    (fun requests i => Function.update requests i {}) s.priorityRequests
  return { s with
    priorityRequests
    totalOpenPriorityRequests := s.totalOpenPriorityRequests - number
    firstPriorityRequestId := s.firstPriorityRequestId + number
    totalCommittedPriorityRequests := s.totalCommittedPriorityRequests - number }

def verifyBlock (blockNumber : UInt32) (proof : List Nat) (withdrawalsData : Bytes) :
    Sol Storage := do
  requireActive s
  require (blockNumber = s.totalBlocksVerified + 1) "fvk11"
  governance.requireActiveValidator msg.sender
  let block := s.blocks blockNumber
  let verified ← verifyBlockProof ext proof block.commitment block.chunks
  require verified "fvk13"
  let s₁ ← processOnchainWithdrawals ext s withdrawalsData block.withdrawalsDataHash
  let s₂ ← deleteRequests s₁ (s₁.blocks blockNumber).priorityOperations
  return { s₂ with totalBlocksVerified := s₂.totalBlocksVerified + 1 }

def isBlockCommitmentExpired : Bool :=
  s.totalBlocksCommitted > s.totalBlocksVerified &&
  (s.blocks (s.totalBlocksVerified + 1)).committedAtBlock > 0 &&
  msg.blockNumber >
    (s.blocks (s.totalBlocksVerified + 1)).committedAtBlock.toNat + EXPECT_VERIFICATION_IN

/-- One round of the loop over the reverted blocks: their requests are counted, and
the blocks deleted. -/
def revertBlock (r : UInt64 × (UInt32 → StoredBlock)) (i : UInt32) :
    Sol (UInt64 × (UInt32 → StoredBlock)) := do
  let revertedBlock := r.2 i
  require (revertedBlock.committedAtBlock > 0) "frk11"
  return (r.1 + revertedBlock.priorityOperations, Function.update r.2 i {})

/-- The loop variable goes up to the last block inclusively; a loop up to the largest
`uint32` would not end. -/
def revertBlocks (maxBlocksToRevert : UInt32) : Sol Storage := do
  require (isBlockCommitmentExpired msg s) "rbs11"
  governance.requireActiveValidator msg.sender
  let blocksCommited := s.totalBlocksCommitted
  let blocksToRevert := minU32 maxBlocksToRevert (blocksCommited - s.totalBlocksVerified)
  require (blocksCommited ≠ 2 ^ 32 - 1) "out of gas"
  let reverted := indicesBetween (s.totalBlocksCommitted - blocksToRevert + 1) (blocksCommited + 1)
  let (revertedPriorityRequests, blocks) ← reverted.foldlM revertBlock (0, s.blocks)
  return { s with
    blocks
    totalBlocksCommitted := s.totalBlocksCommitted - blocksToRevert
    totalCommittedPriorityRequests := s.totalCommittedPriorityRequests - revertedPriorityRequests }

end Blocks

/-! ## Exodus mode -/

section Exodus

variable (ext : Externals) (msg : Msg) (s : Storage)

def triggerExodusIfNeeded : Storage :=
  let oldest := s.priorityRequests s.firstPriorityRequestId
  if msg.blockNumber ≥ oldest.expirationBlock ∧ oldest.expirationBlock ≠ 0 then
    { s with exodusMode := true }
  else s

/-- `balanceToWithdraw += amount`, unchecked. -/
def Storage.addBalance (s : Storage) (key : BitVec 176) (amount : BitVec 128) : Storage :=
  let balance := s.balancesToWithdraw key
  s.setBalance key { balance with balanceToWithdraw := balance.balanceToWithdraw + amount }

/-- A deposit is given back to its owner. -/
def refund (s : Storage) (request : PriorityOperation) : Sol Storage :=
  if request.opType = .Deposit then do
    let op ← readDepositPubdata request.pubData
    return s.addBalance (packAddressAndTokenId op.owner op.tokenId) op.amount
  else .ok s

/-- One round: the request is given back and deleted. -/
def cancelRequest (s : Storage) (id : UInt64) : Sol Storage := do
  let s ← refund s (s.priorityRequests id)
  return { s with priorityRequests := Function.update s.priorityRequests id {} }

def cancelOutstandingDepositsForExodusMode (n : UInt64) : Sol Storage := do
  require s.exodusMode "coe01"
  let toProcess := minU64 s.totalOpenPriorityRequests n
  require (toProcess > 0) "coe02"
  let s ← (idsBetween s.firstPriorityRequestId (s.firstPriorityRequestId + toProcess)).foldlM
    cancelRequest s
  return { s with
    firstPriorityRequestId := s.firstPriorityRequestId + toProcess
    totalOpenPriorityRequests := s.totalOpenPriorityRequests - toProcess }

def exit (accountId : UInt32) (tokenId : UInt16) (amount : BitVec 128) (proof : List Nat) :
    Sol Storage := do
  let packedBalanceKey := packAddressAndTokenId msg.sender tokenId
  require s.exodusMode "fet11"
  require (¬ s.exited accountId tokenId) "fet12"
  require (verifyExitProof ext (s.blocks s.totalBlocksVerified).stateRoot accountId msg.sender tokenId
    amount proof) "fet13"
  let stored := s.balancesToWithdraw packedBalanceKey
  let balance ← safeAdd128 stored.balanceToWithdraw amount
  let s := s.setBalance packedBalanceKey { stored with balanceToWithdraw := balance }
  let exitedTokens := Function.update (s.exited accountId) tokenId true
  return { s with exited := Function.update s.exited accountId exitedTokens }

end Exodus

/-! ## Withdrawals -/

/-- A transfer out of the contract. -/
structure Payment where
  toAddress : Address
  tokenId : UInt16
  amount : BitVec 128
  deriving DecidableEq

section Withdrawals

variable (governance : Governance) (msg : Msg) (s : Storage)

/-- What the code of the recipient or of the token answers to a transfer: whether it
succeeded, and the balance of the rollup in the token before and after it. -/
structure TransferOut where
  succeeded : Bool
  balanceBefore : Nat
  balanceAfter : Nat

/-- Reports what has left the rollup, which may be less than was asked for, but not more
than `maxAmount`. -/
def withdrawERC20Guarded (transfer : TransferOut) (maxAmount : BitVec 128) :
    Sol (BitVec 128) := do
  require transfer.succeeded "wtg11"
  let balanceDiff ← safeSub transfer.balanceBefore transfer.balanceAfter
  require (balanceDiff ≤ maxAmount.toNat) "wtg12"
  toUint128 balanceDiff

/-- A transfer of `completeWithdrawals`, and what has left the rollup by it. An error is a
transfer that was not sent: `sendETHNoRevert` is false, or the call with the token has
reverted. -/
def sendPending (transfer : TransferOut) (tokenId : UInt16) (amount : BitVec 128) :
    Sol (BitVec 128) :=
  if tokenId = 0 then do
    require transfer.succeeded "not sent"
    return amount
  else withdrawERC20Guarded transfer amount

/-- One round of the loop of `completeWithdrawals`: the whole balance is taken and
sent, and put back if it could not be sent. How much a token has really moved is not
looked at; what is reported as paid here is what has left the rollup. -/
def completeWithdrawal (transfer : TransferOut) (s : Storage) (i : UInt32) :
    Storage × List Payment :=
  let pending := s.pendingWithdrawals i
  let s := { s with pendingWithdrawals := Function.update s.pendingWithdrawals i {} }
  let packedBalanceKey := packAddressAndTokenId pending.toAddress pending.tokenId
  let stored := s.balancesToWithdraw packedBalanceKey
  let amount := stored.balanceToWithdraw
  if amount ≠ 0 then
    let s := s.setBalance packedBalanceKey
      { stored with balanceToWithdraw := stored.balanceToWithdraw - amount }
    match sendPending transfer pending.tokenId amount with
    | .ok moved => (s, [⟨pending.toAddress, pending.tokenId, moved⟩])
    | .error _ => (s.addBalance packedBalanceKey amount, [])
  else (s, [])

/-- `sends i` is what the transfer for the record at `i` meets with. -/
def completeRound (sends : UInt32 → TransferOut) (r : Storage × List Payment) (i : UInt32) :
    Storage × List Payment :=
  let (s, payments) := completeWithdrawal (sends i) r.1 i
  (s, r.2 ++ payments)

def completeWithdrawals (n : UInt32) (sends : UInt32 → TransferOut) : Storage × List Payment :=
  let toProcess := minU32 n s.numberOfPendingWithdrawals
  let startIndex := s.firstPendingWithdrawalIndex
  let s := { s with
    numberOfPendingWithdrawals := s.numberOfPendingWithdrawals - toProcess
    firstPendingWithdrawalIndex := s.firstPendingWithdrawalIndex + toProcess }
  (indicesBetween startIndex (startIndex + toProcess)).foldl (completeRound sends) (s, [])

/-- `SafeMathUInt128.sub`. -/
def safeSub128 (a b : BitVec 128) : Sol (BitVec 128) := do
  require (b ≤ a) "SafeMath: subtraction overflow"
  return a - b

def registerWithdrawal (token : UInt16) (amount : BitVec 128) (toAddress : Address) :
    Sol Storage := do
  let packedBalanceKey := packAddressAndTokenId toAddress token
  let stored := s.balancesToWithdraw packedBalanceKey
  let balance ← safeSub128 stored.balanceToWithdraw amount
  return s.setBalance packedBalanceKey { stored with balanceToWithdraw := balance }

/-- `success` says whether the transfer succeeds. -/
def withdrawETH (amount : BitVec 128) (success : Bool) : Sol (Storage × List Payment) := do
  let s ← registerWithdrawal s 0 amount msg.sender
  require success "fwe11"
  return (s, [⟨msg.sender, 0, amount⟩])

/-- What is paid is what has left the rollup, whatever amount was asked for. -/
def withdrawERC20 (token : Address) (transfer : TransferOut) : Sol (Storage × List Payment) := do
  let tokenId ← governance.validateTokenAddress token
  let packedBalanceKey := packAddressAndTokenId msg.sender tokenId
  let balance := (s.balancesToWithdraw packedBalanceKey).balanceToWithdraw
  let withdrawnAmount ← withdrawERC20Guarded transfer balance
  let s ← registerWithdrawal s tokenId withdrawnAmount msg.sender
  return (s, [⟨msg.sender, tokenId, withdrawnAmount⟩])

end Withdrawals

/-! ## Facts -/

def setAuthPubkeyHash (ext : Externals) (msg : Msg) (s : Storage) (pubkeyHash : Bytes)
    (nonce : UInt32) : Sol Storage := do
  require (pubkeyHash.length = PUBKEY_HASH_BYTES) "ahf10"
  require (s.authFacts msg.sender nonce = 0) "ahf11"
  let facts := Function.update (s.authFacts msg.sender) nonce (ext.keccak256 pubkeyHash)
  return { s with authFacts := Function.update s.authFacts msg.sender facts }

/-! ## The system -/

/-- The calls, with what other contracts answer to them. -/
inductive Call where
  | register (call : Register)
  | commitBlock (blockNumber feeAccount : UInt32) (newBlockInfo : List Bytes32)
      (block : CommitData)
  | verifyBlock (blockNumber : UInt32) (proof : List Nat) (withdrawalsData : Bytes)
  | revertBlocks (maxBlocksToRevert : UInt32)
  | triggerExodusIfNeeded
  | cancelOutstandingDepositsForExodusMode (n : UInt64)
  | exit (accountId : UInt32) (tokenId : UInt16) (amount : BitVec 128) (proof : List Nat)
  | completeWithdrawals (n : UInt32) (sends : UInt32 → TransferOut)
  | withdrawETH (amount : BitVec 128) (success : Bool)
  | withdrawERC20 (token : Address) (transfer : TransferOut)
  | setAuthPubkeyHash (pubkeyHash : Bytes) (nonce : UInt32)

/-- What can be seen of a call from outside: the requests it announced, and its payments. -/
structure Receipt where
  requests : List NewPriorityRequest := []
  payments : List Payment := []

def perform (ext : Externals) (governance : Governance) (msg : Msg) (s : Storage) :
    Call → Sol (Storage × Receipt)
  | .register call => do
    let (s, event) ← register governance msg s call
    return (s, { requests := [event] })
  | .commitBlock blockNumber feeAccount newBlockInfo block => do
    let s ← commitBlock ext governance msg s blockNumber feeAccount newBlockInfo block
    return (s, {})
  | .verifyBlock blockNumber proof withdrawalsData => do
    let s ← verifyBlock ext governance msg s blockNumber proof withdrawalsData
    return (s, {})
  | .revertBlocks maxBlocksToRevert => do
    let s ← revertBlocks governance msg s maxBlocksToRevert
    return (s, {})
  | .triggerExodusIfNeeded => return (triggerExodusIfNeeded msg s, {})
  | .cancelOutstandingDepositsForExodusMode n => do
    let s ← cancelOutstandingDepositsForExodusMode s n
    return (s, {})
  | .exit accountId tokenId amount proof => do
    let s ← exit ext msg s accountId tokenId amount proof
    return (s, {})
  | .completeWithdrawals n sends =>
    let (s, payments) := completeWithdrawals s n sends
    return (s, { payments })
  | .withdrawETH amount success => do
    let (s, payments) ← withdrawETH msg s amount success
    return (s, { payments })
  | .withdrawERC20 token transfer => do
    let (s, payments) ← withdrawERC20 governance msg s token transfer
    return (s, { payments })
  | .setAuthPubkeyHash pubkeyHash nonce => do
    let s ← setAuthPubkeyHash ext msg s pubkeyHash nonce
    return (s, {})

/-- A call in its surroundings, and its receipt. -/
structure Event where
  governance : Governance
  msg : Msg
  call : Call
  receipt : Receipt

/-- A call that does not revert. -/
def CallStep (ext : Externals) (s : Storage) (e : Event) (s' : Storage) : Prop :=
  perform ext e.governance e.msg s e.call = .ok (s', e.receipt)

end ZkSync.Contract
