import ZkSync.Contract.Storage
import ZkSync.Crypto.TreeCache
import ZkSync.Types.BlockData
import ZkSync.Witness.Operations

/-!
# The witness of a block

`zksync_circuit::witness::utils`: `buildBlockWitness` executes the operations of a block
on the circuit's account tree, pads them with noops, collects the fees and commits to the
public data. Fees are collected differently from the server: one leaf operation for each
operation that pays, in its order, and the first for nothing at all.

What the source asserts is asserted: the size of the public data, the number of
operations, and the root hash of the block. The hash of the used subtree and the audit
paths are not modelled; SHA-256 is a parameter.
-/

namespace ZkSync.Circuit

open Bytes (toBytesBE)

/-! ## Operations -/

/-- The vectors that the loop over the operations fills. -/
structure BlockAccum where
  operations : List Operation
  pubData : List Bool
  fees : List CollectedFee

def BlockAccum.empty : BlockAccum := ⟨[], [], []⟩

def BlockAccum.extend (accum added : BlockAccum) : BlockAccum :=
  ⟨accum.operations ++ added.operations, accum.pubData ++ added.pubData, accum.fees ++ added.fees⟩

section Operations

variable (H : Hasher Fr)

/-- One round of the loop. -/
def witnessOperation (tree : CircuitAccountTree) :
    ZkSyncOp → Outcome (BlockAccum × CircuitAccountTree)
  | .Deposit deposit => do
    let (w, tree) ← DepositWitness.applyTx H tree deposit
    let operations ← DepositWitness.calculateOperations w
    let pubData ← DepositWitness.getPubdata w
    return (⟨operations, pubData, []⟩, tree)
  | .Transfer transfer => do
    let (w, tree) ← TransferWitness.applyTx H tree transfer
    let operations ← TransferWitness.calculateOperations w
    let pubData ← TransferWitness.getPubdata w
    return (⟨operations, pubData, [⟨transfer.tx.token, transfer.tx.fee⟩]⟩, tree)
  | .TransferToNew transferToNew => do
    let (w, tree) ← TransferToNewWitness.applyTx H tree transferToNew
    let operations ← TransferToNewWitness.calculateOperations w
    let pubData ← TransferToNewWitness.getPubdata w
    return (⟨operations, pubData, [⟨transferToNew.tx.token, transferToNew.tx.fee⟩]⟩, tree)
  | .Withdraw withdraw => do
    let (w, tree) ← WithdrawWitness.applyTx H tree withdraw
    let operations ← WithdrawWitness.calculateOperations w
    let pubData ← WithdrawWitness.getPubdata w
    return (⟨operations, pubData, [⟨withdraw.tx.token, withdraw.tx.fee⟩]⟩, tree)
  | .Close close => do
    let (w, tree) ← CloseAccountWitness.applyTx H tree close
    let operations ← CloseAccountWitness.calculateOperations w
    let pubData ← CloseAccountWitness.getPubdata w
    return (⟨operations, pubData, []⟩, tree)
  | .FullExit fullExitOp => do
    let success := fullExitOp.withdrawAmount.isSome
    let (w, tree) ← FullExitWitness.applyTx H tree fullExitOp success
    let operations ← FullExitWitness.calculateOperations w
    let pubData ← FullExitWitness.getPubdata w
    return (⟨operations, pubData, []⟩, tree)
  | .ChangePubKeyOffchain changePkhashOp => do
    let (w, tree) ← ChangePubkeyOffChainWitness.applyTx H tree changePkhashOp
    let operations ← ChangePubkeyOffChainWitness.calculateOperations w
    let pubData ← ChangePubkeyOffChainWitness.getPubdata w
    return (⟨operations, pubData, [⟨changePkhashOp.tx.feeToken, changePkhashOp.tx.fee⟩]⟩, tree)
  | .ForcedExit forcedExit => do
    let (w, tree) ← ForcedExitWitness.applyTx H tree forcedExit
    let operations ← ForcedExitWitness.calculateOperations w
    let pubData ← ForcedExitWitness.getPubdata w
    return (⟨operations, pubData, [⟨forcedExit.tx.token, forcedExit.tx.fee⟩]⟩, tree)
  | .Noop => return (.empty, tree)

/-- The loop. -/
def witnessOperations (accum : BlockAccum) (tree : CircuitAccountTree) :
    List ZkSyncOp → Outcome (BlockAccum × CircuitAccountTree)
  | [] => return (accum, tree)
  | op :: ops => do
    let (added, tree) ← witnessOperation H tree op
    witnessOperations (accum.extend added) tree ops

theorem witnessOperations_append {accum accum' added : BlockAccum}
    {tree tree' tree'' : CircuitAccountTree} {ops : List ZkSyncOp} {op : ZkSyncOp}
    (h : witnessOperations H accum tree ops = .ok (accum', tree'))
    (hop : witnessOperation H tree' op = .ok (added, tree'')) :
    witnessOperations H accum tree (ops ++ [op]) = .ok (accum'.extend added, tree'') := by
  induction ops generalizing accum tree with
  | nil =>
    cases h
    rw [List.nil_append, witnessOperations, hop]
    rfl
  | cons first ops ih =>
    rw [witnessOperations, Outcome.bind_eq_ok] at h
    obtain ⟨⟨added₁, tree₁⟩, hfirst, h⟩ := h
    rw [List.cons_append, witnessOperations, hfirst]
    exact ih h

/-- `noop_operation` -/
def noopOperation (tree : CircuitAccountTree) (accId : AccountId) : Outcome Operation := do
  let acc ← Outcome.expect (tree.get accId.toNat) "called Option::unwrap() on a None value"
  let branch : OperationBranch :=
    { address := addressFe accId
      token := Fr.fromNat 0
      witness := {
        accountWitness := AccountWitness.fromCircuitAccount acc
        balanceValue := (acc.subtree.get 0).getD (Fr.fromNat 0) } }
  return {
    txType := Fr.fromNat 0
    chunk := Fr.fromNat 0
    pubdataChunk := leBitVectorIntoFieldElement (List.replicate CHUNK_BIT_WIDTH false)
    args := {
      ethAddress := Fr.fromNat 0
      amountPacked := Fr.fromNat 0
      fullAmount := Fr.fromNat 0
      fee := Fr.fromNat 0
      a := Fr.fromNat 0
      b := Fr.fromNat 0
      pubNonce := Fr.fromNat 0
      newPubKeyHash := Fr.fromNat 0 }
    lhs := branch
    rhs := branch }

/-! ## Fees -/

/-- `apply_fee`: the root hash after it, and the account before it. -/
def applyFee (tree : CircuitAccountTree) (validatorAddress : AccountId) (token : TokenId)
    (fee : Nat) : Outcome ((Fr × AccountWitness) × CircuitAccountTree) := do
  let feeFe := Fr.fromNat fee
  let (removed, tree) ← tree.remove (CircuitAccount.default H) validatorAddress.toNat
  let validatorLeaf ← Outcome.expect removed "validator_leaf is empty"
  let validatorAccountWitness := AccountWitness.fromCircuitAccount validatorLeaf
  let (removed, subtree) ← validatorLeaf.subtree.remove (Fr.fromNat 0) token.toNat
  let balance := removed.getD (Fr.fromNat 0) + feeFe
  let subtree ← subtree.insert token.toNat balance
  let tree ← tree.insert validatorAddress.toNat { validatorLeaf with subtree := subtree }
  let (rootAfterFee, tree) ← SparseMerkleTree.rootHash (circuitParams H) tree
  return ((rootAfterFee, validatorAccountWitness), tree)

/-- The fees after the first; each replaces what the fee before it gave. -/
def applyFees (validatorAddress : AccountId) (applied : Fr × AccountWitness)
    (tree : CircuitAccountTree) :
    List CollectedFee → Outcome ((Fr × AccountWitness) × CircuitAccountTree)
  | [] => return (applied, tree)
  | fee :: fees => do
    let amount ← unwrapU128 fee.amount
    let (applied, tree) ← applyFee H tree validatorAddress fee.token amount
    applyFees validatorAddress applied tree fees

end Operations

/-! ## The public data commitment -/

/-- A byte from at most eight bits, highest first. -/
def byteOfChunk (bits : List Bool) : UInt8 :=
  bits.zipIdx.foldl (fun byte (bit, i) => if bit then byte ||| (1 <<< (7 - UInt8.ofNat i)) else byte) 0

/-- `be_bit_vector_into_bytes` -/
def beBitVectorIntoBytes : List Bool → Bytes
  | [] => []
  | bit :: bits => byteOfChunk (bit :: bits.take 7) :: beBitVectorIntoBytes (bits.drop 7)
termination_by bits => bits.length

/-- A field element, padded on the left to 256 bits. -/
def packedBits (x : Fr) : List Bool :=
  List.replicate (256 - (bitIterator x).length) false ++ bitIterator x

/-- The 32 bytes of a hash. -/
def hashBytes (sha256 : Bytes → BitVec 256) (input : Bytes) : Bytes :=
  toBytesBE 32 (sha256 input).toNat

/-- `public_data_commitment` -/
def publicDataCommitment (sha256 : Bytes → BitVec 256) (pubdataBits : List Bool)
    (initialRoot newRoot validatorAddress blockNumber : Fr) : Outcome Fr := do
  let publicDataInitialBits := packedBits blockNumber ++ packedBits validatorAddress
  Outcome.assert (publicDataInitialBits.length = 512) "assertion failed: (left == right)"
  let hashResult := hashBytes sha256 (beBitVectorIntoBytes publicDataInitialBits)
  let hashResult := hashBytes sha256
    (hashResult ++ beBitVectorIntoBytes (packedBits initialRoot))
  let hashResult := hashBytes sha256 (hashResult ++ beBitVectorIntoBytes (packedBits newRoot))
  let hashResult := hashBytes sha256 (hashResult ++ beBitVectorIntoBytes pubdataBits)
  -- the top bits are cleared, so that the hash is a field element
  Fr.ofBytes ((hashResult.headD 0 &&& 0x1f) :: hashResult.tail)

/-! ## The builder -/

/-- What is computed by and by is absent at first. -/
structure WitnessBuilder where
  accountTree : CircuitAccountTree
  feeAccountId : AccountId
  blockNumber : BlockNumber
  initialRootHash : Fr
  operations : List Operation
  pubdata : List Bool
  rootBeforeFees : Option Fr
  rootAfterFees : Option Fr
  feeAccountBalances : Option (List Fr)
  feeAccountWitness : Option AccountWitness
  pubdataCommitment : Option Fr

namespace WitnessBuilder

variable (H : Hasher Fr) (sha256 : Bytes → BitVec 256)

def new (accountTree : CircuitAccountTree) (feeAccountId : AccountId) (blockNumber : BlockNumber) :
    Outcome WitnessBuilder := do
  let (initialRootHash, accountTree) ← SparseMerkleTree.rootHash (circuitParams H) accountTree
  return {
    accountTree, feeAccountId, blockNumber, initialRootHash
    operations := []
    pubdata := []
    rootBeforeFees := none
    rootAfterFees := none
    feeAccountBalances := none
    feeAccountWitness := none
    pubdataCommitment := none }

def addOperationWithPubdata (b : WitnessBuilder) (ops : List Operation) (pubdata : List Bool) :
    WitnessBuilder :=
  { b with operations := b.operations ++ ops, pubdata := b.pubdata ++ pubdata }

/-- The rounds of the padding. -/
def addNoops (b : WitnessBuilder) : Nat → Outcome WitnessBuilder
  | 0 => return b
  | n + 1 => do
    let noop ← noopOperation b.accountTree b.feeAccountId
    let b := b.addOperationWithPubdata [noop] (List.replicate CHUNK_BIT_WIDTH false)
    addNoops b n

def extendPubdataWithNoops (b : WitnessBuilder) (blockSizeChunks : Nat) :
    Outcome WitnessBuilder := do
  let chunksUsed := b.operations.length
  Outcome.assert (chunksUsed ≤ blockSizeChunks) "failed to get number of noops"
  b.addNoops (blockSizeChunks - chunksUsed)

/-- `total_tokens` -/
def totalTokens : Nat := 2 ^ balanceTreeDepth

def collectFees (b : WitnessBuilder) (fees : List CollectedFee) : Outcome WitnessBuilder := do
  let (rootBeforeFees, tree) ← SparseMerkleTree.rootHash (circuitParams H) b.accountTree
  let feeCircuitAccount ← Outcome.expect (tree.get b.feeAccountId.toNat)
    "fee account is not in the tree"
  let feeAccountBalances := (List.range totalTokens).map fun i =>
    (feeCircuitAccount.subtree.get i).getD (Fr.fromNat 0)
  let (applied, tree) ← applyFee H tree b.feeAccountId 0 0
  let (applied, tree) ← applyFees H b.feeAccountId applied tree fees
  return { b with
    accountTree := tree
    rootBeforeFees := some rootBeforeFees
    feeAccountBalances := some feeAccountBalances
    rootAfterFees := some applied.1
    feeAccountWitness := some applied.2 }

def calculatePubdataCommitment (b : WitnessBuilder) : Outcome WitnessBuilder := do
  let rootAfterFees ← Outcome.expect b.rootAfterFees
    "root after fee should be present at this step"
  let commitment ← publicDataCommitment sha256 b.pubdata b.initialRootHash rootAfterFees
    (addressFe b.feeAccountId) (Fr.fromNat b.blockNumber.toNat)
  return { b with pubdataCommitment := some commitment }

end WitnessBuilder

def buildBlockWitness (H : Hasher Fr) (sha256 : Bytes → BitVec 256)
    (accountTree : CircuitAccountTree) (block : Block) : Outcome WitnessBuilder := do
  let blockSize := block.blockChunksSize
  let witnessAccum ← WitnessBuilder.new H accountTree block.feeAccount block.blockNumber
  let (accum, tree) ← witnessOperations H .empty witnessAccum.accountTree block.executedOps
  let witnessAccum := { witnessAccum with accountTree := tree }
  let witnessAccum := witnessAccum.addOperationWithPubdata accum.operations accum.pubData
  let witnessAccum ← witnessAccum.extendPubdataWithNoops blockSize
  Outcome.assert (witnessAccum.pubdata.length = CHUNK_BIT_WIDTH * blockSize)
    "assertion failed: (left == right)"
  Outcome.assert (witnessAccum.operations.length = blockSize) "assertion failed: (left == right)"
  let witnessAccum ← witnessAccum.collectFees H accum.fees
  let rootAfterFees ← Outcome.expect witnessAccum.rootAfterFees "root_after_fees not present"
  Outcome.assert (rootAfterFees = block.newRootHash) "assertion failed: (left == right)"
  witnessAccum.calculatePubdataCommitment sha256

end ZkSync.Circuit
