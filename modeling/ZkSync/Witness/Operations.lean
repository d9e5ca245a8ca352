import ZkSync.Types.PublicData
import ZkSync.Witness.CircuitTree

/-!
# Operation witnesses

`zksync_circuit::witness`: for every operation, what the prover puts into the circuit.
`applyTx` executes the operation a second time, on the circuit's account tree;
`getPubdata` writes the public data a second time, as bits; `calculateOperations` cuts
them into chunks, each with the left and the right branch the circuit is to see.

Operations with one leaf share `SingleWitness`, those with two `DoubleWitness`. The
roots, the audit paths and the signature data of the witnesses are not modelled, nor
are `get_sig_bits`, which only tests use.
-/

namespace ZkSync.Circuit

open FloatConversions (toFloat)

/-! ## Bits -/

def TX_TYPE_BIT_WIDTH : Nat := 8

/-- `BitIterator` over a field element: the bits of its four words, highest first. -/
def bitIterator (x : Fr) : List Bool := (x.getBitsLeFixed 256).reverse

/-- `Vec::resize` of bits, with false. -/
def resizeBits (bits : List Bool) (width : Nat) : List Bool :=
  (bits ++ List.replicate (width - bits.length) false).take width

/-- What `append_be_fixed_width` appends. -/
def beFixedWidth (x : Fr) (width : Nat) : List Bool :=
  (resizeBits (bitIterator x).reverse width).reverse

/-- `le_bit_vector_into_field_element`. -/
def leBitVectorIntoFieldElement (bits : List Bool) : Fr :=
  (bits.foldl (fun (fe, base) bit => (if bit then fe + base else fe, base + base))
    (Fr.fromNat 0, Fr.fromNat 1)).1

/-- `resize_grow_only`: more bits than there is room for are a panic. -/
def resizeGrowOnly (toResize : List Bool) (newSize : Nat) : Outcome (List Bool) := do
  Outcome.assert (toResize.length ≤ newSize) "assertion failed: to_resize.len() <= new_size"
  return resizeBits toResize newSize

/-- `FloatConversions::to_float`, unwrapped, as a field element. -/
def floatEncoded (amount exponentLen mantissaLen : Nat) : Outcome Fr :=
  match toFloat amount exponentLen mantissaLen with
  | .error _ => .error (.panic "called Result::unwrap() on an Err value")
  | .ok bits => .ok (leBitVectorIntoFieldElement bits)

/-- The packed amount as an element of the field. -/
def amountEncoded (amount : Nat) : Outcome Fr :=
  floatEncoded amount AMOUNT_EXPONENT_BIT_WIDTH AMOUNT_MANTISSA_BIT_WIDTH

/-- The packed fee as an element of the field. -/
def feeEncoded (fee : Nat) : Outcome Fr :=
  floatEncoded fee FEE_EXPONENT_BIT_WIDTH FEE_MANTISSA_BIT_WIDTH

/-- `to_u128().unwrap()`, also where the source prints and parses the number. -/
def unwrapU128 (amount : Nat) : Outcome Nat :=
  Outcome.expect (toU128 amount) "called Option::unwrap() on a None value"

def addressFe (id : AccountId) : Fr := Fr.fromNat id.toNat

def tokenFe (token : TokenId) : Fr := Fr.fromNat token.toNat

/-- An address has 160 bits, so the field holds it as it is. -/
def ethAddressToFr (address : Address) : Fr := Fr.fromNat address.toNat

/-! ## What the circuit gets -/

/-- The leaves that the circuit reads in a branch, and the paths to them. -/
structure OperationBranchWitness where
  accountWitness : AccountWitness
  balanceValue : Fr

/-- A branch: an account, a token, and what is read there. -/
structure OperationBranch where
  address : Fr
  token : Fr
  witness : OperationBranchWitness

/-- The arguments that an operation shows to the circuit, absent ones as zero. -/
structure OperationArguments where
  a : Fr
  b : Fr
  amountPacked : Fr
  fullAmount : Fr
  fee : Fr
  newPubKeyHash : Fr
  ethAddress : Fr
  pubNonce : Fr

/-- One chunk of an operation, as the circuit gets it. -/
structure Operation where
  txType : Fr
  chunk : Fr
  pubdataChunk : Fr
  args : OperationArguments
  lhs : OperationBranch
  rhs : OperationBranch

/-- `pubdata.chunks(CHUNK_BIT_WIDTH)[chunk]`. -/
def pubdataChunk (pubdata : List Bool) (chunk : Nat) : Outcome Fr := do
  Outcome.assert (chunk * CHUNK_BIT_WIDTH < pubdata.length) "index out of bounds"
  return leBitVectorIntoFieldElement ((pubdata.drop (chunk * CHUNK_BIT_WIDTH)).take CHUNK_BIT_WIDTH)

/-- One operation for each chunk, between the branches of the chunk. -/
def operationsFor (txType : Fr) (args : OperationArguments) (pubdata : List Bool)
    (branches : Nat → OperationBranch × OperationBranch) :
    List Nat → Outcome (List Operation)
  | [] => .ok []
  | chunk :: chunks => do
    let pubdataChunk ← pubdataChunk pubdata chunk
    let operations ← operationsFor txType args pubdata branches chunks
    let (lhs, rhs) := branches chunk
    return { txType, chunk := Fr.fromNat chunk, pubdataChunk, args, lhs, rhs } :: operations

/-- The witness of an operation on one leaf. -/
structure SingleWitness where
  before : OperationBranch
  after : OperationBranch
  args : OperationArguments
  txType : Fr

/-- The witness of an operation on two leaves, the second of which is written last. -/
structure DoubleWitness where
  fromBefore : OperationBranch
  fromIntermediate : OperationBranch
  fromAfter : OperationBranch
  toBefore : OperationBranch
  toIntermediate : OperationBranch
  toAfter : OperationBranch
  args : OperationArguments
  txType : Fr

/-- The branch before the operation has changed it. -/
def branchBefore (id : AccountId) (token : TokenId) (leaf : LeafOperation) : OperationBranch :=
  ⟨addressFe id, tokenFe token, leaf.accountWitnessBefore, leaf.balanceBefore⟩

/-- The branch behind the operation, with the paths to the new leaf. -/
def branchAfter (id : AccountId) (token : TokenId) (leaf : LeafOperation) : OperationBranch :=
  ⟨addressFe id, tokenFe token, leaf.accountWitnessAfter, leaf.balanceAfter⟩

/-- The first chunk sees the leaf before, the others see it after. -/
def SingleWitness.branches (w : SingleWitness) (chunk : Nat) : OperationBranch × OperationBranch :=
  if chunk = 0 then (w.before, w.before) else (w.after, w.after)

/-- The two branches of a chunk: the first chunk changes the first, the later ones the second. -/
def DoubleWitness.branches (w : DoubleWitness) (chunk : Nat) : OperationBranch × OperationBranch :=
  if chunk = 0 then (w.fromBefore, w.toBefore)
  else if chunk = 1 then (w.fromIntermediate, w.toIntermediate)
  else (w.fromAfter, w.toAfter)

/-- The source asserts the depth of the tree that the operations are written for. -/
def assertCapacity (tree : CircuitAccountTree) : Outcome Unit :=
  Outcome.assert (tree.capacity = 2 ^ accountTreeDepth) "assertion failed: (left == right)"

section Witnesses

variable (H : Hasher Fr) (tree : CircuitAccountTree)

/-! ## Deposit -/

abbrev DepositWitness := SingleWitness

namespace DepositWitness

def applyTx (deposit : DepositOp) : Outcome (DepositWitness × CircuitAccountTree) := do
  let amount ← unwrapU128 deposit.priorityOp.amount
  let token := deposit.priorityOp.token
  let address := ethAddressToFr deposit.priorityOp.toAddress
  assertCapacity tree
  let (leaf, tree) ← applyLeafOperation H tree deposit.accountId token
    (fun acc => do
      Outcome.assert (acc.address = address ∨ acc.address = Fr.fromNat 0)
        "assertion failed: (acc.address == deposit.address) || (acc.address == Fr::zero())"
      return { acc with address := address })
    (fun bal => bal + Fr.fromNat amount)
  return ({
    before := branchBefore deposit.accountId token leaf
    after := branchAfter deposit.accountId token leaf
    args := {
      ethAddress := address
      amountPacked := Fr.fromNat 0
      fullAmount := Fr.fromNat amount
      fee := Fr.fromNat 0
      a := Fr.fromNat amount
      b := Fr.fromNat 0
      pubNonce := Fr.fromNat 0
      newPubKeyHash := Fr.fromNat 0 }
    txType := Fr.fromNat 1 }, tree)

def getPubdata (w : DepositWitness) : Outcome (List Bool) :=
  resizeGrowOnly (beFixedWidth w.txType TX_TYPE_BIT_WIDTH ++
    (beFixedWidth w.before.address ACCOUNT_ID_BIT_WIDTH ++
    (beFixedWidth w.before.token TOKEN_BIT_WIDTH ++
    (beFixedWidth w.args.fullAmount BALANCE_BIT_WIDTH ++
    beFixedWidth w.args.ethAddress ETH_ADDRESS_BIT_WIDTH)))) (DepositOp.CHUNKS * CHUNK_BIT_WIDTH)

def calculateOperations (w : DepositWitness) : Outcome (List Operation) := do
  let pubdata ← getPubdata w
  operationsFor w.txType w.args pubdata w.branches (List.range DepositOp.CHUNKS)

end DepositWitness

/-! ## Transfer -/

/-- What both kinds of transfer do to the sender. -/
def debitSender (amount fee : Nat) (bal : Fr) : Fr := bal - Fr.fromNat amount - Fr.fromNat fee

/-- Transactions of the owner count up its nonce. -/
def incrementNonce (acc : CircuitAccount) : CircuitAccount :=
  { acc with nonce := acc.nonce + Fr.fromNat 1 }

abbrev TransferWitness := DoubleWitness

namespace TransferWitness

def applyTx (transfer : TransferOp) : Outcome (TransferWitness × CircuitAccountTree) := do
  let amount ← unwrapU128 transfer.tx.amount
  let fee ← unwrapU128 transfer.tx.fee
  let token := transfer.tx.token
  assertCapacity tree
  let amountEncoded ← amountEncoded amount
  let feeEncoded ← feeEncoded fee
  let (from_, tree) ← applyLeafOperation H tree transfer.fromId token
    (fun acc => return incrementNonce acc) (debitSender amount fee)
  let (to_, tree) ← applyLeafOperation H tree transfer.toId token
    (fun acc => return acc) (fun bal => bal + Fr.fromNat amount)
  return ({
    fromBefore := branchBefore transfer.fromId token from_
    fromIntermediate := branchAfter transfer.fromId token from_
    fromAfter := branchAfter transfer.fromId token from_
    toBefore := branchBefore transfer.toId token to_
    toIntermediate := branchBefore transfer.toId token to_
    toAfter := branchAfter transfer.toId token to_
    args := {
      ethAddress := Fr.fromNat 0
      amountPacked := amountEncoded
      fullAmount := Fr.fromNat amount
      fee := feeEncoded
      pubNonce := Fr.fromNat 0
      a := from_.balanceBefore
      b := Fr.fromNat amount + Fr.fromNat fee
      newPubKeyHash := Fr.fromNat 0 }
    txType := Fr.fromNat 5 }, tree)

def getPubdata (w : TransferWitness) : Outcome (List Bool) :=
  resizeGrowOnly (beFixedWidth w.txType TX_TYPE_BIT_WIDTH ++
    (beFixedWidth w.fromBefore.address ACCOUNT_ID_BIT_WIDTH ++
    (beFixedWidth w.fromBefore.token TOKEN_BIT_WIDTH ++
    (beFixedWidth w.toBefore.address ACCOUNT_ID_BIT_WIDTH ++
    (beFixedWidth w.args.amountPacked (AMOUNT_MANTISSA_BIT_WIDTH + AMOUNT_EXPONENT_BIT_WIDTH) ++
    beFixedWidth w.args.fee (FEE_MANTISSA_BIT_WIDTH + FEE_EXPONENT_BIT_WIDTH))))))
    (TransferOp.CHUNKS * CHUNK_BIT_WIDTH)

def calculateOperations (w : TransferWitness) : Outcome (List Operation) := do
  let pubdata ← getPubdata w
  operationsFor w.txType w.args pubdata w.branches [0, 1]

end TransferWitness

/-! ## Transfer to a new account -/

abbrev TransferToNewWitness := DoubleWitness

namespace TransferToNewWitness

def applyTx (transfer : TransferToNewOp) : Outcome (TransferToNewWitness × CircuitAccountTree) := do
  let amount ← unwrapU128 transfer.tx.amount
  let fee ← unwrapU128 transfer.tx.fee
  let token := transfer.tx.token
  let newAddress := ethAddressToFr transfer.tx.toAddress
  assertCapacity tree
  let amountEncoded ← amountEncoded amount
  let feeEncoded ← feeEncoded fee
  let (from_, tree) ← applyLeafOperation H tree transfer.fromId token
    (fun acc => return incrementNonce acc) (debitSender amount fee)
  let (to_, tree) ← applyLeafOperation H tree transfer.toId token
    (fun acc => do
      Outcome.assert (acc.address = Fr.fromNat 0) "assertion failed: (acc.address == Fr::zero())"
      return { acc with address := newAddress })
    (fun bal => bal + Fr.fromNat amount)
  return ({
    fromBefore := branchBefore transfer.fromId token from_
    fromIntermediate := branchAfter transfer.fromId token from_
    fromAfter := branchAfter transfer.fromId token from_
    toBefore := branchBefore transfer.toId token to_
    toIntermediate := branchBefore transfer.toId token to_
    toAfter := branchAfter transfer.toId token to_
    args := {
      ethAddress := newAddress
      amountPacked := amountEncoded
      fullAmount := Fr.fromNat amount
      fee := feeEncoded
      a := from_.balanceBefore
      b := Fr.fromNat amount + Fr.fromNat fee
      pubNonce := Fr.fromNat 0
      newPubKeyHash := Fr.fromNat 0 }
    txType := Fr.fromNat 2 }, tree)

def getPubdata (w : TransferToNewWitness) : Outcome (List Bool) :=
  resizeGrowOnly (beFixedWidth w.txType TX_TYPE_BIT_WIDTH ++
    (beFixedWidth w.fromBefore.address ACCOUNT_ID_BIT_WIDTH ++
    (beFixedWidth w.fromBefore.token TOKEN_BIT_WIDTH ++
    (beFixedWidth w.args.amountPacked (AMOUNT_MANTISSA_BIT_WIDTH + AMOUNT_EXPONENT_BIT_WIDTH) ++
    (beFixedWidth w.args.ethAddress ETH_ADDRESS_BIT_WIDTH ++
    (beFixedWidth w.toBefore.address ACCOUNT_ID_BIT_WIDTH ++
    beFixedWidth w.args.fee (FEE_MANTISSA_BIT_WIDTH + FEE_EXPONENT_BIT_WIDTH)))))))
    (TransferToNewOp.CHUNKS * CHUNK_BIT_WIDTH)

/-- The source counts the chunks of another operation, which has as many. -/
def calculateOperations (w : TransferToNewWitness) : Outcome (List Operation) := do
  let pubdata ← getPubdata w
  operationsFor w.txType w.args pubdata w.branches
    ([0, 1] ++ List.range' 2 (ChangePubKeyOp.CHUNKS - 2))

end TransferToNewWitness

/-! ## Withdraw -/

abbrev WithdrawWitness := SingleWitness

namespace WithdrawWitness

def applyTx (withdraw : WithdrawOp) : Outcome (WithdrawWitness × CircuitAccountTree) := do
  let amount ← unwrapU128 withdraw.tx.amount
  let fee ← unwrapU128 withdraw.tx.fee
  let token := withdraw.tx.token
  let address := ethAddressToFr withdraw.tx.toAddress
  assertCapacity tree
  let amountEncoded ← amountEncoded amount
  let feeEncoded ← feeEncoded fee
  let (leaf, tree) ← applyLeafOperation H tree withdraw.accountId token
    (fun acc => return incrementNonce acc) (debitSender amount fee)
  return ({
    before := branchBefore withdraw.accountId token leaf
    after := branchAfter withdraw.accountId token leaf
    args := {
      ethAddress := address
      amountPacked := amountEncoded
      fullAmount := Fr.fromNat amount
      fee := feeEncoded
      pubNonce := Fr.fromNat 0
      a := leaf.balanceBefore
      b := Fr.fromNat amount + Fr.fromNat fee
      newPubKeyHash := Fr.fromNat 0 }
    txType := Fr.fromNat 3 }, tree)

def getPubdata (w : WithdrawWitness) : Outcome (List Bool) :=
  resizeGrowOnly (beFixedWidth w.txType TX_TYPE_BIT_WIDTH ++
    (beFixedWidth w.before.address ACCOUNT_ID_BIT_WIDTH ++
    (beFixedWidth w.before.token TOKEN_BIT_WIDTH ++
    (beFixedWidth w.args.fullAmount BALANCE_BIT_WIDTH ++
    (beFixedWidth w.args.fee (FEE_MANTISSA_BIT_WIDTH + FEE_EXPONENT_BIT_WIDTH) ++
    beFixedWidth w.args.ethAddress ETH_ADDRESS_BIT_WIDTH))))) (WithdrawOp.CHUNKS * CHUNK_BIT_WIDTH)

def calculateOperations (w : WithdrawWitness) : Outcome (List Operation) := do
  let pubdata ← getPubdata w
  operationsFor w.txType w.args pubdata w.branches (List.range WithdrawOp.CHUNKS)

end WithdrawWitness

/-! ## Close -/

abbrev CloseAccountWitness := SingleWitness

namespace CloseAccountWitness

def applyTx (closeAccount : CloseOp) : Outcome (CloseAccountWitness × CircuitAccountTree) := do
  assertCapacity tree
  let (leaf, tree) ← applyLeafOperation H tree closeAccount.accountId 0
    (fun acc => return { acc with pubKeyHash := Fr.fromNat 0, nonce := Fr.fromNat 0 })
    (fun bal => bal)
  return ({
    before := branchBefore closeAccount.accountId 0 leaf
    after := branchAfter closeAccount.accountId 0 leaf
    args := {
      ethAddress := Fr.fromNat 0
      amountPacked := Fr.fromNat 0
      fullAmount := Fr.fromNat 0
      pubNonce := Fr.fromNat 0
      fee := Fr.fromNat 0
      a := Fr.fromNat 0
      b := Fr.fromNat 0
      newPubKeyHash := Fr.fromNat 0 }
    txType := Fr.fromNat 4 }, tree)

def getPubdata (w : CloseAccountWitness) : Outcome (List Bool) :=
  resizeGrowOnly (beFixedWidth w.txType TX_TYPE_BIT_WIDTH ++
    beFixedWidth w.before.address ACCOUNT_ID_BIT_WIDTH) (CloseOp.CHUNKS * CHUNK_BIT_WIDTH)

def calculateOperations (w : CloseAccountWitness) : Outcome (List Operation) := do
  let pubdata ← getPubdata w
  operationsFor w.txType w.args pubdata w.branches [0]

end CloseAccountWitness

/-! ## Full exit -/

abbrev FullExitWitness := SingleWitness

namespace FullExitWitness

def applyTx (fullExit : FullExitOp) (isSuccess : Bool) :
    Outcome (FullExitWitness × CircuitAccountTree) := do
  let token := fullExit.priorityOp.token
  let fullExitAmount := (fullExit.withdrawAmount.map Fr.fromNat).getD (Fr.fromNat 0)
  assertCapacity tree
  let (leaf, tree) ← applyLeafOperation H tree fullExit.priorityOp.accountId token
    (fun acc => return acc) (fun bal => if isSuccess then Fr.fromNat 0 else bal)
  return ({
    before := branchBefore fullExit.priorityOp.accountId token leaf
    after := branchAfter fullExit.priorityOp.accountId token leaf
    args := {
      ethAddress := ethAddressToFr fullExit.priorityOp.ethAddress
      amountPacked := Fr.fromNat 0
      fullAmount := fullExitAmount
      fee := Fr.fromNat 0
      pubNonce := Fr.fromNat 0
      a := leaf.balanceBefore
      b := Fr.fromNat 0
      newPubKeyHash := Fr.fromNat 0 }
    txType := Fr.fromNat 6 }, tree)

def getPubdata (w : FullExitWitness) : Outcome (List Bool) :=
  resizeGrowOnly (beFixedWidth w.txType TX_TYPE_BIT_WIDTH ++
    (beFixedWidth w.before.address ACCOUNT_ID_BIT_WIDTH ++
    (beFixedWidth w.args.ethAddress ETH_ADDRESS_BIT_WIDTH ++
    (beFixedWidth w.before.token TOKEN_BIT_WIDTH ++
    beFixedWidth w.args.fullAmount BALANCE_BIT_WIDTH)))) (FullExitOp.CHUNKS * CHUNK_BIT_WIDTH)

def calculateOperations (w : FullExitWitness) : Outcome (List Operation) := do
  let pubdata ← getPubdata w
  operationsFor w.txType w.args pubdata w.branches (0 :: List.range' 1 5)

end FullExitWitness

/-! ## Change of the public key -/

abbrev ChangePubkeyOffChainWitness := SingleWitness

namespace ChangePubkeyOffChainWitness

def applyTx (changePubkey : ChangePubKeyOp) :
    Outcome (ChangePubkeyOffChainWitness × CircuitAccountTree) := do
  let address := ethAddressToFr changePubkey.tx.account
  let newPubkeyHash := Fr.fromNat changePubkey.tx.newPkHash.toNat
  let feeToken := changePubkey.tx.feeToken
  let fee ← unwrapU128 changePubkey.tx.fee
  assertCapacity tree
  let feeEncoded ← feeEncoded fee
  let (leaf, tree) ← applyLeafOperation H tree changePubkey.accountId feeToken
    (fun acc => do
      Outcome.assert (acc.address = address) "change pubkey address tx mismatch"
      return { acc with pubKeyHash := newPubkeyHash, nonce := acc.nonce + Fr.fromNat 1 })
    (fun bal => bal - Fr.fromNat fee)
  return ({
    before := branchBefore changePubkey.accountId feeToken leaf
    after := branchAfter changePubkey.accountId feeToken leaf
    args := {
      ethAddress := address
      amountPacked := Fr.fromNat 0
      fullAmount := Fr.fromNat 0
      fee := feeEncoded
      a := leaf.balanceBefore
      b := Fr.fromNat fee
      pubNonce := Fr.fromNat changePubkey.tx.nonce.toNat
      newPubKeyHash := newPubkeyHash }
    txType := Fr.fromNat 7 }, tree)

/-- The nonce is that of the account. -/
def getPubdata (w : ChangePubkeyOffChainWitness) : Outcome (List Bool) :=
  resizeGrowOnly (beFixedWidth w.txType TX_TYPE_BIT_WIDTH ++
    (beFixedWidth w.before.address ACCOUNT_ID_BIT_WIDTH ++
    (beFixedWidth w.args.newPubKeyHash NEW_PUBKEY_HASH_WIDTH ++
    (beFixedWidth w.args.ethAddress ETH_ADDRESS_BIT_WIDTH ++
    (beFixedWidth w.before.witness.accountWitness.nonce NONCE_BIT_WIDTH ++
    (beFixedWidth w.before.token TOKEN_BIT_WIDTH ++
    beFixedWidth w.args.fee (FEE_MANTISSA_BIT_WIDTH + FEE_EXPONENT_BIT_WIDTH)))))))
    (ChangePubKeyOp.CHUNKS * CHUNK_BIT_WIDTH)

/-- Unlike the others: every chunk sees the leaf before on the left, and after on the
right. -/
def calculateOperations (w : ChangePubkeyOffChainWitness) : Outcome (List Operation) := do
  let pubdata ← getPubdata w
  operationsFor w.txType w.args pubdata (fun _ => (w.before, w.after))
    (List.range (pubdata.length / CHUNK_BIT_WIDTH))

end ChangePubkeyOffChainWitness

/-! ## Forced exit -/

abbrev ForcedExitWitness := DoubleWitness

namespace ForcedExitWitness

/-- The initiator pays on the left, the target is emptied on the right. -/
def applyTx (forcedExit : ForcedExitOp) : Outcome (ForcedExitWitness × CircuitAccountTree) := do
  let amount ← unwrapU128 (forcedExit.withdrawAmount.getD 0)
  let fee ← unwrapU128 forcedExit.tx.fee
  let token := forcedExit.tx.token
  let initiatorId := forcedExit.tx.initiatorAccountId
  let targetId := forcedExit.targetAccountId
  let targetEthAddress := ethAddressToFr forcedExit.tx.target
  assertCapacity tree
  let amountEncoded ← amountEncoded amount
  let feeEncoded ← feeEncoded fee
  let (initiator, tree) ← applyLeafOperation H tree initiatorId token
    (fun acc => return incrementNonce acc) (fun bal => bal - Fr.fromNat fee)
  let (target, tree) ← applyLeafOperation H tree targetId token
    (fun acc => return acc) (fun bal => bal - Fr.fromNat amount)
  return ({
    fromBefore := branchBefore initiatorId token initiator
    fromIntermediate := branchAfter initiatorId token initiator
    fromAfter := branchAfter initiatorId token initiator
    toBefore := branchBefore targetId token target
    toIntermediate := branchBefore targetId token target
    toAfter := branchAfter targetId token target
    args := {
      ethAddress := targetEthAddress
      amountPacked := amountEncoded
      fullAmount := Fr.fromNat amount
      fee := feeEncoded
      pubNonce := Fr.fromNat 0
      a := initiator.balanceBefore
      b := Fr.fromNat fee
      newPubKeyHash := Fr.fromNat 0 }
    txType := Fr.fromNat 8 }, tree)

def getPubdata (w : ForcedExitWitness) : Outcome (List Bool) :=
  resizeGrowOnly (beFixedWidth w.txType TX_TYPE_BIT_WIDTH ++
    (beFixedWidth w.fromBefore.address ACCOUNT_ID_BIT_WIDTH ++
    (beFixedWidth w.toBefore.address ACCOUNT_ID_BIT_WIDTH ++
    (beFixedWidth w.fromBefore.token TOKEN_BIT_WIDTH ++
    (beFixedWidth w.args.fullAmount BALANCE_BIT_WIDTH ++
    (beFixedWidth w.args.fee (FEE_MANTISSA_BIT_WIDTH + FEE_EXPONENT_BIT_WIDTH) ++
    beFixedWidth w.args.ethAddress ETH_ADDRESS_BIT_WIDTH))))))
    (ForcedExitOp.CHUNKS * CHUNK_BIT_WIDTH)

def calculateOperations (w : ForcedExitWitness) : Outcome (List Operation) := do
  let pubdata ← getPubdata w
  operationsFor w.txType w.args pubdata w.branches
    ([0, 1] ++ List.range' 2 (ForcedExitOp.CHUNKS - 2))

end ForcedExitWitness

end Witnesses

end ZkSync.Circuit
