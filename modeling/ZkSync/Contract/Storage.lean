import Mathlib.Data.UInt
import Mathlib.Logic.Function.Basic
import ZkSync.Contract.Operations

/-!
# The contract's storage

`Storage.sol` and `Config.sol`: what the contract keeps between calls, and what a
call finds around it. A mapping is a function, updated with `Function.update`; a
deleted entry is the default value of its type. The flags of the upgrade mechanism
are left out: none of the modelled calls reads them.

A `bytes32` is a `BitVec 256`, a `uint128` a `BitVec 128`. Block numbers of the
chain and amounts of wei are natural numbers.
-/

namespace ZkSync.Contract

open Bytes (toBytesBE)

/-- A word of the contract's machine. -/
abbrev Bytes32 := BitVec 256

/-! ## `Config.sol` -/

/-- The chunks of the contract, `Config.CHUNK_BYTES`. -/
def chunkBytes : Nat := 9

def NOOP_BYTES : Nat := 1 * chunkBytes
def DEPOSIT_BYTES : Nat := 6 * chunkBytes
def TRANSFER_TO_NEW_BYTES : Nat := 6 * chunkBytes
def PARTIAL_EXIT_BYTES : Nat := 6 * chunkBytes
def TRANSFER_BYTES : Nat := 2 * chunkBytes
def FORCED_EXIT_BYTES : Nat := 6 * chunkBytes
def FULL_EXIT_BYTES : Nat := 6 * chunkBytes
def CHANGE_PUBKEY_BYTES : Nat := 6 * chunkBytes
/-- The flag, the owner, the token and the amount. -/
def ONCHAIN_WITHDRAWAL_BYTES : Nat := 1 + 20 + 2 + 16

def PUBKEY_HASH_BYTES : Nat := 20
def MAX_ACCOUNT_ID : UInt32 := 2 ^ 24 - 1

/-- In Ethereum blocks, of 15 seconds. -/
def EXPECT_VERIFICATION_IN : Nat := 0 / 15
/-- Three days, in blocks of fifteen seconds. -/
def PRIORITY_EXPIRATION : Nat := 3 * 24 * 3600 / 15

/-- How many requests a verified block may delete. -/
def MAX_PRIORITY_REQUESTS_TO_DELETE_IN_VERIFY : UInt64 := 6

/-! ## What is stored -/

/-- A request, with its data and the block at which it expires. -/
structure PriorityOperation where
  opType : OpType := .Noop
  pubData : Bytes := []
  expirationBlock : Nat := 0
  deriving DecidableEq

/-- What the contract compares with a request. -/
structure OnchainOperation where
  opType : OpType
  pubData : Bytes

/-- A committed block. -/
structure StoredBlock where
  committedAtBlock : UInt32 := 0
  priorityOperations : UInt64 := 0
  chunks : UInt32 := 0
  withdrawalsDataHash : Bytes32 := 0
  commitment : Bytes32 := 0
  stateRoot : Bytes32 := 0
  deriving DecidableEq

/-- The balance, next to the reserve value that keeps its slot occupied. -/
structure BalanceToWithdraw where
  balanceToWithdraw : BitVec 128 := 0
  /-- Makes the slot nonzero ahead of the first credit. -/
  gasReserveValue : UInt8 := 0
  deriving DecidableEq

/-- A record of the queue, without its amount. -/
structure PendingWithdrawal where
  toAddress : Address := 0
  tokenId : UInt16 := 0
  deriving DecidableEq

/-- The storage of the contract. -/
structure Storage where
  balancesToWithdraw : BitVec 176 → BalanceToWithdraw
  pendingWithdrawals : UInt32 → PendingWithdrawal
  firstPendingWithdrawalIndex : UInt32
  numberOfPendingWithdrawals : UInt32
  totalBlocksVerified : UInt32
  totalBlocksCommitted : UInt32
  blocks : UInt32 → StoredBlock
  exited : UInt32 → UInt16 → Bool
  exodusMode : Bool
  /-- The hash of the public key hash an owner authenticated for a nonce, or zero. -/
  authFacts : Address → UInt32 → Bytes32
  priorityRequests : UInt64 → PriorityOperation
  firstPriorityRequestId : UInt64
  totalOpenPriorityRequests : UInt64
  totalCommittedPriorityRequests : UInt64

/-- The storage `initialize` leaves, with the root of the genesis block. -/
def Storage.initialized (genesisRoot : Bytes32) : Storage where
  balancesToWithdraw := fun _ => {}
  pendingWithdrawals := fun _ => {}
  firstPendingWithdrawalIndex := 0
  numberOfPendingWithdrawals := 0
  totalBlocksVerified := 0
  totalBlocksCommitted := 0
  blocks := Function.update (fun _ => {}) 0 { stateRoot := genesisRoot }
  exited := fun _ _ => false
  exodusMode := false
  authFacts := fun _ _ => 0
  priorityRequests := fun _ => {}
  firstPriorityRequestId := 0
  totalOpenPriorityRequests := 0
  totalCommittedPriorityRequests := 0

/-! ## What a call finds -/

/-- The governance contract at the time of a call. -/
structure Governance where
  validators : Address → Bool
  tokenIds : Address → UInt16
  tokenAddresses : UInt16 → Address

/-- Only validators commit and verify. -/
def Governance.requireActiveValidator (governance : Governance) (address : Address) : Sol Unit :=
  require (governance.validators address) "grr21"

/-- Only tokens that were added may be deposited. -/
def Governance.validateTokenAddress (governance : Governance) (tokenAddr : Address) :
    Sol UInt16 := do
  let tokenId := governance.tokenIds tokenAddr
  require (tokenId ≠ 0) "gvs11"
  return tokenId

/-- The functions the contract calls and this development does not look into: the
precompiles, and the check of a proof with a verification key. -/
structure Externals where
  keccak256 : Bytes → Bytes32
  sha256 : Bytes → Bytes32
  /-- Hash, `v`, `r`, `s`; zero for an invalid signature. -/
  ecrecover : Bytes32 → UInt8 → Bytes32 → Bytes32 → Address
  /-- The numbers of chunks the verifier was generated with keys for. -/
  blockSizes : List UInt32
  blockSizes_pos : 0 ∉ blockSizes
  /-- Proof, public input, number of chunks. -/
  verifyWithBlockKey : List Nat → Bytes32 → UInt32 → Bool
  /-- Proof, public input. -/
  verifyWithExitKey : List Nat → Bytes32 → Bool

/-- Some functions, for runs on concrete inputs: the hash of a number is the number, and
nobody's signature is valid. -/
def Externals.sample : Externals where
  keccak256 bytes := BitVec.ofNat 256 (Bytes.ofBytesBE bytes)
  sha256 bytes := BitVec.ofNat 256 (Bytes.ofBytesBE bytes)
  ecrecover _ _ _ _ := 0
  blockSizes := [6, 30]
  blockSizes_pos := by decide
  verifyWithBlockKey _ _ _ := true
  verifyWithExitKey _ _ := true

section Verifier

variable (ext : Externals)

/-- A block size is supported if the verifier has a key for it. -/
def isBlockSizeSupported (size : UInt32) : Bool := ext.blockSizes.contains size

/-- Public inputs are field elements: the three top bits of a hash are dropped. -/
def inputMask : Bytes32 := (~~~(0 : Bytes32)) >>> 3

/-- For another number of chunks the key is empty, and has no inputs. -/
def verifyBlockProof (proof : List Nat) (commitment : Bytes32) (chunks : UInt32) : Sol Bool := do
  require (isBlockSizeSupported ext chunks) "vk.num_inputs"
  return ext.verifyWithBlockKey proof (commitment &&& inputMask) chunks

/-- The verifier of the exodus, which is a contract of its own. -/
def verifyExitProof (rootHash : Bytes32) (accountId : UInt32) (owner : Address) (tokenId : UInt16)
    (amount : BitVec 128) (proof : List Nat) : Bool :=
  let commitment := ext.sha256 (toBytesBE 32 rootHash.toNat ++ (u32Bytes accountId ++
    (addressBytes owner ++ (u16Bytes tokenId ++ toBytesBE 16 amount.toNat))))
  ext.verifyWithExitKey proof (commitment &&& inputMask)

end Verifier

/-- The message a call is made with, and the block it is included in. -/
structure Msg where
  sender : Address
  value : Nat
  blockNumber : Nat

/-- Some surroundings of a call, for runs on concrete inputs: everyone is a validator. -/
def Governance.sample : Governance where
  validators _ := true
  tokenIds _ := 0
  tokenAddresses _ := 0

def Msg.sample : Msg where
  sender := 7
  value := 0
  blockNumber := 0

/-- The functions of the rollup end with the exodus. -/
def requireActive (s : Storage) : Sol Unit := require (¬ s.exodusMode) "fre11"

/-! ## Balance keys -/

/-- The key of a balance. -/
def packAddressAndTokenId (address : Address) (tokenId : UInt16) : BitVec 176 :=
  address.setWidth 176 ||| tokenId.toBitVec.setWidth 176 <<< 160

/-- Two owners, or two tokens, have two keys. -/
theorem packAddressAndTokenId_inj {address address' : Address} {tokenId tokenId' : UInt16} :
    packAddressAndTokenId address tokenId = packAddressAndTokenId address' tokenId' ↔
      address = address' ∧ tokenId = tokenId' := by
  constructor
  · intro h
    have hbit : ∀ i, (packAddressAndTokenId address tokenId).getLsbD i =
        (packAddressAndTokenId address' tokenId').getLsbD i := fun i => by rw [h]
    simp only [packAddressAndTokenId, BitVec.getLsbD_or, BitVec.getLsbD_setWidth,
      BitVec.getLsbD_shiftLeft] at hbit
    constructor
    · apply BitVec.eq_of_getLsbD_eq
      intro i hi
      simpa [hi, show i < 176 by omega] using hbit i
    · apply UInt16.toBitVec_inj.mp
      apply BitVec.eq_of_getLsbD_eq
      intro i hi
      have hhigh := hbit (i + 160)
      simpa [hi, show i + 160 < 176 by omega, show i < 176 by omega] using hhigh
  · rintro ⟨rfl, rfl⟩
    rfl

end ZkSync.Contract
