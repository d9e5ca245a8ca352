import ZkSync.Contract.Storage

/-!
# The priority queue

Requests a user makes on the contract: a deposit or a full exit is written as
public data, stored under the next serial id and emitted in an event. A block that
is committed has to carry the requests in this order, and
`commitNextPriorityOperation` compares what it carries with what is stored, up to
the part the contract did not know at the request.

The serial ids and the counters are unchecked `uint64`s.
-/

namespace ZkSync.Contract

open Bytes (ofBytesBE toBytesBE slice)

/-! ## Requests -/

structure NewPriorityRequest where
  sender : Address
  serialId : UInt64
  opType : OpType
  pubData : Bytes
  expirationBlock : Nat
  deriving DecidableEq

def addPriorityRequest (msg : Msg) (s : Storage) (opType : OpType) (pubData : Bytes) :
    Storage × NewPriorityRequest :=
  let expirationBlock := msg.blockNumber + PRIORITY_EXPIRATION
  let nextPriorityRequestId := s.firstPriorityRequestId + s.totalOpenPriorityRequests
  ({ s with
      priorityRequests := Function.update s.priorityRequests nextPriorityRequestId
        { opType, pubData, expirationBlock }
      totalOpenPriorityRequests := s.totalOpenPriorityRequests + 1 },
    { sender := msg.sender, serialId := nextPriorityRequestId, opType, pubData, expirationBlock })

/-- The account id is not known at this point. -/
def registerDeposit (msg : Msg) (s : Storage) (tokenId : UInt16) (amount : BitVec 128)
    (owner : Address) : Storage × NewPriorityRequest :=
  let op : Deposit := { accountId := 0, owner, tokenId, amount }
  addPriorityRequest msg s .Deposit (writeDepositPubdata op)

/-- `SafeCast.toUint128`. -/
def toUint128 (value : Nat) : Sol (BitVec 128) := do
  require (value < u128Bound) "SafeCast: value doesn't fit in 128 bits"
  return BitVec.ofNat 128 value

/-- `SafeMath.sub` of `uint256`s. -/
def safeSub (a b : Nat) : Sol Nat := do
  require (b ≤ a) "SafeMath: subtraction overflow"
  return a - b

def depositETH (msg : Msg) (s : Storage) (franklinAddr : Address) :
    Sol (Storage × NewPriorityRequest) := do
  requireActive s
  let amount ← toUint128 msg.value
  return registerDeposit msg s 0 amount franklinAddr

/-- What the token contract answers to `depositERC20`: whether the transfer
succeeded, and the balance of the rollup before and after it. -/
structure TransferFrom where
  succeeded : Bool
  balanceBefore : Nat
  balanceAfter : Nat

/-- What arrives is the difference of the balances, whatever amount was asked for. -/
def depositERC20 (governance : Governance) (msg : Msg) (s : Storage) (token : Address)
    (transfer : TransferFrom) (franklinAddr : Address) : Sol (Storage × NewPriorityRequest) := do
  requireActive s
  let tokenId ← governance.validateTokenAddress token
  require transfer.succeeded "fd012"
  let difference ← safeSub transfer.balanceAfter transfer.balanceBefore
  let depositAmount ← toUint128 difference
  return registerDeposit msg s tokenId depositAmount franklinAddr

/-- The token of a full exit; the zero address stands for ether. -/
def fullExitTokenId (governance : Governance) (token : Address) : Sol UInt16 :=
  if token = 0 then .ok 0 else governance.validateTokenAddress token

/-- The exit amount is not known at this point. The slot of the balance is filled,
so that the operator overwrites it at the verification. -/
def fullExit (governance : Governance) (msg : Msg) (s : Storage) (accountId : UInt32)
    (token : Address) : Sol (Storage × NewPriorityRequest) := do
  requireActive s
  require (accountId ≤ MAX_ACCOUNT_ID) "fee11"
  let tokenId ← fullExitTokenId governance token
  let op : FullExit := { accountId, owner := msg.sender, tokenId, amount := 0 }
  let (s, event) := addPriorityRequest msg s .FullExit (writeFullExitPubdata op)
  let packedBalanceKey := packAddressAndTokenId msg.sender tokenId
  let balance := { s.balancesToWithdraw packedBalanceKey with gasReserveValue := 0xff }
  return ({ s with
    balancesToWithdraw := Function.update s.balancesToWithdraw packedBalanceKey balance }, event)

/-! ### The calls that make a request -/

inductive Register where
  | depositETH (franklinAddr : Address)
  | depositERC20 (token : Address) (transfer : TransferFrom) (franklinAddr : Address)
  | fullExit (accountId : UInt32) (token : Address)

def register (governance : Governance) (msg : Msg) (s : Storage) :
    Register → Sol (Storage × NewPriorityRequest)
  | .depositETH franklinAddr => depositETH msg s franklinAddr
  | .depositERC20 token transfer franklinAddr =>
    depositERC20 governance msg s token transfer franklinAddr
  | .fullExit accountId token => fullExit governance msg s accountId token

/-- What a call asks the server for. -/
def Register.request (governance : Governance) (msg : Msg) : Register → ZkSyncPriorityOp
  | .depositETH franklinAddr => .Deposit
    { fromAddress := msg.sender, token := 0, amount := msg.value, toAddress := franklinAddr }
  | .depositERC20 token transfer franklinAddr => .Deposit
    { fromAddress := msg.sender, token := governance.tokenIds token
      amount := transfer.balanceAfter - transfer.balanceBefore, toAddress := franklinAddr }
  | .fullExit accountId token => .FullExit
    { accountId, ethAddress := msg.sender
      token := if token = 0 then 0 else governance.tokenIds token }

/-- The public data stored for a request, and its operation type. -/
def requestPubdata : ZkSyncPriorityOp → OpType × Bytes
  | .Deposit op => (.Deposit, toBytesBE 4 0 ++ (u16Bytes op.token ++ (toBytesBE 16 op.amount ++
      addressBytes op.toAddress)))
  | .FullExit op => (.FullExit, u32Bytes op.accountId ++ (addressBytes op.ethAddress ++
      (u16Bytes op.token ++ toBytesBE 16 0)))

/-- What a successful call does: `request` is stored under the next id. Besides,
it may mark balance slots, without changing a balance. -/
structure Registered (msg : Msg) (request : ZkSyncPriorityOp) (s s' : Storage)
    (event : NewPriorityRequest) : Prop where
  active : s.exodusMode = false
  serialId : event.serialId = s.firstPriorityRequestId + s.totalOpenPriorityRequests
  sender : event.sender = msg.sender
  written : (event.opType, event.pubData) = requestPubdata request
  amount : ∀ op, request = .Deposit op → op.amount < u128Bound
  storage : ∃ balances, s' = { s with
    priorityRequests := Function.update s.priorityRequests event.serialId
      ⟨event.opType, event.pubData, event.expirationBlock⟩
    totalOpenPriorityRequests := s.totalOpenPriorityRequests + 1
    balancesToWithdraw := balances } ∧
      ∀ key, (balances key).balanceToWithdraw = (s.balancesToWithdraw key).balanceToWithdraw

section Spec

variable {governance : Governance} {msg : Msg} {s s' : Storage} {event : NewPriorityRequest}

theorem requireActive_eq_ok {u : Unit} : requireActive s = .ok u ↔ s.exodusMode = false := by
  rw [requireActive, require_eq_ok, Bool.not_eq_true]

theorem toUint128_eq_ok {value : Nat} {amount : BitVec 128} :
    toUint128 value = .ok amount ↔ value < u128Bound ∧ amount = BitVec.ofNat 128 value := by
  unfold toUint128
  exact Outcome.guarded_eq_ok require_eq_ok

/-- A deposit whose amount fits its type is stored as such. -/
theorem registerDeposit_spec {tokenId : UInt16} {amount : Nat} {owner : Address}
    (hactive : s.exodusMode = false) (hamount : amount < u128Bound)
    (h : registerDeposit msg s tokenId (BitVec.ofNat 128 amount) owner = (s', event)) :
    Registered msg (.Deposit ⟨msg.sender, tokenId, amount, owner⟩) s s' event := by
  obtain ⟨rfl, rfl⟩ := Prod.mk.inj h
  refine ⟨hactive, rfl, rfl, ?_, ?_, s.balancesToWithdraw, rfl, fun _ => rfl⟩
  · show (OpType.Deposit, writeDepositPubdata _) = _
    rw [writeDepositPubdata, toNat_ofNat_of_lt hamount]
    rfl
  · rintro op ⟨⟩
    exact hamount

theorem depositETH_spec {franklinAddr : Address}
    (h : depositETH msg s franklinAddr = .ok (s', event)) :
    Registered msg ((Register.depositETH franklinAddr).request governance msg) s s' event := by
  unfold depositETH at h
  obtain ⟨_, hactive, h⟩ := Outcome.bind_eq_ok.mp h
  obtain ⟨amount, hamount, h⟩ := Outcome.bind_eq_ok.mp h
  obtain ⟨hlt, rfl⟩ := toUint128_eq_ok.mp hamount
  exact registerDeposit_spec (requireActive_eq_ok.mp hactive) hlt (Except.ok.inj h)

theorem depositERC20_spec {token : Address} {transfer : TransferFrom} {franklinAddr : Address}
    (h : depositERC20 governance msg s token transfer franklinAddr = .ok (s', event)) :
    Registered msg ((Register.depositERC20 token transfer franklinAddr).request governance msg)
      s s' event := by
  unfold depositERC20 at h
  obtain ⟨_, hactive, h⟩ := Outcome.bind_eq_ok.mp h
  obtain ⟨tokenId, htoken, h⟩ := Outcome.bind_eq_ok.mp h
  obtain ⟨_, -, h⟩ := Outcome.bind_eq_ok.mp h
  obtain ⟨difference, hdiff, h⟩ := Outcome.bind_eq_ok.mp h
  obtain ⟨amount, hamount, h⟩ := Outcome.bind_eq_ok.mp h
  obtain ⟨hlt, rfl⟩ := toUint128_eq_ok.mp hamount
  obtain ⟨_, -, htoken⟩ := Outcome.bind_eq_ok.mp htoken
  obtain ⟨_, -, hdiff⟩ := Outcome.bind_eq_ok.mp hdiff
  obtain rfl : governance.tokenIds token = tokenId := Except.ok.inj htoken
  obtain rfl : transfer.balanceAfter - transfer.balanceBefore = difference := Except.ok.inj hdiff
  exact registerDeposit_spec (requireActive_eq_ok.mp hactive) hlt (Except.ok.inj h)

theorem fullExit_spec {accountId : UInt32} {token : Address}
    (h : fullExit governance msg s accountId token = .ok (s', event)) :
    Registered msg ((Register.fullExit accountId token).request governance msg) s s' event := by
  unfold fullExit at h
  obtain ⟨_, hactive, h⟩ := Outcome.bind_eq_ok.mp h
  obtain ⟨_, -, h⟩ := Outcome.bind_eq_ok.mp h
  obtain ⟨tokenId, htoken, h⟩ := Outcome.bind_eq_ok.mp h
  have htoken : (if token = 0 then 0 else governance.tokenIds token) = tokenId := by
    unfold fullExitTokenId at htoken
    split at htoken
    next h0 => rw [if_pos h0]; exact Except.ok.inj htoken
    next h0 =>
      obtain ⟨_, -, htoken⟩ := Outcome.bind_eq_ok.mp htoken
      rw [if_neg h0]
      exact Except.ok.inj htoken
  obtain ⟨rfl, rfl⟩ := Prod.mk.inj (Except.ok.inj h)
  refine ⟨requireActive_eq_ok.mp hactive, rfl, rfl, ?_, ?_, _, rfl, ?_⟩
  · rw [Register.request, htoken]
    rfl
  · rintro op ⟨⟩
  · intro key
    -- Only the reserve of the slot is written.
    by_cases hkey : key = packAddressAndTokenId msg.sender tokenId
    · rw [hkey, Function.update_self]
    · rw [Function.update_of_ne hkey]

theorem register_spec {call : Register} (h : register governance msg s call = .ok (s', event)) :
    Registered msg (call.request governance msg) s s' event := by
  cases call with
  | depositETH franklinAddr => exact depositETH_spec h
  | depositERC20 token transfer franklinAddr => exact depositERC20_spec h
  | fullExit accountId token => exact fullExit_spec h

end Spec

/-! ## Comparison with a block -/

section Commit

variable (ext : Externals)

def commitNextPriorityOperation (s : Storage) (onchainOp : OnchainOperation)
    (priorityRequestId : UInt64) : Sol Unit := do
  let priorReqType := (s.priorityRequests priorityRequestId).opType
  let priorReqPubdata := (s.priorityRequests priorityRequestId).pubData
  require (priorReqType = onchainOp.opType) "nvp12"
  match onchainOp.opType with
  | .Deposit => do
    let same ← depositPubdataMatch ext.keccak256 priorReqPubdata onchainOp.pubData
    require same "vnp13"
  | .FullExit => do
    let same ← fullExitPubdataMatch priorReqPubdata onchainOp.pubData
    require same "vnp14"
  | _ => throw "vnp15"

end Commit

end ZkSync.Contract
