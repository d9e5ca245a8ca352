import ZkSync.Contract.Agreement
import ZkSync.Contract.Holdings
import ZkSync.Core.BlockFunds
import ZkSync.Witness.PublicInput

/-!
# The contract can pay what it owes

The contract and the server together. A `Rollup` is the contract's storage and the state
keeper, with what has happened so far: the requests the contract announced, the blocks the
keeper sealed and the states it sealed them with, and what the contract has received and
paid. Calls of the contract and of the keeper follow each other in any order
(`RollupStep`). Anyone may call the contract; of the three calls whose data come from the
server it is asked (`Rollup.Honest`) that a block is committed and verified with the data
of the sealed block of that number, and that an exit is of a balance in the state of the
last verified block, which is what its proof shows. The keeper is called with the requests
in the order of their ids (`Rollup.Asked`).

Then what the contract has paid and what it owes to owners never exceeds what it has
received (`rollup_solvent`): everything it has received is paid, owed, in an open request or on an
account of the last verified block, and nowhere twice.
-/

namespace ZkSync.Contract

/-! ## What a walk has matched -/

section Walk

variable {ext : Externals} {s : Storage} {block : CommitData}

/-- The contract moves on by as many bytes as the server wrote. -/
theorem bytes_opTypeOf {op : ZkSyncOp} (hclose : ∀ c, op ≠ .Close c) :
    (opTypeOf op).bytes = op.chunks * CHUNK_BYTES := by
  cases op with
  | Close c => exact absurd rfl (hclose c)
  | _ => rfl

theorem matchedIds_cons (e : OpType × Walk) (tr : List (OpType × Walk)) :
    (matchedIds (e :: tr)).length =
      (if e.1 = .Deposit ∨ e.1 = .FullExit then 1 else 0) + (matchedIds tr).length := by
  unfold matchedIds
  by_cases h : e.1 = .Deposit ∨ e.1 = .FullExit
  · simp [h, Nat.add_comm]
  · simp [h]

theorem requestsOf_cons (op : ZkSyncOp) (ops : List ZkSyncOp) :
    (requestsOf (op :: ops)).length =
      (if opTypeOf op = .Deposit ∨ opTypeOf op = .FullExit then 1 else 0) +
        (requestsOf ops).length := by
  cases op with
  | Deposit _ | FullExit _ => exact Nat.add_comm (requestsOf ops).length 1
  | _ => exact (Nat.zero_add _).symm

/-- The rounds of a walk stand at the operations that were written, and match a request
for each that executes one. -/
theorem length_matchedIds {ops : List ZkSyncOp} {front data : Bytes} {tr : List (OpType × Walk)}
    {w w' : Walk} (hpublic : block.publicData = front ++ data) (hdata : publicDataOf ops = .ok data)
    (hrun : Run (VisitStep ext s block) w tr w') (hstart : w.offset = front.length)
    (hend : w'.offset = block.publicData.length) :
    (matchedIds tr).length = (requestsOf ops).length := by
  induction ops generalizing front data tr w with
  | nil =>
    cases hdata
    rw [List.append_nil] at hpublic
    cases hrun with
    | nil => rfl
    | cons hstep _ =>
      have hlt := hstep.1
      rw [hpublic, hstart] at hlt
      exact absurd hlt (Nat.lt_irrefl _)
  | cons op ops ih =>
    obtain ⟨first, hfirst, hdata⟩ := Outcome.bind_eq_ok.mp hdata
    obtain ⟨rest, hrest, hdata⟩ := Outcome.bind_eq_ok.mp hdata
    cases hdata
    have hlength := ZkSyncOp.length_publicData hfirst
    have hpos : 0 < op.chunks * CHUNK_BYTES := Nat.mul_pos (ZkSyncOp.chunks_pos op) (by decide)
    cases hrun with
    | nil =>
      rw [hstart, hpublic, List.length_append, List.length_append] at hend
      omega
    | @cons _ w₁ _ e _ hstep hrun =>
      obtain ⟨-, -, hopType, hvisit⟩ := hstep
      have hat : Bytes.At block.publicData w.offset first :=
        ⟨front, rest, by rw [hpublic], hstart.symm⟩
      rw [opTypeAt_publicData hfirst hat] at hopType
      have htype : opTypeOf op = e.1 := Option.some.inj hopType
      rw [← htype] at hvisit
      have hclose : ∀ c, op ≠ .Close c := by
        rintro c rfl
        cases hvisit
      have hnext : w₁.offset = (front ++ first).length := by
        rw [(visitOp_offset hvisit).1, bytes_opTypeOf hclose, hstart, List.length_append, hlength]
      rw [← List.append_assoc] at hpublic
      rw [matchedIds_cons, requestsOf_cons, ← htype, ih hpublic hrest hrun hnext]

/-- A walk over the data of a sealed block has matched the requests it executes. -/
theorem Collected.length_matchedIds {sealed : ZkSync.Block} {publicData : Bytes}
    {tr : List (OpType × Walk)} {w : Walk} (hfits : sealed.chunksUsed ≤ sealed.blockChunksSize)
    (hpublic : sealed.getEthPublicData = .ok publicData)
    (h : Collected ext s (commitDataOfBlock publicData sealed) tr w) :
    (matchedIds tr).length = (requestsOf sealed.executedOps).length := by
  obtain ⟨hdata, -⟩ := Block.getEthPublicData_eq hfits hpublic
  have hfront : (commitDataOfBlock publicData sealed).publicData = [] ++ publicData := rfl
  have hlength := Contract.length_matchedIds hfront hdata h.run rfl h.offset
  rw [hlength, requestsOf_append, List.length_append]
  have hnoops : requestsOf
      (List.replicate (sealed.blockChunksSize - sealed.chunksUsed) ZkSyncOp.Noop) = [] := by
    refine List.filterMap_eq_nil_iff.mpr fun op hop => ?_
    rw [List.eq_of_mem_replicate hop]
    rfl
  rw [hnoops, List.length_nil, Nat.add_zero]

end Walk

/-! ## Requests -/

/-- What the server reads out of the event. -/
def NewPriorityRequest.parsed (event : NewPriorityRequest) : Option ZkSyncPriorityOp :=
  (ZkSyncPriorityOp.parseFromPriorityQueueLogs event.pubData event.opType.code
    event.sender).toOption

/-- What a request has brought to the contract. -/
def NewPriorityRequest.deposited (token : TokenId) (event : NewPriorityRequest) : Nat :=
  (event.parsed.map (·.deposited token)).getD 0

/-- What arrives in the contract with the call. -/
def Call.received (governance : Governance) (msg : Msg) (token : UInt16) : Call → Nat
  | .register (.depositETH _) => if 0 = token then msg.value else 0
  | .register (.depositERC20 tokenAddr transfer _) =>
    if governance.tokenIds tokenAddr = token then transfer.balanceAfter - transfer.balanceBefore
    else 0
  | _ => 0

/-- The event announces what is stored for its request. -/
def NewPriorityRequest.Genuine (event : NewPriorityRequest) : Prop :=
  ∃ request, event.parsed = some request ∧ (event.opType, event.pubData) = requestPubdata request ∧
    ∀ op, request = .Deposit op → op.amount < u128Bound

section Requests

variable {governance : Governance} {msg : Msg} {s s' : Storage} {event : NewPriorityRequest}

/-- The server reads in the event what the contract was asked. -/
theorem parsed_register {call : Register} (h : register governance msg s call = .ok (s', event)) :
    event.parsed = some (call.request governance msg) := by
  unfold NewPriorityRequest.parsed
  rw [(register_spec h).parse fun op => Register.request_fromAddress]
  rfl

/-- An event of the contract can be read, and says whose request it is. -/
theorem genuine_register {call : Register} (h : register governance msg s call = .ok (s', event)) :
    event.Genuine :=
  ⟨_, parsed_register h, (register_spec h).written, (register_spec h).amount⟩

/-- A deposit is of what has arrived. -/
theorem deposited_register {call : Register} (h : register governance msg s call = .ok (s', event))
    (token : UInt16) :
    event.deposited token = (Call.register call).received governance msg token := by
  unfold NewPriorityRequest.deposited
  rw [parsed_register h]
  cases call <;> rfl

/-- In the exodus a deposit that was not executed is given back. -/
theorem refundOf_deposit {pubData : Bytes} {op : Deposit} {expirationBlock : Nat}
    (h : readDepositPubdata pubData = .ok op) :
    refundOf ⟨.Deposit, pubData, expirationBlock⟩ = some ⟨op.owner, op.tokenId, op.amount⟩ := by
  unfold refundOf
  rw [if_pos rfl, h]
  rfl

/-- A request that is cancelled gives back what it deposited. -/
theorem amountOf_refundOf (h : event.Genuine) (expirationBlock : Nat) (token : UInt16) :
    amountOf token (refundOf ⟨event.opType, event.pubData, expirationBlock⟩).toList =
      event.deposited token := by
  obtain ⟨request, hparsed, hwritten, hamount⟩ := h
  unfold NewPriorityRequest.deposited
  rw [hparsed]
  cases request with
  | Deposit op =>
    have hopType : event.opType = .Deposit := congrArg Prod.fst hwritten
    have hpubData : event.pubData = (requestPubdata (.Deposit op)).2 := congrArg Prod.snd hwritten
    have hlt := hamount op rfl
    have hread : readDepositPubdata (requestPubdata (.Deposit op)).2 =
        .ok ⟨0, op.token, BitVec.ofNat 128 op.amount, op.toAddress⟩ :=
      readDepositPubdata_eq hlt ⟨[], [], (List.append_nil _).symm, rfl⟩
    rw [hopType, hpubData, refundOf_deposit hread, Option.toList_some, amountOf_singleton,
      toNat_ofNat_of_lt hlt]
    rfl
  | FullExit op =>
    have hopType : event.opType = .FullExit := congrArg Prod.fst hwritten
    rw [hopType]
    rfl

end Requests

/-! ## Withdrawals -/

/-- What stands in the data of a block is what its operations withdraw. -/
theorem withdrawalsIn_withdrawalsDataOf {ops : List ZkSyncOp} {data : Bytes}
    (h : Block.withdrawalsDataOf ops = .ok data) : withdrawalsIn data = withdrawalsOf ops := by
  have hrecords := records_withdrawalsDataOf h [] (i := 0) rfl
  have hlength := length_withdrawalsDataOf h
  unfold withdrawalsIn
  rw [hlength, Nat.mul_div_cancel _ (by decide), List.range_eq_range']
  exact hrecords

/-- The amounts that were written fit their type. -/
theorem amountOf_withdrawalsOf {ops : List ZkSyncOp} {data : Bytes}
    (h : Block.withdrawalsDataOf ops = .ok data) (token : UInt16) :
    amountOf token ((withdrawalsOf ops).map Withdrawal.credit) = withdrawnBy token ops := by
  induction ops generalizing data with
  | nil => rfl
  | cons op ops ih =>
    obtain ⟨record, hrecord, h⟩ := Outcome.bind_eq_ok.mp h
    obtain ⟨rest, hrest, h⟩ := Outcome.bind_eq_ok.mp h
    have hrest := ih hrest
    have hcons : withdrawnBy token (op :: ops) = op.withdrawn token + withdrawnBy token ops := rfl
    rw [hcons, ← hrest]
    cases op with
    | Withdraw op | FullExit op | ForcedExit op =>
      obtain ⟨amount, hamount, -⟩ := Outcome.bind_eq_ok.mp hrecord
      obtain ⟨hlt, -⟩ := u128Bytes_eq_ok hamount
      show (if _ then (BitVec.ofNat 128 _).toNat else 0) + _ = _
      rw [toNat_ofNat_of_lt hlt]
      rfl
    | _ => exact (Nat.zero_add _).symm

/-! ## The system -/

/-- The whole: the contract, its books, the keeper, and the blocks between them. -/
structure Rollup where
  storage : Storage
  history : QueueHistory
  keeper : ZkSyncStateKeeper
  /-- The blocks the keeper has sealed. -/
  blocks : List ZkSync.Block
  /-- The state at first, and after each of the blocks. -/
  states : List ZkSyncState
  received : UInt16 → Nat
  paid : List Payment
  /-- Every token transfer for a pending withdrawal has moved the whole credit. -/
  whole : Prop

/-- Either side moves at a time. -/
inductive RollupEvent where
  | call (e : Event)
  | keeper (e : KeeperCall × KeeperReply)

/-- The block that a reply of the keeper carries. -/
def sealedBlocks : KeeperReply → List ZkSync.Block
  | .sealed request _ => [request.block]
  | _ => []

namespace Rollup

/-- Nothing was deposited, and the keeper starts with the accounts of the genesis block. -/
def start (genesisRoot : Bytes32) (keeper : ZkSyncStateKeeper) : Rollup where
  storage := .initialized genesisRoot
  history := {}
  keeper
  blocks := []
  states := [keeper.state]
  received _ := 0
  paid := []
  whole := True

/-- The contract moves on, and the books say what came in and what was paid. -/
def afterCall (b : Rollup) (e : Event) (s' : Storage) (history' : QueueHistory) : Rollup :=
  { b with
    storage := s'
    history := history'
    received := fun token => b.received token + e.call.received e.governance e.msg token
    paid := b.paid ++ e.receipt.payments
    whole := b.whole ∧ WholeTransfers b.storage e.call }

/-- The keeper moves on, and a sealed block waits for the contract. -/
def afterReply (b : Rollup) (reply : KeeperReply) (k' : ZkSyncStateKeeper) : Rollup :=
  { b with
    keeper := k'
    blocks := b.blocks ++ sealedBlocks reply
    states := b.states ++ (sealedBlocks reply).map fun _ => k'.state }

/-- The state of the last verified block. -/
def verifiedState (b : Rollup) : Option ZkSyncState :=
  b.states[b.storage.totalBlocksVerified.toNat]?

/-- A block is committed and verified with the data of the sealed block of its number, and
an exit is of a balance in the state of the last verified block. -/
def Honest (b : Rollup) (e : Event) : Prop :=
  match e.call with
  | .commitBlock blockNumber _ _ data => ∃ block publicData,
      b.blocks[blockNumber.toNat - 1]? = some block ∧ block.getEthPublicData = .ok publicData ∧
        data = commitDataOfBlock publicData block
  | .verifyBlock blockNumber _ withdrawalsData => ∃ block,
      b.blocks[blockNumber.toNat - 1]? = some block ∧
        block.getWithdrawalsData = .ok withdrawalsData
  | .exit accountId tokenId amount _ => ∃ s a, b.verifiedState = some s ∧
      s.getAccount accountId = some a ∧ a.address = e.msg.sender ∧
        amount.toNat = a.getBalance tokenId
  | _ => True

/-- A priority operation is the request whose id is next. -/
def Asked (b : Rollup) (call : KeeperCall) : Prop :=
  match call with
  | .priorityOp op => ∃ event,
      b.history.requests[b.keeper.currentUnprocessedPriorityOp.toNat]? = some event ∧
        event.parsed = some op.data
  | _ => True

end Rollup

/-- A call of the contract that the books follow, or a step of the keeper. -/
inductive RollupStep (ext : Externals) (env : Env) (b : Rollup) : RollupEvent → Rollup → Prop
  | call {e : Event} {s' : Storage} {history' : QueueHistory} (honest : b.Honest e)
      (bounds : WithinBounds b.storage e.call) (call : CallStep ext b.storage e s')
      (recorded : b.history.Next ext b.storage e s' history') :
      RollupStep ext env b (.call e) (b.afterCall e s' history')
  | keeper {e : KeeperCall × KeeperReply} {k' : ZkSyncStateKeeper} (asked : b.Asked e.1)
      (step : KeeperStep env b.keeper e k') :
      RollupStep ext env b (.keeper e) (b.afterReply e.2 k')

/-! ## The books -/

/-- The accounts that have not taken their balance out of the contract. -/
def lockedAccounts (exited : UInt32 → UInt16 → Bool) (state : Option ZkSyncState) (token : UInt16) :
    Ledger :=
  fun id => if exited id token then none else state.bind (·.getAccount id)

namespace Rollup

/-- What the accounts own after the last verified block, but for what was taken out in the exodus. -/
def locked (b : Rollup) (token : UInt16) : Int :=
  Ledger.total (lockedAccounts b.storage.exited b.verifiedState token) token

/-- The deposits of the requests that are open. -/
def openDeposits (b : Rollup) (token : UInt16) : Nat :=
  ((b.history.requests.drop b.storage.firstPriorityRequestId.toNat).map (·.deposited token)).sum

/-- All that the contract has paid or may have to pay is covered by what it has received.
Nothing is lost, unless a cancelled deposit wraps a balance, or a token moves less than the
credit that was taken for it. -/
structure Solvent (b : Rollup) (initial : Int) (token : UInt16) : Prop where
  le : ((amountOf token b.paid + b.storage.owed token + b.openDeposits token : Nat) : Int) +
    b.locked token ≤ b.received token + initial
  eq : b.storage.exodusMode = false → b.whole →
    ((amountOf token b.paid + b.storage.owed token + b.openDeposits token : Nat) : Int) +
      b.locked token = b.received token + initial

/-- What the server has done so far. -/
structure ServerInv (b : Rollup) : Prop where
  length : b.states.length = b.blocks.length + 1
  fits : ∀ block ∈ b.blocks, block.chunksUsed ≤ block.blockChunksSize
  funds : ∀ i (block : ZkSync.Block) (s s' : ZkSyncState), b.blocks[i]? = some block →
    b.states[i]? = some s → b.states[i + 1]? = some s' → ∀ token, s'.totalBalance token = s.totalBalance token +
      depositedBy token block.executedOps - withdrawnBy token block.executedOps
  pending : ∃ base, b.states[b.blocks.length]? = some base ∧
    WithinBlock (FundsFollow base) b.keeper
  executed_le : b.keeper.currentUnprocessedPriorityOp.toNat ≤ b.history.requests.length
  /-- The requests were executed in order, up to the one that is next. -/
  executed : (requestsOf (b.blocks.flatMap Block.executedOps ++
    b.keeper.pendingBlock.executedOps)).map some =
      (b.history.requests.take b.keeper.currentUnprocessedPriorityOp.toNat).map
        NewPriorityRequest.parsed

/-- What the contract has of it. -/
structure ContractInv (b : Rollup) : Prop where
  queue : QueueInv b.storage b.history
  genuine : ∀ event ∈ b.history.requests, event.Genuine
  active : b.storage.exodusMode = false → ∀ id token, b.storage.exited id token = false
  committed : b.history.matched.length ≤ b.blocks.length
  /-- A committed block has matched as many requests as it executes. -/
  matched : b.history.matched.map List.length =
    (b.blocks.take b.history.matched.length).map fun block => (requestsOf block.executedOps).length

end Rollup

/-! ## Steps of the keeper -/

section Keeper

variable {ext : Externals} {env : Env} {b : Rollup} {reply : KeeperReply} {k' : ZkSyncStateKeeper}

/-- Other replies carry no block. -/
theorem sealedBlocks_unsealed (h : ¬ reply.IsSealed) : sealedBlocks reply = [] := by
  cases reply with
  | sealed => exact absurd trivial h
  | _ => rfl

/-- Then only the keeper has moved. -/
theorem Rollup.afterReply_unsealed (h : ¬ reply.IsSealed) :
    b.afterReply reply k' = { b with keeper := k' } := by
  unfold Rollup.afterReply
  rw [sealedBlocks_unsealed h, List.append_nil, List.map_nil, List.append_nil]

/-- Within a block. -/
theorem Rollup.ServerInv.unsealed (h : b.ServerInv) (hz : env.NoZeroSigner) {call : KeeperCall}
    (hstep : KeeperStep env b.keeper (call, reply) k') (hunsealed : ¬ reply.IsSealed)
    (hle : k'.currentUnprocessedPriorityOp.toNat ≤ b.history.requests.length)
    (hexecuted : (requestsOf (b.blocks.flatMap Block.executedOps ++
      k'.pendingBlock.executedOps)).map some =
        (b.history.requests.take k'.currentUnprocessedPriorityOp.toNat).map
          NewPriorityRequest.parsed) :
    (b.afterReply reply k').ServerInv := by
  rw [afterReply_unsealed hunsealed]
  obtain ⟨base, hbase, hpending⟩ := h.pending
  have hkept := (fundsFollow_kept hz base).step hz hpending hstep hunsealed
  exact ⟨h.length, h.fits, h.funds, ⟨base, hbase, hkept⟩, hle, hexecuted⟩

/-- The block that is sealed is the pending one. -/
theorem Rollup.ServerInv.sealed (h : b.ServerInv) (hz : env.NoZeroSigner) {call : KeeperCall}
    {request : BlockCommitRequest} {updates : AppliedUpdatesRequest}
    (hstep : KeeperStep env b.keeper (call, .sealed request updates) k')
    (hpending : k'.pendingBlock.executedOps = [])
    (hnext : k'.currentUnprocessedPriorityOp = b.keeper.currentUnprocessedPriorityOp) :
    (b.afterReply (.sealed request updates) k').ServerInv := by
  obtain ⟨base, hbase, hwithin⟩ := h.pending
  obtain ⟨hsealed, hops⟩ := sealedFrom_of_step hz hwithin hstep
  have hlength := h.length
  have hlast : (b.states ++ [k'.state])[b.blocks.length + 1]? = some k'.state := by
    rw [← hlength]
    exact List.getElem?_concat_length
  refine ⟨?_, ?_, ?_, ⟨k'.state, ?_, hsealed.next⟩, ?_, ?_⟩
  · show (b.states ++ [k'.state]).length = (b.blocks ++ [request.block]).length + 1
    rw [List.length_append, List.length_append, hlength]
    rfl
  · intro block hblock
    rcases List.mem_append.mp hblock with hblock | hblock
    · exact h.fits block hblock
    · rw [List.mem_singleton.mp hblock]
      exact hsealed.fits
  -- for neighbouring states: those before, or the last two
  · intro i block s s' hblock hs hs'
    replace hblock : (b.blocks ++ [request.block])[i]? = some block := hblock
    replace hs : (b.states ++ [k'.state])[i]? = some s := hs
    replace hs' : (b.states ++ [k'.state])[i + 1]? = some s' := hs'
    by_cases hi : i < b.blocks.length
    · rw [List.getElem?_append_left hi] at hblock
      rw [List.getElem?_append_left (by omega)] at hs hs'
      exact h.funds i block s s' hblock hs hs'
    · -- the new block
      have hlt := (List.getElem?_eq_some_iff.mp hblock).1
      rw [List.length_append, List.length_singleton] at hlt
      obtain rfl : i = b.blocks.length := by omega
      rw [List.getElem?_append_left (by omega), hbase] at hs
      rw [hlast] at hs'
      rw [List.getElem?_concat_length] at hblock
      cases hs
      cases hs'
      cases hblock
      exact hsealed.funds
  · show (b.states ++ [k'.state])[(b.blocks ++ [request.block]).length]? = _
    rw [List.length_append, List.length_singleton]
    exact hlast
  · show k'.currentUnprocessedPriorityOp.toNat ≤ _
    rw [hnext]
    exact h.executed_le
  · show (requestsOf ((b.blocks ++ [request.block]).flatMap Block.executedOps ++
      k'.pendingBlock.executedOps)).map some = (b.history.requests.take
        k'.currentUnprocessedPriorityOp.toNat).map NewPriorityRequest.parsed
    rw [hnext, hpending, List.append_nil, List.flatMap_append, List.flatMap_singleton, hops]
    exact h.executed

/-- Every call of the keeper. -/
theorem Rollup.ServerInv.keeper (h : b.ServerInv) (hz : env.NoZeroSigner)
    (hsmall : b.history.requests.length < 2 ^ 64) {call : KeeperCall} (hasked : b.Asked call)
    (hstep : KeeperStep env b.keeper (call, reply) k') : (b.afterReply reply k').ServerInv := by
  cases requestsStep hstep with
  | @executed op _ unsealed ops next =>
    obtain ⟨event, hevent, hparsed⟩ := hasked
    obtain ⟨hlt, hget⟩ := List.getElem?_eq_some_iff.mp hevent
    have hnext : k'.currentUnprocessedPriorityOp.toNat =
        b.keeper.currentUnprocessedPriorityOp.toNat + 1 := by
      rw [next, UInt64.toNat_add]
      exact Nat.mod_eq_of_lt (Nat.lt_of_le_of_lt hlt hsmall)
    refine h.unsealed hz hstep unsealed (by omega) ?_
    rw [requestsOf_append, ops, ← List.append_assoc, ← requestsOf_append, List.map_append,
      h.executed, hnext, List.take_succ_eq_append_getElem hlt, List.map_append, hget]
    show _ ++ [some op.data] = _ ++ [event.parsed]
    rw [hparsed]
  | idle unsealed ops next =>
    refine h.unsealed hz hstep unsealed (next ▸ h.executed_le) ?_
    rw [requestsOf_append, ops, next, ← requestsOf_append]
    exact h.executed
  | sealed ops next => exact h.sealed hz hstep ops next

end Keeper

/-! ## Steps of the contract -/

section Calls

variable {ext : Externals} {b : Rollup} {s s' : Storage} {e : Event} {h h' : QueueHistory}

/-- Only the calls that make a request add one. -/
theorem requests_of_next (hnext : h.Next ext s e s' h')
    (hquiet : ∀ call, e.call ≠ .register call) : h'.requests = h.requests := by
  obtain ⟨governance, msg, call, receipt⟩ := e
  cases call with
  | register call => exact absurd rfl (hquiet call)
  | commitBlock blockNumber feeAccount newBlockInfo block =>
    obtain ⟨tr, w, -, rfl⟩ := hnext
    rfl
  | _ =>
    cases hnext
    rfl

/-- An exit is marked, and was not before. -/
theorem exit_marks {msg : Msg} {accountId : UInt32} {tokenId : UInt16} {amount : BitVec 128}
    {proof : List Nat} (h : exit ext msg s accountId tokenId amount proof = .ok s') :
    s.exodusMode ∧ s.exited accountId tokenId = false ∧
      ∃ balances, s' = { s with
        balancesToWithdraw := balances
        exited := Function.update s.exited accountId
          (Function.update (s.exited accountId) tokenId true) } := by
  unfold exit at h
  obtain ⟨_, hexodus, h⟩ := Outcome.bind_eq_ok.mp h
  obtain ⟨_, hexited, h⟩ := Outcome.bind_eq_ok.mp h
  obtain ⟨_, -, h⟩ := Outcome.bind_eq_ok.mp h
  obtain ⟨balance, -, h⟩ := Outcome.bind_eq_ok.mp h
  cases h
  exact ⟨require_eq_ok.mp hexodus, Bool.eq_false_iff.mpr (require_eq_ok.mp hexited), _, rfl⟩

/-- The books of the two storages are the same but for the balances. -/
structure SameBooks (s s' : Storage) : Prop where
  exited : s'.exited = s.exited
  verified : s'.totalBlocksVerified = s.totalBlocksVerified
  first : s'.firstPriorityRequestId = s.firstPriorityRequestId
  exodus : s'.exodusMode = false → s.exodusMode = false

/-- What a call is to the books. -/
inductive BooksEffect (ext : Externals) (s : Storage) (e : Event) (s' : Storage) : Prop
  | idle (same : SameBooks s s') (quiet : ∀ call, e.call ≠ .register call)
      (credits : credits s e.msg e.call = []) :
      BooksEffect ext s e s'
  | register {call : Register} {event : NewPriorityRequest} (isCall : e.call = .register call)
      (receipt : e.receipt = { requests := [event] }) (same : SameBooks s s')
      (h : register e.governance e.msg s call = .ok (s', event)) : BooksEffect ext s e s'
  | verify {blockNumber : UInt32} {proof : List Nat} {withdrawalsData : Bytes}
      (isCall : e.call = .verifyBlock blockNumber proof withdrawalsData) (receipt : e.receipt = {})
      (h : verifyBlock ext e.governance e.msg s blockNumber proof withdrawalsData = .ok s') :
      BooksEffect ext s e s'
  | cancel {n : UInt64} (isCall : e.call = .cancelOutstandingDepositsForExodusMode n)
      (receipt : e.receipt = {})
      (h : cancelOutstandingDepositsForExodusMode s n = .ok s') : BooksEffect ext s e s'
  | exit {accountId : UInt32} {tokenId : UInt16} {amount : BitVec 128} {proof : List Nat}
      (isCall : e.call = .exit accountId tokenId amount proof) (receipt : e.receipt = {})
      (h : exit ext e.msg s accountId tokenId amount proof = .ok s') : BooksEffect ext s e s'

/-- Every call changes the books in one of the ways that are listed. -/
theorem CallStep.books (hcall : CallStep ext s e s') : BooksEffect ext s e s' := by
  obtain ⟨governance, msg, call, receipt⟩ := e
  cases call with
  | register call =>
    obtain ⟨⟨s₁, event⟩, hregister, hcall⟩ := Outcome.bind_eq_ok.mp hcall
    cases hcall
    obtain ⟨balances, hs, -⟩ := (register_spec hregister).storage
    refine .register rfl rfl ?_ hregister
    rw [hs]
    exact ⟨rfl, rfl, rfl, id⟩
  | commitBlock blockNumber feeAccount newBlockInfo block =>
    -- the books do not look at committed blocks
    obtain ⟨s₁, hcommit, hcall⟩ := Outcome.bind_eq_ok.mp hcall
    cases hcall
    obtain ⟨-, -, tr, w, stored, -, -, -, rfl⟩ := commitBlock_spec hcommit
    exact .idle ⟨rfl, rfl, rfl, id⟩ (fun _ => nofun) rfl
  | verifyBlock blockNumber proof withdrawalsData =>
    -- what the block withdraws is credited to its owners
    obtain ⟨s₁, hverify, hcall⟩ := Outcome.bind_eq_ok.mp hcall
    cases hcall
    exact .verify rfl rfl hverify
  | revertBlocks maxBlocksToRevert =>
    obtain ⟨s₁, hrevert, hcall⟩ := Outcome.bind_eq_ok.mp hcall
    cases hcall
    obtain ⟨-, -, n, r, -, -, rfl⟩ := revertBlocks_spec hrevert
    exact .idle ⟨rfl, rfl, rfl, id⟩ (fun _ => nofun) rfl
  | triggerExodusIfNeeded =>
    obtain ⟨rfl, rfl⟩ := callStep_triggerExodusIfNeeded hcall
    obtain ⟨hs, hexodus⟩ := triggerExodusIfNeeded_spec msg s
    refine .idle ⟨?_, ?_, ?_, fun hactive => ?_⟩ (fun _ => nofun) rfl
    · rw [hs]
    · rw [hs]
    · rw [hs]
    · exact Bool.eq_false_iff.mpr fun h => Bool.eq_false_iff.mp hactive (hexodus h)
  | cancelOutstandingDepositsForExodusMode n =>
    -- an open deposit becomes a balance of its owner
    obtain ⟨s₁, hcancel, hcall⟩ := Outcome.bind_eq_ok.mp hcall
    cases hcall
    exact .cancel rfl rfl hcancel
  | exit accountId tokenId₀ amount proof =>
    -- what an account has in the verified state becomes a balance
    obtain ⟨s₁, hexit, hcall⟩ := Outcome.bind_eq_ok.mp hcall
    cases hcall
    exact .exit rfl rfl hexit
  | completeWithdrawals n sends =>
    -- what is paid leaves the balances, and less may be paid than has left them
    obtain ⟨rfl, rfl⟩ := callStep_completeWithdrawals hcall
    rw [completeWithdrawals_frame]
    exact .idle ⟨rfl, rfl, rfl, id⟩ (fun _ => nofun) rfl
  | withdrawETH amount success =>
    obtain ⟨⟨s₁, payments⟩, hwithdraw, hcall⟩ := Outcome.bind_eq_ok.mp hcall
    cases hcall
    obtain ⟨-, rfl⟩ := registerWithdrawal_spec (withdrawETH_spec hwithdraw).1
    exact .idle ⟨rfl, rfl, rfl, id⟩ (fun _ => nofun) rfl
  | withdrawERC20 token transfer =>
    obtain ⟨⟨s₁, payments⟩, hwithdraw, hcall⟩ := Outcome.bind_eq_ok.mp hcall
    cases hcall
    obtain ⟨tokenId, amount, hregister, -⟩ := withdrawERC20_spec hwithdraw
    obtain ⟨-, rfl⟩ := registerWithdrawal_spec hregister
    exact .idle ⟨rfl, rfl, rfl, id⟩ (fun _ => nofun) rfl
  | setAuthPubkeyHash hash nonce =>
    obtain ⟨s₁, hset, hcall⟩ := Outcome.bind_eq_ok.mp hcall
    cases hcall
    obtain ⟨-, -, rfl⟩ := setAuthPubkeyHash_spec hset
    exact .idle ⟨rfl, rfl, rfl, id⟩ (fun _ => nofun) rfl

/-- A call leaves the requests, or adds some. -/
theorem exists_requests_of_next (hnext : h.Next ext s e s' h') :
    ∃ new, h'.requests = h.requests ++ new := by
  by_cases hregister : ∃ call, e.call = .register call
  · obtain ⟨call, hregister⟩ := hregister
    unfold QueueHistory.Next at hnext
    rw [hregister] at hnext
    exact ⟨e.receipt.requests, congrArg QueueHistory.requests hnext⟩
  · exact ⟨[], (requests_of_next hnext fun call hcall => hregister ⟨call, hcall⟩).trans
      (List.append_nil _).symm⟩

/-- The contract does not change what the keeper has sealed. -/
theorem Rollup.ServerInv.call (hb : b.ServerInv) (hnext : b.history.Next ext b.storage e s' h') :
    (b.afterCall e s' h').ServerInv := by
  obtain ⟨new, hnew⟩ := exists_requests_of_next hnext
  refine ⟨hb.length, hb.fits, hb.funds, hb.pending, ?_, ?_⟩
  · show _ ≤ h'.requests.length
    rw [hnew, List.length_append]
    exact Nat.le_add_right_of_le hb.executed_le
  · show _ = (h'.requests.take b.keeper.currentUnprocessedPriorityOp.toNat).map _
    rw [hnew, List.take_append_of_le_length hb.executed_le]
    exact hb.executed

/-- The keeper does not change what the contract has stored. -/
theorem Rollup.ContractInv.reply (hb : b.ContractInv) (reply : KeeperReply)
    (k' : ZkSyncStateKeeper) : (b.afterReply reply k').ContractInv := by
  refine ⟨hb.queue, hb.genuine, hb.active, ?_, ?_⟩
  · show _ ≤ (b.blocks ++ sealedBlocks reply).length
    rw [List.length_append]
    exact Nat.le_add_right_of_le hb.committed
  · show _ = ((b.blocks ++ sealedBlocks reply).take b.history.matched.length).map _
    rw [List.take_append_of_le_length hb.committed]
    exact hb.matched

/-- A call adds no request that nobody made. -/
theorem genuine_of_call (hcall : CallStep ext s e s') (hnext : h.Next ext s e s' h')
    (hgenuine : ∀ event ∈ h.requests, event.Genuine) : ∀ event ∈ h'.requests, event.Genuine := by
  cases hcall.books with
  | @register call event isCall receipt same hregister =>
    unfold QueueHistory.Next at hnext
    rw [isCall, receipt] at hnext
    rw [congrArg QueueHistory.requests hnext]
    intro event' hevent'
    rcases List.mem_append.mp hevent' with hevent' | hevent'
    · exact hgenuine event' hevent'
    · rw [List.mem_singleton.mp hevent']
      exact genuine_register hregister
  | idle same quiet => exact requests_of_next hnext quiet ▸ hgenuine
  | verify isCall | cancel isCall | exit isCall =>
    exact requests_of_next hnext (fun _ => by rw [isCall]; nofun) ▸ hgenuine

/-- Nothing has exited before exodus mode. -/
theorem active_of_call (hcall : CallStep ext s e s')
    (hactive : s.exodusMode = false → ∀ id token, s.exited id token = false)
    (hmode : s'.exodusMode = false) :
    s.exodusMode = false ∧ ∀ id token, s'.exited id token = false := by
  have hkept (hexodus : s.exodusMode = false) (hexited : s'.exited = s.exited) :
      s.exodusMode = false ∧ ∀ id token, s'.exited id token = false :=
    ⟨hexodus, hexited ▸ hactive hexodus⟩
  cases hcall.books with
  | idle same | register _ _ same => exact hkept (same.exodus hmode) same.exited
  | verify _ _ h =>
    obtain ⟨hexodus, -, -, -, -, p, -, hs⟩ := verifyBlock_spec h
    exact hkept hexodus (by rw [hs])
  | cancel _ _ h =>
    obtain ⟨hexodus, toProcess, s₁, -, -, hs⟩ := cancelOutstandingDepositsForExodusMode_spec h
    rw [hs] at hmode
    exact absurd hexodus (Bool.eq_false_iff.mp hmode)
  | exit _ _ h =>
    obtain ⟨hexodus, -, balances, hs⟩ := exit_marks h
    rw [hs] at hmode
    exact absurd hexodus (Bool.eq_false_iff.mp hmode)

/-- A call that commits no block leaves some of the committed ones. -/
theorem matched_of_next (hnext : h.Next ext s e s' h')
    (hcommit : ∀ number account info data, e.call ≠ .commitBlock number account info data) :
    ∃ n, h'.matched = h.matched.take n := by
  obtain ⟨governance, msg, call, receipt⟩ := e
  have hall : h.matched = h.matched.take h.matched.length := List.take_length.symm
  cases call with
  | commitBlock number account info data => exact absurd rfl (hcommit number account info data)
  | revertBlocks _ => exact ⟨_, congrArg QueueHistory.matched hnext⟩
  | _ => exact ⟨_, (congrArg QueueHistory.matched hnext).trans hall⟩

/-- The block that is committed is the next one that the keeper has sealed. -/
theorem Rollup.matched_of_commit (hserver : b.ServerInv) (hb : b.ContractInv) (honest : b.Honest e)
    (hbounds : WithinBounds b.storage e.call) (hcall : CallStep ext b.storage e s')
    (hnext : b.history.Next ext b.storage e s' h') {number feeAccount : UInt32}
    {info : List Bytes32} {data : CommitData} (hcommit : e.call = .commitBlock number feeAccount info data) :
    ∃ ids block, h'.matched = b.history.matched ++ [ids] ∧
      b.blocks[b.history.matched.length]? = some block ∧
        ids.length = (requestsOf block.executedOps).length := by
  obtain ⟨governance, msg, call, receipt⟩ := e
  dsimp only at hcommit
  subst hcommit
  obtain ⟨block, publicData, hblock, hpublic, rfl⟩ := honest
  obtain ⟨tr, w, hcollected, rfl⟩ := hnext
  obtain ⟨s₁, hcommit, -⟩ := Outcome.bind_eq_ok.mp hcall
  obtain ⟨-, hnumber, -⟩ := commitBlock_spec hcommit
  have hlength := hb.queue.length
  have hbound : b.storage.totalBlocksCommitted.toNat + 1 < 2 ^ 32 := hbounds
  have hindex : number.toNat - 1 = b.history.matched.length := by
    rw [hnumber, hlength, UInt32.toNat_add]
    show (b.storage.totalBlocksCommitted.toNat + 1) % 2 ^ 32 - 1 = _
    omega
  rw [hindex] at hblock
  have hfits := hserver.fits block (List.mem_of_getElem? hblock)
  exact ⟨_, block, rfl, hblock, hcollected.length_matchedIds hfits hpublic⟩

/-- A call commits and verifies blocks of the keeper only. -/
theorem Rollup.ContractInv.call (hserver : b.ServerInv) (hb : b.ContractInv) (honest : b.Honest e)
    (hbounds : WithinBounds b.storage e.call) (hcall : CallStep ext b.storage e s')
    (hnext : b.history.Next ext b.storage e s' h') : (b.afterCall e s' h').ContractInv := by
  have hqueue := (hb.queue.step hcall hnext hbounds).1
  have hgenuine := genuine_of_call hcall hnext hb.genuine
  have hactive (hmode : s'.exodusMode = false) := (active_of_call hcall hb.active hmode).2
  by_cases hcommit : ∃ number account info data, e.call = .commitBlock number account info data
  · obtain ⟨number, account, info, data, hcommit⟩ := hcommit
    obtain ⟨ids, block, hmatched, hblock, hids⟩ :=
      matched_of_commit hserver hb honest hbounds hcall hnext hcommit
    obtain ⟨hlt, hget⟩ := List.getElem?_eq_some_iff.mp hblock
    refine ⟨hqueue, hgenuine, hactive, ?_, ?_⟩
    · show h'.matched.length ≤ b.blocks.length
      rw [hmatched, List.length_append]
      exact hlt
    · show h'.matched.map _ = (b.blocks.take h'.matched.length).map _
      rw [hmatched, List.length_append, List.length_singleton,
        List.take_succ_eq_append_getElem hlt, List.map_append, List.map_append, hb.matched, hget]
      show _ ++ [ids.length] = _
      rw [hids]
      rfl
  · obtain ⟨n, hmatched⟩ := matched_of_next hnext
      fun number account info data h => hcommit ⟨number, account, info, data, h⟩
    refine ⟨hqueue, hgenuine, hactive, ?_, ?_⟩
    · show h'.matched.length ≤ b.blocks.length
      rw [hmatched]
      exact (List.length_take_le' _ _).trans hb.committed
    · show h'.matched.map _ = (b.blocks.take h'.matched.length).map _
      rw [hmatched, List.map_take, hb.matched, ← List.map_take, List.take_take, List.length_take]

end Calls

/-! ## What a call does to the books -/

section Books

variable {ext : Externals} {b : Rollup} {s' : Storage} {e : Event} {h' : QueueHistory}
  {initial : Int} {token : UInt16}

/-- What a call takes from the open deposits and from the locked balances it credits. -/
theorem Rollup.Solvent.moved (h : b.Solvent initial token) (hcall : CallStep ext b.storage e s')
    (hactive : s'.exodusMode = false → b.storage.exodusMode = false)
    (hmoved : ((b.afterCall e s' h').openDeposits token : Int) + (b.afterCall e s' h').locked token +
      amountOf token (credits b.storage e.msg e.call) =
        b.openDeposits token + b.locked token + e.call.received e.governance e.msg token) :
    (b.afterCall e s' h').Solvent initial token := by
  have howed := hcall.owed token
  have hpaid : amountOf token (b.afterCall e s' h').paid =
      amountOf token b.paid + amountOf token e.receipt.payments := amountOf_append _ _ _
  have hreceived : (b.afterCall e s' h').received token =
      b.received token + e.call.received e.governance e.msg token := rfl
  have howed' : (b.afterCall e s' h').storage.owed token = s'.owed token := rfl
  constructor
  · have hle := h.le
    have howed := howed.1
    omega
  · rintro hmode ⟨hwhole, hcallWhole⟩
    have heq := h.eq (hactive hmode) hwhole
    have howed := howed.2 (hactive hmode) hcallWhole
    omega

/-- Whoever has the same accounts and exits has the same locked balances. -/
theorem Rollup.locked_same (h : SameBooks b.storage s') :
    (b.afterCall e s' h').locked token = b.locked token := by
  show Ledger.total (lockedAccounts s'.exited b.states[s'.totalBlocksVerified.toNat]? token) token =
    Ledger.total (lockedAccounts b.storage.exited b.states[b.storage.totalBlocksVerified.toNat]?
      token) token
  rw [h.exited, h.verified]

/-- While no token was taken out in the exodus, the accounts own what the last verified state
says. -/
theorem Rollup.locked_verified (hactive : ∀ id token, b.storage.exited id token = false)
    {s : ZkSyncState} (hs : b.verifiedState = some s) : b.locked token = s.totalBalance token := by
  unfold locked ZkSyncState.totalBalance
  congr 1
  funext id
  unfold lockedAccounts
  rw [hactive, hs]
  rfl

/-! ### Requests -/

/-- The requests of some blocks are counted block by block. -/
theorem length_requestsOf_flatMap (blocks : List ZkSync.Block) :
    (requestsOf (blocks.flatMap Block.executedOps)).length =
      (blocks.map fun block => (requestsOf block.executedOps).length).sum := by
  induction blocks with
  | nil => rfl
  | cons block blocks ih =>
    rw [List.flatMap_cons, requestsOf_append, List.length_append, ih, List.map_cons, List.sum_cons]

/-- The requests before those of a block. -/
theorem Rollup.ContractInv.length_take (h : b.ContractInv) {v : Nat}
    (hv : v ≤ b.history.matched.length) : (b.history.matched.take v).flatten.length =
      (requestsOf ((b.blocks.take v).flatMap Block.executedOps)).length := by
  rw [List.length_flatten, List.map_take, h.matched, ← List.map_take, List.take_take,
    Nat.min_eq_left hv, length_requestsOf_flatMap]

/-- A piece of a list, seen through a prefix of another one. -/
theorem take_drop_of_append {α β : Type} {front piece back : List α} {events : List β} {f : β → α}
    {n : Nat} (h : front ++ (piece ++ back) = (events.take n).map f) :
    piece = ((events.drop front.length).take piece.length).map f := by
  have hlength := congrArg List.length h
  rw [List.length_map, List.length_take, List.length_append, List.length_append] at hlength
  have hpiece : ((front ++ (piece ++ back)).drop front.length).take piece.length = piece := by
    rw [List.drop_left, List.take_left]
  rw [h, ← List.map_drop, ← List.map_take, List.drop_take, List.take_take,
    Nat.min_eq_left (by omega)] at hpiece
  exact hpiece.symm

/-- What a block deposits are the deposits of its requests. -/
theorem Rollup.ServerInv.depositedBy (h : b.ServerInv) {v : Nat} {block : ZkSync.Block}
    (hblock : b.blocks[v]? = some block) (token : UInt16) : depositedBy token block.executedOps =
      (((b.history.requests.drop
        (requestsOf ((b.blocks.take v).flatMap Block.executedOps)).length).take
          (requestsOf block.executedOps).length).map (·.deposited token)).sum := by
  obtain ⟨hlt, hget⟩ := List.getElem?_eq_some_iff.mp hblock
  have hsplit : b.blocks = b.blocks.take v ++ block :: b.blocks.drop (v + 1) := by
    rw [← hget, List.getElem_cons_drop, List.take_append_drop]
  have hexecuted := h.executed
  rw [requestsOf_append] at hexecuted
  nth_rewrite 1 [hsplit] at hexecuted
  rw [List.flatMap_append, List.flatMap_cons, requestsOf_append, requestsOf_append,
    List.append_assoc, List.append_assoc, List.map_append, List.map_append] at hexecuted
  have hpiece := take_drop_of_append hexecuted
  rw [List.length_map, List.length_map] at hpiece
  unfold ZkSync.depositedBy
  have hread := congrArg (List.map fun request => (request.map
    fun request : ZkSyncPriorityOp => request.deposited token).getD 0) hpiece
  rw [List.map_map, List.map_map] at hread
  exact congrArg List.sum hread

/-! ### Calls -/

/-- A call that verifies nothing moves money between the books only. -/
theorem Rollup.moved_idle (hnext : b.history.Next ext b.storage e s' h') (same : SameBooks b.storage s')
    (quiet : ∀ call, e.call ≠ .register call) (hcredits : credits b.storage e.msg e.call = []) :
    ((b.afterCall e s' h').openDeposits token : Int) + (b.afterCall e s' h').locked token +
      amountOf token (credits b.storage e.msg e.call) =
        b.openDeposits token + b.locked token + e.call.received e.governance e.msg token := by
  have hopen : (b.afterCall e s' h').openDeposits token = b.openDeposits token := by
    show ((h'.requests.drop s'.firstPriorityRequestId.toNat).map _).sum = _
    rw [requests_of_next hnext quiet, same.first]
    rfl
  have hreceived : e.call.received e.governance e.msg token = 0 := by
    obtain ⟨governance, msg, call, receipt⟩ := e
    cases call with
    | register call => exact absurd rfl (quiet call)
    | _ => rfl
  rw [hopen, locked_same same, hcredits, hreceived]
  rfl

/-- A request brings in what it deposits. -/
theorem Rollup.moved_register (hb : b.ContractInv) (hnext : b.history.Next ext b.storage e s' h')
    {call : Register} {event : NewPriorityRequest} (isCall : e.call = .register call)
    (receipt : e.receipt = { requests := [event] }) (same : SameBooks b.storage s')
    (hregister : register e.governance e.msg b.storage call = .ok (s', event)) :
    ((b.afterCall e s' h').openDeposits token : Int) + (b.afterCall e s' h').locked token +
      amountOf token (credits b.storage e.msg e.call) =
        b.openDeposits token + b.locked token + e.call.received e.governance e.msg token := by
  have hrequests : h'.requests = b.history.requests ++ [event] := by
    unfold QueueHistory.Next at hnext
    rw [isCall, receipt] at hnext
    exact congrArg QueueHistory.requests hnext
  have hfirst : b.storage.firstPriorityRequestId.toNat ≤ b.history.requests.length := by
    have htotal := hb.queue.total
    omega
  have hopen : (b.afterCall e s' h').openDeposits token =
      b.openDeposits token + event.deposited token := by
    show ((h'.requests.drop s'.firstPriorityRequestId.toNat).map _).sum = _
    rw [hrequests, same.first, List.drop_append_of_le_length hfirst, List.map_append,
      List.sum_append]
    rfl
  have hcredits : credits b.storage e.msg e.call = [] := by
    rw [isCall]
    rfl
  rw [hopen, locked_same same, hcredits, isCall, ← deposited_register hregister]
  show _ + _ + 0 = _
  push_cast
  omega

/-- A verified block credits what it withdraws from the accounts; its deposits are on
accounts now. -/
theorem Rollup.moved_verify (hserver : b.ServerInv) (hb : b.ContractInv) (honest : b.Honest e)
    (hcall : CallStep ext b.storage e s') (hbounds : WithinBounds b.storage e.call)
    (hnext : b.history.Next ext b.storage e s' h') {number : UInt32} {proof : List Nat}
    {withdrawalsData : Bytes} (isCall : e.call = .verifyBlock number proof withdrawalsData)
    (hverify : verifyBlock ext e.governance e.msg b.storage number proof withdrawalsData = .ok s') :
    ((b.afterCall e s' h').openDeposits token : Int) + (b.afterCall e s' h').locked token +
      amountOf token (credits b.storage e.msg e.call) =
        b.openDeposits token + b.locked token + e.call.received e.governance e.msg token := by
  have hqueue := (hb.queue.step hcall hnext hbounds).1
  obtain ⟨hactive, hnumber, hsupported, -, -, p, -, hs⟩ := verifyBlock_spec hverify
  rw [hnumber] at hsupported
  obtain ⟨hlt, hsucc⟩ := hb.queue.verified_lt hsupported
  have hlength := hb.queue.length
  have hcommitted := hb.committed
  unfold Honest at honest
  rw [isCall] at honest
  obtain ⟨block, hblock, hdata⟩ := honest
  rw [hnumber, hsucc, Nat.add_sub_cancel] at hblock
  -- the states before and after the block
  have hstates := hserver.length
  obtain ⟨before, hbefore⟩ : ∃ before, b.states[b.storage.totalBlocksVerified.toNat]? =
      some before := ⟨_, List.getElem?_eq_getElem (by omega)⟩
  obtain ⟨after, hafter⟩ : ∃ after, b.states[b.storage.totalBlocksVerified.toNat + 1]? =
      some after := ⟨_, List.getElem?_eq_getElem (by omega)⟩
  have hverified : (b.afterCall e s' h').verifiedState = some after := by
    show b.states[s'.totalBlocksVerified.toNat]? = _
    rw [hs]
    show b.states[(b.storage.totalBlocksVerified + 1).toNat]? = _
    rw [hsucc]
    exact hafter
  have hfunds := hserver.funds _ block _ _ hblock hbefore hafter token
  have hexited := hb.active hactive
  have hexited' : ∀ id token, (b.afterCall e s' h').storage.exited id token = false := by
    show ∀ id token, s'.exited id token = false
    rw [hs]
    exact hexited
  -- the requests of the block
  have hmatched : h'.matched = b.history.matched := by
    unfold QueueHistory.Next at hnext
    rw [isCall] at hnext
    exact congrArg QueueHistory.matched hnext
  have hrequests := requests_of_next hnext fun _ => by rw [isCall]; nofun
  have hfirst := hb.queue.first_active hactive
  have hfirst' := hqueue.first_active (by rw [hs]; exact hactive)
  rw [hb.length_take (by omega)] at hfirst
  have hverified' : s'.totalBlocksVerified.toNat = b.storage.totalBlocksVerified.toNat + 1 := by
    rw [hs]
    exact hsucc
  obtain ⟨hlt', hget⟩ := List.getElem?_eq_some_iff.mp hblock
  rw [hmatched, hverified', hb.length_take (by omega),
    List.take_succ_eq_append_getElem hlt', List.flatMap_append, requestsOf_append,
    List.length_append, hget, List.flatMap_singleton, ← hfirst] at hfirst'
  have hdeposited := hserver.depositedBy hblock token
  rw [← hfirst] at hdeposited
  have hopen : b.openDeposits token =
      depositedBy token block.executedOps + (b.afterCall e s' h').openDeposits token := by
    show _ = _ + ((h'.requests.drop s'.firstPriorityRequestId.toNat).map _).sum
    rw [hfirst', hrequests, hdeposited, ← List.drop_drop, ← List.sum_append, ← List.map_append,
      List.take_append_drop]
    rfl
  have hcredits : amountOf token (credits b.storage e.msg e.call) =
      withdrawnBy token block.executedOps := by
    rw [isCall]
    show amountOf token ((withdrawalsIn withdrawalsData).map Withdrawal.credit) = _
    rw [withdrawalsIn_withdrawalsDataOf hdata, amountOf_withdrawalsOf hdata]
  rw [locked_verified hexited hbefore, locked_verified hexited' hverified, hcredits, hfunds, hopen, isCall]
  show _ = _ + _ + ((0 : Nat) : Int)
  push_cast
  omega

theorem amountOf_filterMap_cons {α : Type} (f : α → Option Payment) (a : α) (as : List α) :
    amountOf token ((a :: as).filterMap f) =
      amountOf token (f a).toList + amountOf token (as.filterMap f) := by
  rw [← amountOf_append]
  congr 1
  cases h : f a with
  | none => rw [List.filterMap_cons_none h, Option.toList_none, List.nil_append]
  | some payment => rw [List.filterMap_cons_some h, Option.toList_some, List.singleton_append]

/-- The requests that are open are stored, and give back what they deposited. -/
theorem Rollup.ContractInv.refunds (hb : b.ContractInv) {i n : Nat}
    (hi : b.storage.firstPriorityRequestId.toNat ≤ i) (hn : i + n ≤ b.history.requests.length) :
    amountOf token (((List.range' i n).map UInt64.ofNat).filterMap
        fun id => refundOf (b.storage.priorityRequests id)) =
      (((b.history.requests.drop i).take n).map (·.deposited token)).sum := by
  induction n generalizing i with
  | zero => rfl
  | succ n ih =>
    have hlt : i < b.history.requests.length := by omega
    rw [List.range'_succ, List.map_cons, amountOf_filterMap_cons, hb.queue.stored i hlt hi,
      amountOf_refundOf (hb.genuine _ (List.getElem_mem hlt)), ih (by omega) (by omega),
      List.drop_eq_getElem_cons hlt, List.take_succ_cons, List.map_cons, List.sum_cons]

/-- Cancelled deposits go back to their owners. -/
theorem Rollup.moved_cancel (hb : b.ContractInv) (hnext : b.history.Next ext b.storage e s' h')
    {n : UInt64} (isCall : e.call = .cancelOutstandingDepositsForExodusMode n)
    (hcancel : cancelOutstandingDepositsForExodusMode b.storage n = .ok s') :
    ((b.afterCall e s' h').openDeposits token : Int) + (b.afterCall e s' h').locked token +
      amountOf token (credits b.storage e.msg e.call) =
        b.openDeposits token + b.locked token + e.call.received e.governance e.msg token := by
  obtain ⟨-, toProcess, s₁, htoProcess, hloop, hs⟩ :=
    cancelOutstandingDepositsForExodusMode_spec hcancel
  have hrequests := requests_of_next hnext fun _ => by rw [isCall]; nofun
  have htotal := hb.queue.total
  have hsmall := hb.queue.small
  -- no more is cancelled than is open
  have hmin : toProcess.toNat ≤ b.storage.totalOpenPriorityRequests.toNat := by
    rw [htoProcess, toNat_minU64]
    exact Nat.min_le_left _ _
  have hstop : (b.storage.firstPriorityRequestId + toProcess).toNat =
      b.storage.firstPriorityRequestId.toNat + toProcess.toNat := by
    rw [UInt64.toNat_add]
    exact Nat.mod_eq_of_lt (by omega)
  have hfirst : s'.firstPriorityRequestId = b.storage.firstPriorityRequestId + toProcess := by
    rw [hs]
  -- what is credited are the deposits of the cancelled requests
  have hcredits : amountOf token (credits b.storage e.msg e.call) =
      (((b.history.requests.drop b.storage.firstPriorityRequestId.toNat).take
        toProcess.toNat).map (·.deposited token)).sum := by
    rw [isCall]
    show amountOf token (refunds b.storage n) = _
    unfold Contract.refunds idsBetween
    rw [← htoProcess, hstop, Nat.add_sub_cancel_left]
    exact hb.refunds (Nat.le_refl _) (by omega)
  have hopen : b.openDeposits token = amountOf token (credits b.storage e.msg e.call) +
      (b.afterCall e s' h').openDeposits token := by
    show _ = _ + ((h'.requests.drop s'.firstPriorityRequestId.toNat).map _).sum
    rw [hcredits, hrequests, hfirst, hstop, ← List.drop_drop, ← List.sum_append, ← List.map_append,
      List.take_append_drop]
    rfl
  have hlocked : (b.afterCall e s' h').locked token = b.locked token := by
    rw [hs]
    rfl
  have hreceived : e.call.received e.governance e.msg token = 0 := by
    rw [isCall]
    rfl
  rw [hlocked, hopen, hreceived, Nat.cast_zero, Nat.cast_add]
  abel

/-- An exit takes the balance of the account. -/
theorem Rollup.moved_exit (honest : b.Honest e) (hnext : b.history.Next ext b.storage e s' h')
    {accountId : UInt32} {tokenId : UInt16} {amount : BitVec 128} {proof : List Nat}
    (isCall : e.call = .exit accountId tokenId amount proof)
    (hexit : exit ext e.msg b.storage accountId tokenId amount proof = .ok s') :
    ((b.afterCall e s' h').openDeposits token : Int) + (b.afterCall e s' h').locked token +
      amountOf token (credits b.storage e.msg e.call) =
        b.openDeposits token + b.locked token + e.call.received e.governance e.msg token := by
  obtain ⟨-, hexited, balances, hs⟩ := exit_marks hexit
  have hrequests := requests_of_next hnext fun _ => by rw [isCall]; nofun
  unfold Honest at honest
  rw [isCall] at honest
  obtain ⟨state, a, hstate, ha, -, hamount⟩ := honest
  have hopen : (b.afterCall e s' h').openDeposits token = b.openDeposits token := by
    show ((h'.requests.drop s'.firstPriorityRequestId.toNat).map _).sum = _
    rw [hrequests, hs]
    rfl
  have hcredits : amountOf token (credits b.storage e.msg e.call) =
      if tokenId = token then amount.toNat else 0 := by
    rw [isCall]
    exact amountOf_singleton token _
  have hlocked : (b.afterCall e s' h').locked token = Ledger.total (lockedAccounts
      (Function.update b.storage.exited accountId
        (Function.update (b.storage.exited accountId) tokenId true)) b.verifiedState token) token := by
    rw [hs]
    rfl
  have hmoved : (b.afterCall e s' h').locked token +
      ((if tokenId = token then amount.toNat else 0 : Nat) : Int) = b.locked token := by
    rw [hlocked]
    by_cases htoken : tokenId = token
    · subst htoken
      -- the account is taken out of the sum
      have hupdate : lockedAccounts (Function.update b.storage.exited accountId
          (Function.update (b.storage.exited accountId) tokenId true)) b.verifiedState tokenId =
            Function.update (lockedAccounts b.storage.exited b.verifiedState tokenId) accountId
              none := by
        funext id
        by_cases hid : id = accountId
        · subst hid
          simp [lockedAccounts]
        · simp [lockedAccounts, hid]
      have hlookup : lockedAccounts b.storage.exited b.verifiedState tokenId accountId = some a := by
        unfold lockedAccounts
        rw [hexited, hstate]
        exact ha
      rw [hupdate, Ledger.total_update, hlookup, if_pos rfl, hamount]
      show _ - ((a.getBalance tokenId : Nat) : Int) + ((0 : Nat) : Int) + _ = b.locked tokenId
      unfold locked
      omega
    · have hsame : lockedAccounts (Function.update b.storage.exited accountId
          (Function.update (b.storage.exited accountId) tokenId true)) b.verifiedState token =
            lockedAccounts b.storage.exited b.verifiedState token := by
        funext id
        have hne : token ≠ tokenId := fun h => htoken h.symm
        by_cases hid : id = accountId
        · subst hid
          simp [lockedAccounts, hne]
        · simp [lockedAccounts, hid]
      rw [hsame, if_neg htoken]
      exact add_zero _
  have hreceived : e.call.received e.governance e.msg token = 0 := by
    rw [isCall]
    rfl
  rw [hopen, hcredits, hreceived, Nat.cast_zero, add_zero, add_assoc, hmoved]

end Books

/-! ## Runs -/

section Runs

variable {ext : Externals} {env : Env} {b b' : Rollup} {initial : TokenId → Int}

/-- The books of the contract, the accounts of the keeper, and how they belong together. -/
structure Rollup.Inv (b : Rollup) (initial : TokenId → Int) : Prop where
  server : b.ServerInv
  contract : b.ContractInv
  solvent : ∀ token, b.Solvent (initial token) token

/-- Each step of either side keeps the books balanced. -/
theorem Rollup.Inv.step (h : b.Inv initial) (hz : env.NoZeroSigner) {e : RollupEvent}
    (hstep : RollupStep ext env b e b') : b'.Inv initial := by
  cases hstep with
  | @keeper e k' asked step =>
    refine ⟨h.server.keeper hz h.contract.queue.small asked step, h.contract.reply _ _, ?_⟩
    -- The verified states are those before the new ones.
    have hverified := h.contract.queue.verified
    have hlength := h.contract.queue.length
    have hcommitted := h.contract.committed
    have hstates := h.server.length
    intro token
    have hlocked : (b.afterReply e.2 k').locked token = b.locked token := by
      show Ledger.total (lockedAccounts b.storage.exited
        ((b.states ++ _)[b.storage.totalBlocksVerified.toNat]?) token) token = _
      rw [List.getElem?_append_left (by omega)]
      rfl
    have hsolvent := h.solvent token
    exact ⟨hlocked ▸ hsolvent.le, fun hactive => hlocked ▸ hsolvent.eq hactive⟩
  | @call e s' h' honest bounds hcall recorded =>
    refine ⟨h.server.call recorded, h.contract.call h.server honest bounds hcall recorded, ?_⟩
    intro token
    have hactive (hmode : s'.exodusMode = false) :=
      (active_of_call hcall h.contract.active hmode).1
    refine (h.solvent token).moved hcall hactive ?_
    cases hcall.books with
    | idle same quiet credits => exact moved_idle recorded same quiet credits
    | register isCall receipt same hregister =>
      exact moved_register h.contract recorded isCall receipt same hregister
    | verify isCall receipt hverify =>
      exact moved_verify h.server h.contract honest hcall bounds recorded isCall hverify
    | cancel isCall receipt hcancel => exact moved_cancel h.contract recorded isCall hcancel
    | exit isCall receipt hexit => exact moved_exit honest recorded isCall hexit

variable {accounts : AList fun _ : AccountId => Account} {feeAccountAddress : Address}
  {sizes : List Nat} {maxMini fastMini maxWithdrawals : Nat} {k₀ : ZkSyncStateKeeper}

/-- They are balanced at the start. -/
theorem Rollup.inv_start (hnew : ZkSyncStateKeeper.new env (.fromAccMap env.hasher accounts 0 0)
      feeAccountAddress sizes maxMini fastMini maxWithdrawals = .ok k₀) (genesisRoot : Bytes32) :
    (start genesisRoot k₀).Inv k₀.state.totalBalance := by
  obtain ⟨_, _, _, -, -, hk⟩ := ZkSyncStateKeeper.new_eq_ok hnew
  have hpending : k₀.pendingBlock.executedOps = [] ∧ k₀.pendingBlock.failedTxs = [] ∧
      k₀.pendingBlock.collectedFees = [] ∧ k₀.currentUnprocessedPriorityOp = 0 := by
    rw [hk]
    exact ⟨rfl, rfl, rfl, rfl⟩
  obtain ⟨hops, hfailed, hfees, hcurrent⟩ := hpending
  have hwithin : WithinBlock (FundsFollow k₀.state) k₀ := by
    refine ⟨(started_new hnew).state.indexed, ?_, ?_⟩
    · rw [hfailed]
      exact fun _ htx => absurd htx List.not_mem_nil
    · rw [hops, hfees]
      exact fundsFollow_nil
  refine ⟨⟨rfl, fun _ h => absurd h List.not_mem_nil, fun _ _ _ _ h => ?_,
    ⟨k₀.state, rfl, hwithin⟩, ?_, ?_⟩, ⟨.start genesisRoot, fun _ h => absurd h List.not_mem_nil,
      fun _ _ _ => rfl, Nat.le_refl _, rfl⟩, fun token => ?_⟩
  · cases h
  · show k₀.currentUnprocessedPriorityOp.toNat ≤ _
    rw [hcurrent]
    exact Nat.zero_le _
  · show (requestsOf ([] ++ k₀.pendingBlock.executedOps)).map some = List.map _ (List.take _ [])
    rw [hops, List.take_nil]
    rfl
  -- at the start nothing is owed to anyone
  · have howed : (start genesisRoot k₀).storage.owed token = 0 := by
      unfold Storage.owed
      exact Finset.sum_eq_zero fun _ _ => rfl
    have hlocked : (start genesisRoot k₀).locked token = k₀.state.totalBalance token :=
      locked_verified (fun _ _ => rfl) rfl
    have hempty : (((amountOf token (start genesisRoot k₀).paid +
        (start genesisRoot k₀).storage.owed token +
          (start genesisRoot k₀).openDeposits token : Nat) : Int)) = 0 := by
      rw [howed]
      rfl
    have heq : ((amountOf token (start genesisRoot k₀).paid + (start genesisRoot k₀).storage.owed token +
        (start genesisRoot k₀).openDeposits token : Nat) : Int) +
        (start genesisRoot k₀).locked token =
          (start genesisRoot k₀).received token + k₀.state.totalBalance token := by
      rw [hempty, hlocked]
      rfl
    exact ⟨heq.le, fun _ _ => heq⟩

/-- The contract can pay what it owes: whatever is called, in whatever order. -/
theorem rollup_solvent (hz : env.NoZeroSigner)
    (hnew : ZkSyncStateKeeper.new env (.fromAccMap env.hasher accounts 0 0) feeAccountAddress sizes
      maxMini fastMini maxWithdrawals = .ok k₀) {genesisRoot : Bytes32} {tr : List RollupEvent}
    (hrun : Run (RollupStep ext env) (.start genesisRoot k₀) tr b) (token : TokenId) :
    b.Solvent (k₀.state.totalBalance token) token ∧
      ((amountOf token b.paid + b.storage.owed token : Nat) : Int) ≤
        b.received token + k₀.state.totalBalance token := by
  have hinv := hrun.invariant (I := fun b => b.Inv k₀.state.totalBalance)
    (fun _ _ _ h hstep => h.step hz hstep) (Rollup.inv_start hnew genesisRoot)
  have hsolvent := hinv.solvent token
  have hle := hsolvent.le
  have hlocked : 0 ≤ b.locked token := Ledger.total_nonneg _ _
  exact ⟨hsolvent, by omega⟩

end Runs

/-! ### A deposit -/

/-- A deposit is made, executed and committed. -/
theorem exists_rollup_deposit : ∃ k₀ tr b,
    ZkSyncStateKeeper.new (Env.built 1 false)
      (.fromAccMap (Env.built 1 false).hasher sampleStored 0 0) 1 [6, 30] 10 2 5 = .ok k₀ ∧
    Run (RollupStep .sample (Env.built 1 false)) (.start 0 k₀) tr b ∧ b.received 0 = 5 ∧
    b.blocks.length = 1 ∧ b.storage.totalBlocksCommitted = 1 := by
  obtain ⟨k₀, k₁, k₂, reply, request, updates, tree, h⟩ := exists_depositBlock_rebuilt
  obtain ⟨_, _, _, -, -, hk⟩ := ZkSyncStateKeeper.new_eq_ok h.new
  have hcurrent : k₀.currentUnprocessedPriorityOp = 0 := by
    rw [hk]
    rfl
  obtain ⟨publicData, s', hpublic, hcommit, hcommitted⟩ := commit_depositedOnce h.size h.ops 0 0 0
  -- the deposit
  let b₀ : Rollup := .start 0 k₀
  let e₁ : Event := ⟨.sample, depositMsg, .register (.depositETH 3), { requests := [(depositedOnce 0).2] }⟩
  let h₁ : QueueHistory := { requests := [(depositedOnce 0).2] }
  let b₁ := b₀.afterCall e₁ (depositedOnce 0).1 h₁
  have hcall : CallStep .sample b₀.storage e₁ (depositedOnce 0).1 :=
    Outcome.bind_eq_ok.mpr ⟨_, register_depositedOnce 0, rfl⟩
  have hdeposit : RollupStep .sample (Env.built 1 false) b₀ (.call e₁) b₁ :=
    .call trivial (by show (0 : UInt64).toNat + (0 : UInt64).toNat + 1 < 2 ^ 64; decide) hcall rfl
  -- its execution
  cases h.run with
  | cons hstep hrest =>
    cases hrest
    have hasked : b₁.Asked (.priorityOp ⟨0, .Deposit (sampleDeposit 3), 0, [], 0⟩) := by
      refine ⟨(depositedOnce 0).2, ?_, parsed_register (register_depositedOnce 0)⟩
      show [(depositedOnce 0).2][k₀.currentUnprocessedPriorityOp.toNat]? = _
      rw [hcurrent]
      rfl
    let e₂ : KeeperCall × KeeperReply :=
      (.priorityOp ⟨0, .Deposit (sampleDeposit 3), 0, [], 0⟩, reply)
    have hexecute : RollupStep .sample (Env.built 1 false) b₁ (.keeper e₂) (b₁.afterReply reply k₁) :=
      .keeper hasked hstep.1
    have hnone : b₁.afterReply reply k₁ = { b₁ with keeper := k₁ } :=
      Rollup.afterReply_unsealed hstep.2
    rw [hnone] at hexecute
    have hseal : RollupStep .sample (Env.built 1 false) { b₁ with keeper := k₁ }
        (.keeper (.sealBlock, .sealed request updates)) ({ b₁ with keeper := k₁ }.afterReply (.sealed request updates) k₂) :=
      .keeper trivial h.sealed
    -- its commitment
    let b₃ := { b₁ with keeper := k₁ }.afterReply (.sealed request updates) k₂
    let e₄ : Event := ⟨.sample, .sample, .commitBlock 1 0 [0]
      (commitDataOfBlock publicData request.block), {}⟩
    have hcall₄ : CallStep .sample b₃.storage e₄ s' := Outcome.bind_eq_ok.mpr ⟨s', hcommit, rfl⟩
    obtain ⟨h₄, hnext⟩ := b₃.history.exists_next hcall₄
    have hhonest : b₃.Honest e₄ := ⟨request.block, publicData, rfl, hpublic, rfl⟩
    have hlast : RollupStep .sample (Env.built 1 false) b₃ (.call e₄) (b₃.afterCall e₄ s' h₄) :=
      .call hhonest (by show (0 : UInt32).toNat + 1 < 2 ^ 32; decide) hcall₄ hnext
    exact ⟨k₀, _, _, h.new, .cons hdeposit (.cons hexecute (.cons hseal (.single hlast))), rfl, rfl,
      hcommitted⟩

/-- Of this deposit, nothing is lost. -/
theorem rollup_solvent_deposit : ∃ (k₀ : ZkSyncStateKeeper) (b : Rollup), b.Solvent (k₀.state.totalBalance 0) 0 ∧
    b.received 0 = 5 ∧ b.blocks.length = 1 ∧ b.storage.totalBlocksCommitted = 1 := by
  obtain ⟨k₀, tr, b, hnew, hrun, hreceived, hblocks, hcommitted⟩ := exists_rollup_deposit
  exact ⟨k₀, b, (rollup_solvent (noZeroSigner_built _) hnew hrun 0).1, hreceived, hblocks, hcommitted⟩

end ZkSync.Contract
