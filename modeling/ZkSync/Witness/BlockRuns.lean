import ZkSync.Witness.Commitment
import ZkSync.Witness.Fees

/-!
# Every sealed block has a witness

The tree of the witness builder shows the state in which a block was begun. However the
keeper goes on until it seals the block, the builder returns (`exists_blockWitness`): the
operations replay the state, the fees come to the same, and the root hash is that of the
block. Of the calls it is asked that deposits find the free id vacant; a keeper that was
restarted over ids with a gap may seal a block for which there is no witness
(`blockWitness_fails`).
-/

namespace ZkSync

open Circuit FloatConversions Smt SparseMerkleTree

/-! ## One block -/

section Block

variable {env : Env} {k : ZkSyncStateKeeper} {request : BlockCommitRequest}
  {updates : AppliedUpdatesRequest} {feeUpdates : AccountUpdates} {paid hashed : ZkSyncState}

/-- Noops fill the block. -/
theorem getEthPublicData_of_fits {block : Block} (hle : block.chunksUsed ≤ block.blockChunksSize)
    {data : Bytes} (hdata : publicDataOf block.executedOps = .ok data) :
    block.getEthPublicData =
      .ok (data ++ noopChunks (block.blockChunksSize - block.chunksUsed)) := by
  have hlen : data.length = block.chunksUsed * CHUNK_BYTES := length_publicDataOf hdata
  have hbytes : block.blockChunksSize * CHUNK_BIT_WIDTH / 8 = block.blockChunksSize * CHUNK_BYTES :=
    Nat.mul_div_assoc _ (by decide)
  have hle := Nat.mul_le_mul_right CHUNK_BYTES hle
  unfold Block.getEthPublicData
  rw [hdata, Outcome.ok_bind, hbytes, resize_eq (hlen ▸ hle), hlen, ← Nat.sub_mul]
  rfl

/-- The stages of the builder. -/
structure Stages (H : Hasher Fr) (sha256 : Bytes → BitVec 256) (tree : CircuitAccountTree)
    (block : Block) (b₀ : WitnessBuilder) (accum : BlockAccum) (executed : CircuitAccountTree)
    (b₁ b₂ w : WitnessBuilder) : Prop where
  begun : WitnessBuilder.new H tree block.feeAccount block.blockNumber = .ok b₀
  loop : witnessOperations H .empty b₀.accountTree block.executedOps = .ok (accum, executed)
  padded : ({ b₀ with accountTree := executed }.addOperationWithPubdata accum.operations
    accum.pubData).extendPubdataWithNoops block.blockChunksSize = .ok b₁
  pubdata : b₁.pubdata.length = CHUNK_BIT_WIDTH * block.blockChunksSize
  operations : b₁.operations.length = block.blockChunksSize
  paid : b₁.collectFees H accum.fees = .ok b₂
  root : b₂.rootAfterFees = some block.newRootHash
  commitment : b₂.calculatePubdataCommitment sha256 = .ok w

theorem buildBlockWitness_eq_ok {H : Hasher Fr} {sha256 : Bytes → BitVec 256}
    {tree : CircuitAccountTree} {block : Block} {w : WitnessBuilder} :
    buildBlockWitness H sha256 tree block = .ok w ↔
      ∃ b₀ accum executed b₁ b₂, Stages H sha256 tree block b₀ accum executed b₁ b₂ w := by
  unfold buildBlockWitness
  simp only [Outcome.bind_eq_ok, Outcome.assert_eq_ok, Outcome.expect_eq_ok]
  constructor
  · rintro ⟨b₀, hbegun, ⟨accum, executed⟩, hloop, b₁, hpadded, _, hpubdata, _, hoperations, b₂,
      hpaid, root, hroot, _, rfl, hcommitment⟩
    exact ⟨b₀, accum, executed, b₁, b₂, hbegun, hloop, hpadded, hpubdata, hoperations, hpaid, hroot,
      hcommitment⟩
  · rintro ⟨b₀, accum, executed, b₁, b₂, h⟩
    exact ⟨b₀, h.begun, (accum, executed), h.loop, b₁, h.padded, (), h.pubdata, (), h.operations, b₂,
      h.paid, _, h.root, (), rfl, h.commitment⟩

/-- What the builder gives for a block. -/
structure Witnessed (env : Env) (block : Block) (w : WitnessBuilder) : Prop where
  root : Prod.fst <$> SparseMerkleTree.rootHash (circuitParams env.hasher) w.accountTree =
    .ok block.newRootHash
  rootAfterFees : w.rootAfterFees = some block.newRootHash
  pubdata : w.pubdata.length = CHUNK_BIT_WIDTH * block.blockChunksSize
  operations : w.operations.length = block.blockChunksSize

theorem length_le_chunksOfOps (ops : List ZkSyncOp) : ops.length ≤ chunksOfOps ops := by
  induction ops with
  | nil => exact Nat.le_refl 0
  | cons op ops ih =>
    have hpos := ZkSyncOp.chunks_pos op
    unfold chunksOfOps at ih ⊢
    rw [List.map_cons, List.sum_cons, List.length_cons]
    omega

/-- The builder commits to the bytes that its bits come from. -/
theorem Circuit.WitnessBuilder.calculatePubdataCommitment_ok {b : WitnessBuilder}
    (sha256 : Bytes → BitVec 256) {data : Bytes} {root : Fr} (hpub : b.pubdata = fromBeBytes data)
    (hroot : b.rootAfterFees = some root) :
    ∃ commitment, b.calculatePubdataCommitment sha256 =
        .ok { b with pubdataCommitment := some commitment } ∧
      commitment.val = (commitmentHash sha256 b.blockNumber b.feeAccountId b.initialRootHash root
        data).toNat % 2 ^ 253 := by
  obtain ⟨commitment, hcommitment, hval⟩ := publicDataCommitment_ok sha256 b.blockNumber
    b.feeAccountId b.initialRootHash root data
  refine ⟨commitment, ?_, hval⟩
  unfold WitnessBuilder.calculatePubdataCommitment
  rw [hroot, hpub]
  simp only [Outcome.expect, Outcome.ok_bind, hcommitment]
  rfl

/-- What was executed in a sealed block, in chunks. -/
theorem chunksOfOps_of_sealed (hs : Sealed env k request updates feeUpdates paid hashed)
    (hfailed : ∀ tx ∈ k.pendingBlock.failedTxs, tx.op = none) :
    chunksOfOps k.pendingBlock.executedOps = request.block.chunksUsed := by
  rw [← executedOps_of_sealed hs hfailed]
  rfl

/-- The fees of the builder and those of the keeper. -/
theorem addFees_content (hs : Sealed env k request updates feeUpdates paid hashed) (id : AccountId) :
    (Function.update k.state.content k.feeAccountId ((k.state.content k.feeAccountId).addFees
      (⟨0, 0⟩ :: k.pendingBlock.collectedFees)) id).Equiv (paid.content id) := by
  obtain ⟨a, a', ha, hcredited, hpaid, -, -⟩ := collectFee_effect hs.fees
  rw [hpaid, ZkSyncState.content_insertAccount, ZkSyncState.content_of_getAccount ha]
  by_cases hid : id = k.feeAccountId
  · rw [hid, Function.update_self, Function.update_self]
    exact hcredited.equiv_addFees 0
  · rw [Function.update_of_ne hid, Function.update_of_ne hid]
    exact Account.Equiv.refl _

/-- The builder returns for a block that was sealed where its tree can follow. -/
theorem Rebuilt.witnessed {tree tree₁ : CircuitAccountTree} {hash : Fr}
    (hroot : SparseMerkleTree.rootHash (circuitParams env.hasher) tree = .ok (hash, tree₁))
    (h : Rebuilt env tree₁ k.state k.pendingBlock) (hhashed : Hashed env.hasher k.state)
    (hs : Sealed env k request updates feeUpdates paid hashed)
    (hsize : request.block.blockChunksSize < 2 ^ 64)
    (hfee : (tree₁.get k.feeAccountId.toNat).isSome) (sha256 : Bytes → BitVec 256) :
    ∃ w, buildBlockWitness env.hasher sha256 tree request.block = .ok w ∧
      Witnessed env request.block w := by
  have hops := executedOps_of_sealed hs h.failed
  have hchunks := chunksOfOps_of_sealed hs h.failed
  have hle := (smallestBlockSizeForChunks_eq_ok hs.size).2
  -- the block was sealed, so the accounts have leaves for their balances
  have hpaidHashed := (Step.collectFee hs.fees : Step env _ _ _).writes.hashed hhashed
  have hrootPaid : paid.root env.hasher = .ok request.block.newRootHash :=
    Outcome.map_eq_ok.mpr ⟨_, hs.root, rfl⟩
  have hfitPaid : AllFit paid := (allFit_iff_root hpaidHashed).mpr ⟨_, hrootPaid⟩
  have hfit : AllFit k.state := ((allFit_collectFee_iff hs.fees).mp hfitPaid).1
  have hlength := length_le_chunksOfOps k.pendingBlock.executedOps
  obtain ⟨accum, tree₂, hbuilt⟩ := h.built hfit (by omega)
  obtain ⟨data, hdata, hpubData⟩ := hbuilt.pubData
  have hused := hbuilt.operations.trans hchunks
  let begun : WitnessBuilder :=
    { accountTree := tree₁
      feeAccountId := request.block.feeAccount
      blockNumber := request.block.blockNumber
      initialRootHash := hash
      operations := []
      pubdata := []
      rootBeforeFees := none
      rootAfterFees := none
      feeAccountBalances := none
      feeAccountWitness := none
      pubdataCommitment := none }
  have hbegun : WitnessBuilder.new env.hasher tree request.block.feeAccount
      request.block.blockNumber = .ok begun := by
    unfold WitnessBuilder.new
    rw [hroot]
    rfl
  -- the padding
  let executed : WitnessBuilder :=
    { begun with accountTree := tree₂ }.addOperationWithPubdata accum.operations accum.pubData
  have hleaf : (executed.accountTree.get executed.feeAccountId.toNat).isSome := by
    show (tree₂.get request.block.feeAccount.toNat).isSome
    rw [hs.feeAccount]
    exact hbuilt.kept _ hfee
  obtain ⟨noops, hpadded, hnoops⟩ := WitnessBuilder.extendPubdataWithNoops_ok (b := executed) hleaf
    (hused.trans_le hle)
  have hoperations : (accum.operations ++ noops).length = request.block.blockChunksSize := by
    have hnoops : noops.length = request.block.blockChunksSize - accum.operations.length := hnoops
    rw [List.length_append, hnoops]
    omega
  have hpubdata : accum.pubData ++ fromBeBytes (noopChunks
      (request.block.blockChunksSize - accum.operations.length)) = fromBeBytes (data ++
        noopChunks (request.block.blockChunksSize - request.block.chunksUsed)) := by
    rw [hpubData, fromBeBytes_append, hused]
  have hlengthBits : (fromBeBytes (data ++ noopChunks (request.block.blockChunksSize -
      request.block.chunksUsed))).length = CHUNK_BIT_WIDTH * request.block.blockChunksSize := by
    rw [length_fromBeBytes, List.length_append, length_publicDataOf hdata, hchunks]
    unfold noopChunks
    rw [List.length_replicate]
    simp only [CHUNK_BIT_WIDTH, CHUNK_BYTES]
    omega
  -- the fees
  have hfees : ∀ fee ∈ accum.fees, HasLeaf fee.token ∧ fee.amount < u128Bound := by
    rw [hbuilt.fees]
    exact h.fees hfit
  obtain ⟨b₃, root, hcollected, hrootAfter, hops₃, hpub₃, hold₃, hfee₃, hnumber₃, hshows⟩ :=
    WitnessBuilder.collectFees_ok (b := { executed with
      operations := accum.operations ++ noops
      pubdata := accum.pubData ++ fromBeBytes (noopChunks
        (request.block.blockChunksSize - accum.operations.length)) })
      hbuilt.shows hleaf hfees
  have hcontent := addFees_content hs
  rw [← hbuilt.fees, ← hs.feeAccount] at hcontent
  obtain rfl : root = request.block.newRootHash :=
    Except.ok.inj ((hshows.root hpaidHashed hfitPaid hcontent).symm.trans hrootPaid)
  -- the commitment
  obtain ⟨commitment, hcommitted, -⟩ :=
    WitnessBuilder.calculatePubdataCommitment_ok sha256 (hpub₃.trans hpubdata) hrootAfter
  refine ⟨{ b₃ with pubdataCommitment := some commitment }, buildBlockWitness_eq_ok.mpr
    ⟨begun, accum, tree₂, _, b₃, hbegun, ?_, hpadded, ?_, hoperations, hcollected, hrootAfter,
      hcommitted⟩, ?_, hrootAfter, ?_, ?_⟩
  · rw [hops]
    exact hbuilt.loop
  · show (accum.pubData ++ fromBeBytes (noopChunks
      (request.block.blockChunksSize - accum.operations.length))).length = _
    rw [hpubdata]
    exact hlengthBits
  · rw [root_of_shows hpaidHashed hfitPaid (hshows.shows.equiv hcontent)]
    exact hrootPaid
  · show b₃.pubdata.length = _
    rw [hpub₃, hpubdata]
    exact hlengthBits
  · show b₃.operations.length = _
    rw [hops₃]
    exact hoperations

end Block

/-! ## Runs -/

section Runs

variable {env : Env} {k k' : ZkSyncStateKeeper}

theorem feeAccountId_step {e : KeeperCall × KeeperReply} (hstep : KeeperStep env k e k') :
    k'.feeAccountId = k.feeAccountId := by
  obtain ⟨call, reply⟩ := e
  have heff := hstep.effect
  dsimp only at heff
  have hcount : k.countIteration.feeAccountId = k.feeAccountId := by
    unfold ZkSyncStateKeeper.countIteration
    split <;> rfl
  cases heff with
  | full => rfl
  | priorityOp => rfl
  | tx => rfl
  | batch => rfl
  | sealed before hseal =>
    obtain ⟨_, _, _, _, _, -, -, -, rfl⟩ := sealPendingBlock_eq_ok hseal
    rcases before with ⟨-, rfl⟩ | ⟨-, rfl⟩
    · rfl
    · exact hcount
  | stored hstore =>
    obtain ⟨-, -, -, rfl⟩ := storePendingBlock_eq_ok hstore
    exact hcount

/-- What every keeper has that was started over accounts of these sizes. -/
structure Started (env : Env) (sizes : List Nat) (k : ZkSyncStateKeeper) : Prop where
  state : Maintained env k.state
  sizes : k.availableBlockChunkSizes = sizes

variable {accounts : AList fun _ : AccountId => Account} {n : BlockNumber} {unprocessed : UInt64}
  {feeAccountAddress : Address} {sizes : List Nat} {maxMini fastMini maxWithdrawals : Nat}
  {k₀ k₁ k₂ : ZkSyncStateKeeper}

theorem started_new (hnew : ZkSyncStateKeeper.new env (.fromAccMap env.hasher accounts n unprocessed)
    feeAccountAddress sizes maxMini fastMini maxWithdrawals = .ok k₀) : Started env sizes k₀ := by
  obtain ⟨blockNumber, feeAccountId, max, -, ⟨hash, hroot⟩, hk⟩ := ZkSyncStateKeeper.new_eq_ok hnew
  have hmap : Maintained env (ZkSyncState.fromAccMap env.hasher accounts n) :=
    ⟨indexed_fromAccMap env.hasher accounts n, hashed_fromAccMap env.hasher accounts n⟩
  have hloaded : Maintained env { ZkSyncState.fromAccMap env.hasher accounts n with
      blockNumber := blockNumber } := ⟨hmap.indexed, hmap.hashed⟩
  refine ⟨hloaded.writes (Step.rootHash hroot).writes, ?_⟩
  rw [hk]
  rfl

theorem Started.run {tr : List (KeeperCall × KeeperReply)} (hrun : Run (KeeperStep env) k tr k')
    (h : Started env sizes k) : Started env sizes k' :=
  hrun.invariant (fun _ _ _ h hstep => ⟨h.state.step hstep, (config_step hstep).1.trans h.sizes⟩) h

/-- A block is sealed, in any run: from the tree of the state in which it was begun, the
builder comes to its root hash, and to as many chunks as the block has. -/
theorem exists_blockWitness (hz : env.NoZeroSigner) (hsizes : ∀ size ∈ sizes, size < 2 ^ 64)
    (hnew : ZkSyncStateKeeper.new env (.fromAccMap env.hasher accounts n unprocessed)
      feeAccountAddress sizes maxMini fastMini maxWithdrawals = .ok k₀)
    {before : List (KeeperCall × KeeperReply)} (hbefore : Run (KeeperStep env) k₀ before k)
    {first : UInt64} {max : Nat} (hbegun : k.pendingBlock = PendingBlock.new first max)
    {tr : List (KeeperCall × KeeperReply)}
    (hrun : Run (fun k e k' => BlockStep env k e k' ∧ e.1.FreshDeposit k) k tr k₁)
    {call : KeeperCall} {request : BlockCommitRequest} {updates : AppliedUpdatesRequest}
    (hseal : KeeperStep env k₁ (call, .sealed request updates) k₂)
    {tree : CircuitAccountTree} (htree : TreeShows env.hasher 0 tree k.state.content)
    (hfee : (tree.get k.feeAccountId.toNat).isSome) (sha256 : Bytes → BitVec 256) :
    ∃ w, buildBlockWitness env.hasher sha256 tree request.block = .ok w ∧
      Witnessed env request.block w := by
  have hstarted := (started_new hnew).run hbefore
  -- the calls of the block are those since it began
  have hblock : Run (KeeperStep env) k tr k₁ := by
    exact Run.mono (I := fun _ => True) (fun _ _ _ _ _ => trivial)
      (fun _ _ _ _ hstep => hstep.1.step) hrun trivial
  have hstarted₁ := hstarted.run hblock
  have hfeeAccount : k₁.feeAccountId = k.feeAccountId :=
    hblock.invariant (I := fun k' => k'.feeAccountId = k.feeAccountId)
      (fun _ _ _ h hstep => (feeAccountId_step hstep).trans h) rfl
  obtain ⟨hash, tree₁, hroot, hshows, hget⟩ := htree.rootHash
  -- the builder has rebuilt the accounts of the pending block
  have hrebuilt : Rebuilt env tree₁ k.state k.pendingBlock := by
    rw [hbegun]
    exact rebuilt_new hshows first
  obtain ⟨-, hrebuilt₁⟩ := Rebuilt.run hz hrun hstarted.state hrebuilt
  have heff := hseal.effect
  dsimp only at heff
  cases heff with
  | @sealed _ _ _ k₃ _ before hseal =>
    have hk₃ : Rebuilt env tree₁ k₃.state k₃.pendingBlock ∧ k₃.state = k₁.state ∧
        k₃.feeAccountId = k₁.feeAccountId ∧
        k₃.availableBlockChunkSizes = k₁.availableBlockChunkSizes := by
      rcases before with ⟨-, rfl⟩ | ⟨-, rfl⟩
      · exact ⟨hrebuilt₁, rfl, rfl, rfl⟩
      · refine ⟨rebuilt_countIteration hrebuilt₁, state_countIteration k₁, ?_,
          (config_countIteration k₁).1⟩
        unfold ZkSyncStateKeeper.countIteration
        split <;> rfl
    obtain ⟨hrebuilt₃, hstate, hfeeAccount₃, hsizes₃⟩ := hk₃
    obtain ⟨feeUpdates, paid, hashed, _, _, hs, -⟩ := sealPendingBlock_eq_ok hseal
    have hmem := (smallestBlockSizeForChunks_eq_ok hs.size).1
    rw [hsizes₃, hstarted₁.sizes] at hmem
    refine hrebuilt₃.witnessed hroot (hstate ▸ hstarted₁.state.hashed) hs (hsizes _ hmem) ?_ sha256
    rw [hfeeAccount₃, hfeeAccount, hget]
    exact hfee

end Runs

/-! ## A deposit, and a deposit after a restart -/

/-- All balances are at most `bound`. -/
def BalancesWithin (bound : Nat) (s : ZkSyncState) : Prop :=
  ∀ id a token, s.getAccount id = some a → a.getBalance token ≤ bound

section Within

variable {bound : Nat} {s s' : ZkSyncState}

theorem BalancesWithin.below (h : BalancesWithin bound s) (hbound : bound < u128Bound) :
    BalancesBelow s := by
  intro id a token ha
  exact (h id a token ha).trans_lt hbound

theorem BalancesWithin.alike (h : BalancesWithin bound s) (halike : Alike s s') :
    BalancesWithin bound s' := by
  intro id a token ha
  obtain ⟨b, hb, hequiv⟩ := rel_some (halike.accounts id) ha
  rw [← hequiv.balance]
  exact h id b token hb

theorem BalancesWithin.insertAccount (h : BalancesWithin bound s) {a : Account}
    (ha : ∀ token, a.getBalance token ≤ bound) (id : AccountId) :
    BalancesWithin bound (s.insertAccount id a) := by
  intro id' b token hb
  rw [ZkSyncState.getAccount_insertAccount] at hb
  by_cases hid : id' = id
  · rw [hid, Function.update_self] at hb
    obtain rfl := Option.some.inj hb
    exact ha token
  · rw [Function.update_of_ne hid] at hb
    exact h id' b token hb

/-- A deposit adds its amount to one balance. -/
theorem BalancesWithin.deposit (h : BalancesWithin bound s) {op : Deposit} {r : OpSuccess}
    (heff : PriorityEffect s (.Deposit op) r s') : BalancesWithin (bound + op.amount) s' := by
  have hmore : BalancesWithin (bound + op.amount) s := by
    intro id a token ha
    exact (h id a token ha).trans (Nat.le_add_right _ _)
  have hadd : ∀ a : Account, (∀ token, a.getBalance token ≤ bound) → ∀ token,
      (a.addBalance op.token op.amount).getBalance token ≤ bound + op.amount := by
    intro a ha token
    unfold Account.addBalance
    rw [Account.getBalance_setBalance]
    split
    · have hle := ha op.token
      omega
    · exact (ha token).trans (Nat.le_add_right _ _)
  cases heff with
  | deposit _ _ account => exact hmore.insertAccount (hadd _ fun token => h _ _ token account) _
  | depositToNew =>
    refine hmore.insertAccount (hadd _ fun token => ?_) _
    exact Nat.zero_le bound

end Within

/-- The step of a deposit, over balances of ten units at most. -/
theorem blockStep_deposit {env : Env} {k k' : ZkSyncStateKeeper} {toAddress : Address}
    {reply : KeeperReply}
    (h : KeeperStep env k
      (.priorityOp ⟨0, .Deposit (sampleDeposit toAddress), 0, [], 0⟩, reply) k')
    (hwithin : BalancesWithin 10 k.state) :
    BlockStep env k
      (.priorityOp ⟨0, .Deposit (sampleDeposit toAddress), 0, [], 0⟩, reply) k' := by
  have hunsealed : ¬ reply.IsSealed := by
    rcases h.entry trivial with rfl | ⟨ops, rfl⟩ <;> exact id
  have hafter : BalancesWithin 15 k'.state := by
    have heff := h.effect
    dsimp only at heff
    cases heff with
    | full =>
      intro id a token ha
      exact (hwithin id a token ha).trans (by decide)
    | priorityOp _ _ _ executed => exact hwithin.deposit (executePriorityOp_effect executed)
    | sealed before =>
      rcases before with ⟨hcall, -⟩ | ⟨hcall, -⟩ <;> cases hcall
  exact ⟨h, hunsealed, trivial, hwithin.below (by decide), hafter.below (by decide)⟩

theorem balance_sampleAccount (token : TokenId) : sampleAccount.getBalance token ≤ 10 := by
  unfold Account.getBalance sampleAccount
  dsimp only
  by_cases ht : token = 0
  · rw [ht, Finmap.lookup_singleton_eq]
    decide
  · rw [Finmap.lookup_eq_none.mpr fun hmem => ht (Finmap.mem_singleton _ _ _ |>.mp hmem)]
    decide

/-- A keeper started over accounts of ten units at most seals a deposit into a block. -/
theorem exists_depositBlock {accounts : AList fun _ : AccountId => Account}
    (hfits : ∀ id a, accounts.lookup id = some a → a.Fits)
    (hwithin : ∀ id a token, accounts.lookup id = some a → a.getBalance token ≤ 10)
    (hnew : ZkSyncStateKeeper.NewOk (Env.built 1 false)
      (.fromAccMap (Env.built 1 false).hasher accounts 0 0) 1 [6, 30] 1 0 30)
    (toAddress : Address) (id : AccountId)
    (hanswers : (((ZkSyncStateKeeper.unhashed (.fromAccMap (Env.built 1 false).hasher accounts 0 0)
      1 0 30 [6, 30] 10 2 5).answers (Env.built 1 false)
        [.priorityOp ⟨0, .Deposit (sampleDeposit toAddress), 0, [], 0⟩]).toOption.map fun r =>
      r.2.sealable && (decide (r.2.pendingBlock.failedTxs = []) &&
        decide (r.2.pendingBlock.executedOps = [.Deposit ⟨sampleDeposit toAddress, id⟩]))) =
          some true) :
    ∃ k₀ k₁ k₂ reply request updates,
      ZkSyncStateKeeper.new (Env.built 1 false)
        (.fromAccMap (Env.built 1 false).hasher accounts 0 0) 1 [6, 30] 10 2 5 = .ok k₀ ∧
      Alike { ZkSyncState.fromAccMap (Env.built 1 false).hasher accounts 0 with blockNumber := 1 }
        k₀.state ∧
      k₀.pendingBlock = PendingBlock.new 0 30 ∧ k₀.feeAccountId = 0 ∧
      BlockStep (Env.built 1 false) k₀
        (.priorityOp ⟨0, .Deposit (sampleDeposit toAddress), 0, [], 0⟩, reply) k₁ ∧
      KeeperStep (Env.built 1 false) k₁ (.sealBlock, .sealed request updates) k₂ ∧
      request.block.executedOps = [.Deposit ⟨sampleDeposit toAddress, id⟩] := by
  obtain ⟨k₀, hk₀, halike, hhashable⟩ := Hashable.exists_new 10 2 5 hfits hnew
  have hentry : ∀ call ∈ [KeeperCall.priorityOp ⟨0, .Deposit (sampleDeposit toAddress), 0, [], 0⟩],
      call.IsEntry := by
    intro call hcall
    rw [List.mem_singleton.mp hcall]
    exact trivial
  have htok : ∀ call ∈ [KeeperCall.priorityOp ⟨0, .Deposit (sampleDeposit toAddress), 0, [], 0⟩],
      call.FeeTokenOk := by
    intro call hcall
    rw [List.mem_singleton.mp hcall]
    exact trivial
  obtain ⟨tr, k₁, request, updates, k₂, hanswers, hblock, hseal⟩ :=
    exists_sealed_computed (f := fun p => decide (p.failedTxs = []) && decide
      (p.executedOps = [.Deposit ⟨sampleDeposit toAddress, id⟩])) halike hhashable rfl hentry htok
      hanswers
  obtain ⟨reply, -, hstep⟩ := answers_single hanswers
  simp only [Bool.and_eq_true, decide_eq_true_eq] at hblock
  obtain ⟨hfailed, hops⟩ := hblock
  obtain ⟨_, _, _, _, _, hs, -⟩ := sealPendingBlock_eq_ok hseal
  have hstate : BalancesWithin 10 { ZkSyncState.fromAccMap (Env.built 1 false).hasher accounts 0 with
      blockNumber := 1 } := by
    intro id a token ha
    refine hwithin id a token ?_
    rw [← getAccount_fromAccMap (Env.built 1 false).hasher accounts 0]
    exact ha
  have hrest : k₀ = _ := halike.rest
  refine ⟨k₀, k₁, k₂, reply, request, updates, hk₀, halike.state, ?_, ?_,
    blockStep_deposit hstep (hstate.alike halike.state), sealStep hseal, ?_⟩
  · rw [hrest]
    rfl
  · rw [hrest]
    rfl
  · refine (executedOps_of_sealed hs ?_).trans hops
    rw [hfailed]
    exact fun _ htx => absurd htx List.not_mem_nil

/-- The accounts of a keeper that was started over a map. -/
theorem content_of_loaded {H : Hasher Fr} {accounts : AList fun _ : AccountId => Account}
    {n blockNumber : BlockNumber} {s : ZkSyncState} (halike : Alike
      { ZkSyncState.fromAccMap H accounts n with blockNumber := blockNumber } s) (id : AccountId) :
    ((accounts.lookup id).getD Account.default).Equiv (s.content id) := by
  have hrel := halike.accounts id
  have hget : ZkSyncState.getAccount { ZkSyncState.fromAccMap H accounts n with
      blockNumber := blockNumber } id = accounts.lookup id := getAccount_fromAccMap H accounts n id
  rw [hget] at hrel
  unfold ZkSyncState.content
  generalize s.getAccount id = o, accounts.lookup id = o' at hrel ⊢
  cases hrel with
  | none => exact Account.Equiv.refl _
  | some hequiv => exact hequiv

/-- A deposit that creates an account has a witness. -/
theorem exists_blockWitness_deposit : ∃ k₀ k₁ k₂ reply request updates tree w,
    ZkSyncStateKeeper.new (Env.built 1 false)
      (.fromAccMap (Env.built 1 false).hasher sampleStored 0 0) 1 [6, 30] 10 2 5 = .ok k₀ ∧
    BlockStep (Env.built 1 false) k₀
      (.priorityOp ⟨0, .Deposit (sampleDeposit 3), 0, [], 0⟩, reply) k₁ ∧
    KeeperStep (Env.built 1 false) k₁ (.sealBlock, .sealed request updates) k₂ ∧
    request.block.executedOps = [.Deposit ⟨sampleDeposit 3, 1⟩] ∧
    loadAccountTree (Env.built 1 false).hasher sampleStored = .ok tree ∧
    buildBlockWitness (Env.built 1 false).hasher (fun _ => 0) tree request.block = .ok w ∧
    Witnessed (Env.built 1 false) request.block w := by
  have hfits : ∀ id a, sampleStored.lookup id = some a → a.Fits := by
    intro id a ha
    exact fits_singleton fits_sampleAccount ha
  have hwithin : ∀ id a token, sampleStored.lookup id = some a → a.getBalance token ≤ 10 := by
    intro id a token ha
    cases List.mem_singleton.mp (List.of_mem_dlookup ha)
    exact balance_sampleAccount token
  obtain ⟨k₀, k₁, k₂, reply, request, updates, hnew, halike, hbegun, hfeeAccount, hstep, hseal,
    hops⟩ := exists_depositBlock hfits hwithin
      ⟨by decide, by decide, rfl, ⟨sampleAccount, rfl⟩, rfl⟩ 3 1 (by decide +kernel)
  obtain ⟨tree, hload, hshows, hleaves⟩ :=
    loadAccountTree_shows (H := (Env.built 1 false).hasher) hfits
  have hfree : k₀.state.getAccount k₀.state.getFreeAccountId = none := by
    have hid : k₀.state.getFreeAccountId = 1 := halike.freeId
    have hrel := halike.accounts 1
    rw [hid]
    generalize k₀.state.getAccount 1 = o at hrel
    cases hrel with
    | none => rfl
  have hsizes : ∀ size ∈ [6, 30], size < 2 ^ 64 := by decide
  have hsafe : BlockStep (Env.built 1 false) k₀
      (.priorityOp ⟨0, .Deposit (sampleDeposit 3), 0, [], 0⟩, reply) k₁ ∧
      KeeperCall.FreshDeposit k₀ (.priorityOp ⟨0, .Deposit (sampleDeposit 3), 0, [], 0⟩) :=
    ⟨hstep, fun _ => hfree⟩
  obtain ⟨w, hw, hwitnessed⟩ := exists_blockWitness (noZeroSigner_built _) hsizes hnew (.nil k₀) hbegun
    (Run.single hsafe) hseal (hshows.equiv (content_of_loaded halike))
    (by rw [hfeeAccount]; exact hleaves 0 rfl) (fun _ => 0)
  exact ⟨k₀, k₁, k₂, reply, request, updates, tree, w, hnew, hstep, hseal, hops, hload, hw, hwitnessed⟩

/-- The builder wants the address of the deposit in the leaf, or none. -/
theorem depositWitness_panics {H : Hasher Fr} {n : Nat} {tree : CircuitAccountTree}
    {m : AccountId → Account} (h : TreeShows H n tree m) (op : DepositOp)
    (hamount : op.priorityOp.amount < u128Bound) (htoken : HasLeaf op.priorityOp.token)
    (haddress : Fr.fromNat (m op.accountId).address.toNat ≠ ethAddressToFr op.priorityOp.toAddress)
    (hzero : Fr.fromNat (m op.accountId).address.toNat ≠ Fr.fromNat 0) :
    ∃ message, DepositWitness.applyTx H tree op = .error (.panic message) := by
  obtain ⟨subtree, -, herror, -⟩ := applyLeafOperation_eq h.ok op.accountId
    (fun acc => do
      Outcome.assert (acc.address = ethAddressToFr op.priorityOp.toAddress ∨
        acc.address = Fr.fromNat 0)
        "assertion failed: (acc.address == deposit.address) || (acc.address == Fr::zero())"
      return { acc with address := ethAddressToFr op.priorityOp.toAddress })
    (fun bal => bal + Fr.fromNat op.priorityOp.amount) htoken
  have hleaf : (accountAt H tree op.accountId).address = Fr.fromNat (m op.accountId).address.toNat :=
    (h.accounts op.accountId).address
  have hfails := herror (.panic
    "assertion failed: (acc.address == deposit.address) || (acc.address == Fr::zero())") (by
      have hnot : ¬ ((accountAt H tree op.accountId).address =
          ethAddressToFr op.priorityOp.toAddress ∨
            (accountAt H tree op.accountId).address = Fr.fromNat 0) := by
        rw [hleaf]
        exact not_or.mpr ⟨haddress, hzero⟩
      unfold Outcome.assert
      rw [if_neg hnot]
      rfl)
  refine ⟨"assertion failed: (acc.address == deposit.address) || (acc.address == Fr::zero())", ?_⟩
  unfold DepositWitness.applyTx
  rw [unwrapU128_ok hamount, assertCapacity_ok h.ok]
  simp only [Outcome.ok_bind, hfails]
  rfl

/-- After the restart with the ids 0 and 2 a deposit to address 4 credits the account of
address 3, the block is sealed, and the builder panics. -/
theorem blockWitness_fails :
    Run (ServerStep (Env.built 1 false))
      ⟨ZkSyncState.fromAccMap (Env.built 1 false).hasher sampleStored 0, sampleStored.toFinmap⟩
      [some (.batch sampleBatch
          (List.replicate 2 (.error (batchErrorMsg 1 "Nonce mismatch")))),
        some (.priorityOp (.Deposit (sampleDeposit 3)) sampleDepositSuccess), none]
      ⟨ZkSyncState.fromAccMap (Env.built 1 false).hasher sampleStoredAfter 0,
        sampleStoredAfter.toFinmap⟩ ∧
    ∃ k₀ k₁ k₂ reply request updates tree,
      ZkSyncStateKeeper.new (Env.built 1 false)
        (.fromAccMap (Env.built 1 false).hasher sampleStoredAfter 0 0) 1 [6, 30] 10 2 5 = .ok k₀ ∧
      BlockStep (Env.built 1 false) k₀
        (.priorityOp ⟨0, .Deposit (sampleDeposit 4), 0, [], 0⟩, reply) k₁ ∧
      KeeperStep (Env.built 1 false) k₁ (.sealBlock, .sealed request updates) k₂ ∧
      loadAccountTree (Env.built 1 false).hasher sampleStoredAfter = .ok tree ∧
      TreeShows (Env.built 1 false).hasher 0 tree k₀.state.content ∧
      (tree.get k₀.feeAccountId.toNat).isSome ∧
      ∀ sha256, ∃ message,
        buildBlockWitness (Env.built 1 false).hasher sha256 tree request.block =
          .error (.panic message) := by
  have hbatch : sampleState.executeTxsBatch (Env.built 1 false) sampleBatch =
      .ok (List.replicate 2 (.error (batchErrorMsg 1 "Nonce mismatch")), sampleStateUndone) := rfl
  have hdeposit : sampleStateUndone.executePriorityOp (.Deposit (sampleDeposit 3)) =
      .ok (sampleDepositSuccess, sampleStateUndone.insertAccount 2 (sampleDeposited 3)) := rfl
  refine ⟨.cons (.step (.batch hbatch)) (.cons (.step (.priorityOp hdeposit))
    (.cons (.restart 0 rfl) (.nil _))), ?_⟩
  have hcases : ∀ id a, sampleStoredAfter.lookup id = some a →
      a = sampleDeposited 3 ∨ a = sampleAccount := by
    intro id a ha
    have hmem := List.of_mem_dlookup ha
    simp only [sampleStoredAfter, List.mem_cons, List.not_mem_nil, or_false] at hmem
    rcases hmem with hmem | hmem <;> cases hmem
    · exact Or.inl rfl
    · exact Or.inr rfl
  have hfits : ∀ id a, sampleStoredAfter.lookup id = some a → a.Fits := by
    intro id a ha
    rcases hcases id a ha with rfl | rfl
    · exact (Account.Fits.default 3).addBalance (show (0 : TokenId).toNat < 2 ^ balanceTreeDepth by
        decide) 5
    · exact fits_sampleAccount
  have hwithin : ∀ id a token, sampleStoredAfter.lookup id = some a → a.getBalance token ≤ 10 := by
    intro id a token ha
    rcases hcases id a ha with rfl | rfl
    · show ((Account.defaultWithAddress 3).setBalance 0 5).getBalance token ≤ 10
      rw [Account.getBalance_setBalance]
      split
      · decide
      · exact Nat.zero_le 10
    · exact balance_sampleAccount token
  obtain ⟨k₀, k₁, k₂, reply, request, updates, hnew, halike, -, hfeeAccount, hstep, hseal, hops⟩ :=
    exists_depositBlock hfits hwithin
      ⟨by decide, by decide, rfl, ⟨sampleAccount, rfl⟩, rfl⟩ 4 2 (by decide +kernel)
  obtain ⟨tree, hload, hshows, hleaves⟩ :=
    loadAccountTree_shows (H := (Env.built 1 false).hasher) hfits
  refine ⟨k₀, k₁, k₂, reply, request, updates, tree, hnew, hstep, hseal, hload,
    hshows.equiv (content_of_loaded halike), by rw [hfeeAccount]; exact hleaves 0 rfl, fun sha256 => ?_⟩
  obtain ⟨hash, tree₁, hroot, hshows₁, -⟩ := hshows.rootHash
  obtain ⟨message, hpanics⟩ := depositWitness_panics hshows₁ ⟨sampleDeposit 4, 2⟩
    (by decide) (show (0 : TokenId).toNat < 2 ^ balanceTreeDepth by decide) (by decide +kernel)
    (by decide +kernel)
  refine ⟨message, ?_⟩
  unfold buildBlockWitness
  dsimp only
  unfold WitnessBuilder.new
  rw [hroot, hops]
  simp only [Outcome.ok_bind, Outcome.pure_eq, witnessOperations, witnessOperation, hpanics]
  rfl

end ZkSync
