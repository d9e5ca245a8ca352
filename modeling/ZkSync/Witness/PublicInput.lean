import ZkSync.Contract.Agreement
import ZkSync.Contract.Effects
import ZkSync.Core.BlockOps
import ZkSync.Witness.BlockRuns
import ZkSync.Witness.Nonces

/-!
# One public input on all sides

The builder writes the public data of a block as bits and commits to them; the server
sends the bytes to the contract, which commits to these in its own way. For every block
that the keeper seals and the builder returns for, the two public inputs are the same
(`publicInput_agrees`), down to the bits of every operation (`operationBits_agree`).
Unlike the root hash, this needs nothing of the balances or of the deposits: a builder
that came so far wrote the bits that it should.
-/

namespace ZkSync

open Circuit FloatConversions

/-! ## The builder after its loop -/

namespace Circuit.WitnessBuilder

variable {H : Hasher Fr} {b b' : WitnessBuilder}

/-- What the padding leaves as it was. -/
theorem addNoops_eq_ok {count : Nat} (h : b.addNoops count = .ok b') :
    b'.pubdata = b.pubdata ++ fromBeBytes (noopChunks count) ∧
      b'.initialRootHash = b.initialRootHash ∧ b'.feeAccountId = b.feeAccountId ∧
      b'.blockNumber = b.blockNumber := by
  induction count generalizing b with
  | zero =>
    cases h
    exact ⟨(List.append_nil _).symm, rfl, rfl, rfl⟩
  | succ count ih =>
    unfold addNoops at h
    obtain ⟨noop, -, h⟩ := Outcome.bind_eq_ok.mp h
    obtain ⟨hpubdata, hroot, hfee, hnumber⟩ := ih h
    refine ⟨?_, hroot, hfee, hnumber⟩
    have hbits : List.replicate CHUNK_BIT_WIDTH false ++ fromBeBytes (noopChunks count) =
        fromBeBytes (noopChunks (count + 1)) := by
      unfold noopChunks
      rw [fromBeBytes_replicate, fromBeBytes_replicate, List.replicate_append_replicate]
      congr 1
      simp only [CHUNK_BIT_WIDTH, CHUNK_BYTES]
      omega
    rw [hpubdata, ← hbits, ← List.append_assoc]
    rfl

theorem extendPubdataWithNoops_eq_ok {size : Nat} (h : b.extendPubdataWithNoops size = .ok b') :
    b'.pubdata = b.pubdata ++ fromBeBytes (noopChunks (size - b.operations.length)) ∧
      b'.initialRootHash = b.initialRootHash ∧ b'.feeAccountId = b.feeAccountId ∧
      b'.blockNumber = b.blockNumber := by
  unfold extendPubdataWithNoops at h
  obtain ⟨_, -, h⟩ := Outcome.bind_eq_ok.mp h
  exact addNoops_eq_ok h

theorem collectFees_eq_ok {fees : List CollectedFee} (h : b.collectFees H fees = .ok b') :
    b'.pubdata = b.pubdata ∧ b'.initialRootHash = b.initialRootHash ∧
      b'.feeAccountId = b.feeAccountId ∧ b'.blockNumber = b.blockNumber := by
  unfold collectFees at h
  simp only [Outcome.bind_eq_ok] at h
  obtain ⟨_, -, _, -, _, -, _, -, h⟩ := h
  cases h
  exact ⟨rfl, rfl, rfl, rfl⟩

end Circuit.WitnessBuilder

section Stages

variable {H : Hasher Fr} {ext : Contract.Externals} {tree executed : CircuitAccountTree}
  {block : Block} {b₀ b₁ b₂ w : WitnessBuilder} {accum : BlockAccum} {data : Bytes}

/-- The public input of a builder whose loop wrote the bits of the public data. -/
theorem Stages.publicInput (h : Stages H ext.sha256 tree block b₀ accum executed b₁ b₂ w)
    (hle : block.chunksUsed ≤ block.blockChunksSize)
    (hdata : publicDataOf block.executedOps = .ok data) (hbits : accum.pubData = fromBeBytes data)
    (hcount : accum.operations.length = block.chunksUsed) :
    ∃ publicData commitment, block.getEthPublicData = .ok publicData ∧
      w.pubdata = fromBeBytes publicData ∧ w.pubdataCommitment = some commitment ∧
      commitment.val = (Contract.createBlockCommitment ext block.blockNumber block.feeAccount
        w.initialRootHash.toWord block.newRootHash.toWord publicData &&&
          Contract.inputMask).toNat := by
  have hbegun := h.begun
  unfold WitnessBuilder.new at hbegun
  simp only [Outcome.bind_eq_ok] at hbegun
  obtain ⟨⟨hash, tree₀⟩, -, hbegun⟩ := hbegun
  cases hbegun
  obtain ⟨hpadded, hroot₁, hfee₁, hnumber₁⟩ :=
    WitnessBuilder.extendPubdataWithNoops_eq_ok h.padded
  obtain ⟨hpaid, hroot₂, hfee₂, hnumber₂⟩ := WitnessBuilder.collectFees_eq_ok h.paid
  let publicData := data ++ noopChunks (block.blockChunksSize - block.chunksUsed)
  have hpubdata : b₂.pubdata = fromBeBytes publicData := by
    rw [hpaid, hpadded, fromBeBytes_append, ← hbits, ← hcount]
    rfl
  obtain ⟨commitment, hcommitted, hval⟩ := publicDataCommitment_eq ext block.blockNumber
    block.feeAccount b₂.initialRootHash block.newRootHash publicData
  have hcommitment := h.commitment
  unfold WitnessBuilder.calculatePubdataCommitment at hcommitment
  have hfee : b₂.feeAccountId = block.feeAccount := hfee₂.trans hfee₁
  have hnumber : b₂.blockNumber = block.blockNumber := hnumber₂.trans hnumber₁
  rw [h.root, hpubdata, hfee, hnumber] at hcommitment
  simp only [Outcome.expect, Outcome.ok_bind, hcommitted] at hcommitment
  cases hcommitment
  exact ⟨publicData, commitment, getEthPublicData_of_fits hle hdata, rfl, rfl, hval⟩

end Stages

/-- What the contract commits to when it accepts a block. -/
theorem Contract.commitBlock_commitment {ext : Contract.Externals} {governance : Contract.Governance}
    {msg : Contract.Msg} {s s' : Contract.Storage} {number feeAccount : UInt32}
    {newRoot : Contract.Bytes32} {block : Contract.CommitData}
    (h : Contract.commitBlock ext governance msg s number feeAccount [newRoot] block = .ok s') :
    (s'.blocks number).commitment = Contract.createBlockCommitment ext number feeAccount
      (s.blocks (number - 1)).stateRoot newRoot block.publicData := by
  unfold Contract.commitBlock at h
  simp only [Outcome.bind_eq_ok] at h
  obtain ⟨_, -, _, -, _, -, _, -, _, -, ⟨hash, s₁⟩, hcollect, s₂, hcreate, h⟩ := h
  obtain ⟨_, _, -, -, rfl⟩ := Contract.collectOnchainOps_spec hcollect
  unfold Contract.createCommittedBlock at hcreate
  simp only [Outcome.bind_eq_ok] at hcreate
  obtain ⟨_, -, _, -, hcreate⟩ := hcreate
  cases hcreate
  cases h
  dsimp only
  rw [Function.update_self]
  rfl

/-! ## Runs -/

section Runs

variable {env : Env} {accounts : AList fun _ : AccountId => Account} {n : BlockNumber}
  {unprocessed : UInt64} {feeAccountAddress : Address} {sizes : List Nat}
  {maxMini fastMini maxWithdrawals : Nat} {k₀ k k₁ k₂ : ZkSyncStateKeeper}

/-- A block is sealed, in any run, and a tree shows the state in which it was begun: the
key changes of the block declare the nonces that the builder finds in the tree. -/
theorem declared_of_run (hz : env.NoZeroSigner) (hsizes : ∀ size ∈ sizes, size < 2 ^ 64)
    (hnew : ZkSyncStateKeeper.new env (.fromAccMap env.hasher accounts n unprocessed)
      feeAccountAddress sizes maxMini fastMini maxWithdrawals = .ok k₀)
    {before : List (KeeperCall × KeeperReply)} (hbefore : Run (KeeperStep env) k₀ before k)
    {first : UInt64} {max : Nat} (hbegun : k.pendingBlock = PendingBlock.new first max)
    {tr : List (KeeperCall × KeeperReply)}
    (hrun : Run (fun k e k' => KeeperStep env k e k' ∧ ¬ e.2.IsSealed) k tr k₁)
    {call : KeeperCall} {request : BlockCommitRequest} {updates : AppliedUpdatesRequest}
    (hseal : KeeperStep env k₁ (call, .sealed request updates) k₂)
    {tree : CircuitAccountTree} (htree : TreeShows env.hasher 0 tree k.state.content) :
    Declared env.hasher tree request.block.executedOps ∧
      request.block.chunksUsed ≤ request.block.blockChunksSize := by
  have hstarted := (started_new hnew).run hbefore
  -- the calls of the block are those since it began
  have hblock : Run (KeeperStep env) k tr k₁ := by
    exact Run.mono (I := fun _ => True) (fun _ _ _ _ _ => trivial)
      (fun _ _ _ _ hstep => hstep.1) hrun trivial
  have hstarted₁ := hstarted.run hblock
  -- the nonces are followed from the beginning of the block on
  have hkept := noncesFollow_kept hz tree
  have hstart : WithinBlock (fun s ops _ => NoncesFollow env.hasher tree s ops) k := by
    refine ⟨hstarted.state.indexed, ?_, ?_⟩
    · rw [hbegun]
      exact fun _ htx => absurd htx List.not_mem_nil
    · rw [hbegun]
      exact noncesFollow_nil htree
  have hend := hkept.run hz hrun hstart
  have heff := hseal.effect
  dsimp only at heff
  cases heff with
  | @sealed _ _ _ k₃ _ before hseal =>
    have hk₃ : WithinBlock (fun s ops _ => NoncesFollow env.hasher tree s ops) k₃ ∧
        k₃.availableBlockChunkSizes = k₁.availableBlockChunkSizes := by
      rcases before with ⟨-, rfl⟩ | ⟨-, rfl⟩
      · exact ⟨hend, rfl⟩
      · exact ⟨hend.same (state_countIteration k₁) (sameExecuted_countIteration k₁),
          (config_countIteration k₁).1⟩
    obtain ⟨hend₃, hsizes₃⟩ := hk₃
    obtain ⟨feeUpdates, paid, hashed, _, _, hs, -⟩ := sealPendingBlock_eq_ok hseal
    obtain ⟨hmem, hle⟩ := smallestBlockSizeForChunks_eq_ok hs.size
    rw [hsizes₃, hstarted₁.sizes] at hmem
    have hlt := hsizes _ hmem
    have hops := executedOps_of_sealed hs hend₃.failed
    have hchunks := chunksOfOps_of_sealed hs hend₃.failed
    have hlength := length_le_chunksOfOps k₃.pendingBlock.executedOps
    rw [hops]
    exact ⟨hend₃.rel.declared (by omega), hle⟩

/-- Whatever operation of a block comes next, if its key changes declare the nonces that the
builder finds. -/
theorem Declared.operationBits {H : Hasher Fr} {tree tree₁ tree₂ : CircuitAccountTree}
    {front back : List ZkSyncOp} {op : ZkSyncOp} (h : Declared H tree (front ++ op :: back))
    {accum added : BlockAccum} (hfront : witnessOperations H .empty tree front = .ok (accum, tree₁))
    (hround : witnessOperation H tree₁ op = .ok (added, tree₂)) {data : Bytes}
    (hdata : op.publicData = .ok data) :
    added.pubData = fromBeBytes data ∧ added.operations.length = op.chunks := by
  obtain ⟨hop, hnonce, -⟩ := h.drop hfront
  refine witnessOperation_pubData ?_ hnonce hdata hround
  rintro rfl
  exact hop

/-- The whole block, if it has room for its operations. -/
theorem publicInput_of_declared {H : Hasher Fr} {m : AccountId → Account} {block : Block}
    {tree : CircuitAccountTree} (htree : TreeShows H 0 tree m)
    (hdeclared : ∀ tree₁, TreeShows H 0 tree₁ m →
      Declared H tree₁ block.executedOps ∧ block.chunksUsed ≤ block.blockChunksSize)
    (ext : Contract.Externals) {w : WitnessBuilder}
    (hw : buildBlockWitness H ext.sha256 tree block = .ok w) {data : Bytes}
    (hdata : block.getEthPublicData = .ok data) :
    w.pubdata = fromBeBytes data ∧ ∃ commitment, w.pubdataCommitment = some commitment ∧
      commitment.val = (Contract.createBlockCommitment ext block.blockNumber block.feeAccount
        w.initialRootHash.toWord block.newRootHash.toWord data &&& Contract.inputMask).toNat := by
  obtain ⟨b₀, accum, executed, b₁, b₂, hstages⟩ := buildBlockWitness_eq_ok.mp hw
  have hbegun₀ := hstages.begun
  unfold WitnessBuilder.new at hbegun₀
  simp only [Outcome.bind_eq_ok] at hbegun₀
  obtain ⟨⟨hash, tree₀⟩, hroot, hbegun₀⟩ := hbegun₀
  obtain ⟨_, _, hroot', hshows, -⟩ := htree.rootHash
  obtain ⟨rfl, rfl⟩ := Prod.mk.inj (Except.ok.inj (hroot.symm.trans hroot'))
  obtain ⟨hdeclared, hle⟩ := hdeclared _ hshows
  have hloop := hstages.loop
  have htree₀ : b₀.accountTree = tree₀ := by
    cases hbegun₀
    rfl
  rw [htree₀] at hloop
  obtain ⟨executedData, hexecuted, hresize⟩ := Outcome.bind_eq_ok.mp hdata
  obtain ⟨hbits, hcount⟩ := hdeclared.pubData hloop hexecuted
  obtain ⟨publicData, commitment, hpublicData, hpubdata, hcommitment, hval⟩ :=
    hstages.publicInput hle hexecuted hbits (hcount.trans (Nat.zero_add _))
  obtain rfl : publicData = data := Except.ok.inj (hpublicData.symm.trans hdata)
  exact ⟨hpubdata, commitment, hcommitment, hval⟩

/-- Whatever operation of a sealed block comes next: the bits that the builder writes for
it are those of its public data, and it adds an operation for each of its chunks. -/
theorem operationBits_agree (hz : env.NoZeroSigner) (hsizes : ∀ size ∈ sizes, size < 2 ^ 64)
    (hnew : ZkSyncStateKeeper.new env (.fromAccMap env.hasher accounts n unprocessed)
      feeAccountAddress sizes maxMini fastMini maxWithdrawals = .ok k₀)
    {before : List (KeeperCall × KeeperReply)} (hbefore : Run (KeeperStep env) k₀ before k)
    {first : UInt64} {max : Nat} (hbegun : k.pendingBlock = PendingBlock.new first max)
    {tr : List (KeeperCall × KeeperReply)}
    (hrun : Run (fun k e k' => KeeperStep env k e k' ∧ ¬ e.2.IsSealed) k tr k₁)
    {call : KeeperCall} {request : BlockCommitRequest} {updates : AppliedUpdatesRequest}
    (hseal : KeeperStep env k₁ (call, .sealed request updates) k₂)
    {tree tree₁ tree₂ : CircuitAccountTree} (htree : TreeShows env.hasher 0 tree k.state.content)
    {front back : List ZkSyncOp} {op : ZkSyncOp}
    (hops : request.block.executedOps = front ++ op :: back) {accum added : BlockAccum}
    (hfront : witnessOperations env.hasher .empty tree front = .ok (accum, tree₁))
    (hround : witnessOperation env.hasher tree₁ op = .ok (added, tree₂)) {data : Bytes}
    (hdata : op.publicData = .ok data) :
    added.pubData = fromBeBytes data ∧ added.operations.length = op.chunks := by
  obtain ⟨hdeclared, -⟩ := declared_of_run hz hsizes hnew hbefore hbegun hrun hseal htree
  rw [hops] at hdeclared
  exact hdeclared.operationBits hfront hround hdata

end Runs

/-- Only sealing moves on to the next block. -/
theorem BlockOpsStep.number_of_unsealed {k k' : ZkSyncStateKeeper} {reply : KeeperReply}
    (h : BlockOpsStep k k' reply) (hunsealed : ¬ reply.IsSealed) :
    k'.state.blockNumber = k.state.blockNumber := by
  cases h with
  | grown _ _ number => exact number
  | stored _ _ _ _ number => exact number
  | sealed => exact absurd trivial hunsealed

/-- A block with the deposit that creates account 1, and what the builder has of it. -/
structure DepositBlock (k₀ k₁ k₂ : ZkSyncStateKeeper) (reply : KeeperReply)
    (request : BlockCommitRequest) (updates : AppliedUpdatesRequest) (tree : CircuitAccountTree) :
    Prop where
  new : ZkSyncStateKeeper.new (Env.built 1 false)
    (.fromAccMap (Env.built 1 false).hasher sampleStored 0 0) 1 [6, 30] 10 2 5 = .ok k₀
  begun : k₀.pendingBlock = PendingBlock.new 0 30
  run : Run (fun k e k' => KeeperStep (Env.built 1 false) k e k' ∧ ¬ e.2.IsSealed) k₀
    [(.priorityOp ⟨0, .Deposit (sampleDeposit 3), 0, [], 0⟩, reply)] k₁
  sealed : KeeperStep (Env.built 1 false) k₁ (.sealBlock, .sealed request updates) k₂
  ops : request.block.executedOps = [.Deposit ⟨sampleDeposit 3, 1⟩]
  number : request.block.blockNumber = 1
  shows : TreeShows (Env.built 1 false).hasher 0 tree k₀.state.content
  leaf : (tree.get k₁.feeAccountId.toNat).isSome
  rebuilt : ∀ tree₁, TreeShows (Env.built 1 false).hasher 0 tree₁ k₀.state.content →
    Rebuilt (Env.built 1 false) tree₁ k₁.state k₁.pendingBlock
  hashed : Hashed (Env.built 1 false).hasher k₁.state
  sizes : k₁.availableBlockChunkSizes = [6, 30]

theorem exists_depositBlock_rebuilt :
    ∃ k₀ k₁ k₂ reply request updates tree,
      DepositBlock k₀ k₁ k₂ reply request updates tree := by
  have hfits : ∀ id a, sampleStored.lookup id = some a → a.Fits := by
    intro id a ha
    exact fits_singleton fits_sampleAccount ha
  have hwithin : ∀ id a token, sampleStored.lookup id = some a → a.getBalance token ≤ 10 := by
    intro id a token ha
    cases List.mem_singleton.mp (List.of_mem_dlookup ha)
    exact balance_sampleAccount token
  obtain ⟨k₀, k₁, k₂, reply, request, updates, hnew, halike, hbegun, hfeeAccount, hstep, hseal,
    hops⟩ := exists_depositBlock hfits hwithin
      ⟨by decide, by decide, rfl, ⟨sampleAccount, rfl⟩, rfl⟩ 3 1 (by decide +kernel)
  obtain ⟨tree, -, hshows, hleaves⟩ :=
    loadAccountTree_shows (H := (Env.built 1 false).hasher) hfits
  have hfree : k₀.state.getAccount k₀.state.getFreeAccountId = none := by
    have hid : k₀.state.getFreeAccountId = 1 := halike.freeId
    have hrel := halike.accounts 1
    rw [hid]
    generalize k₀.state.getAccount 1 = o at hrel
    cases hrel with
    | none => rfl
  -- the calls of a block leave its number as it was when the keeper started
  have hnumber : request.block.blockNumber = 1 := by
    have hbefore := (blockOps_step hstep.step).number_of_unsealed hstep.unsealed
    cases blockOps_step hseal with
    | grown _ _ _ hsent => cases hsent
    | sealed hblock => rw [hblock, hbefore, (streamInv_new hnew).2.1]; rfl
  have hstarted := started_new hnew
  have hstarted₁ := hstarted.run (Run.single hstep.step)
  have hfee : k₁.feeAccountId = 0 := (feeAccountId_step hstep.step).trans hfeeAccount
  refine ⟨k₀, k₁, k₂, reply, request, updates, tree, hnew, hbegun,
    Run.single ⟨hstep.step, hstep.unsealed⟩, hseal, hops, hnumber,
    hshows.equiv (content_of_loaded halike), by rw [hfee]; exact hleaves 0 rfl,
    fun tree₁ htree₁ => ?_, hstarted₁.state.hashed, hstarted₁.sizes⟩
  have hrebuilt : Rebuilt (Env.built 1 false) tree₁ k₀.state k₀.pendingBlock := by
    rw [hbegun]
    exact rebuilt_new htree₁ 0
  exact hrebuilt.step (noZeroSigner_built _) hstarted.state.indexed hstep fun _ => hfree

/-- A block that was sealed has a root hash, so the accounts have leaves. -/
theorem allFit_of_sealed {env : Env} {k : ZkSyncStateKeeper} {request : BlockCommitRequest}
    {updates : AppliedUpdatesRequest} {feeUpdates : AccountUpdates} {paid hashed : ZkSyncState}
    (hs : Sealed env k request updates feeUpdates paid hashed) (hhashed : Hashed env.hasher k.state) :
    AllFit k.state := by
  have hpaidHashed := (Step.collectFee hs.fees : Step env _ _ _).writes.hashed hhashed
  have hrootPaid : paid.root env.hasher = .ok request.block.newRootHash :=
    Outcome.map_eq_ok.mpr ⟨_, hs.root, rfl⟩
  exact ((allFit_collectFee_iff hs.fees).mp ((allFit_iff_root hpaidHashed).mpr ⟨_, hrootPaid⟩)).1

/-- Sealing on request. -/
theorem sealed_of_sealBlock {env : Env} {k k' : ZkSyncStateKeeper} {request : BlockCommitRequest}
    {updates : AppliedUpdatesRequest} (h : KeeperStep env k (.sealBlock, .sealed request updates) k') :
    ∃ feeUpdates paid hashed, Sealed env k request updates feeUpdates paid hashed := by
  have heff := h.effect
  dsimp only at heff
  cases heff with
  | sealed before hseal =>
    rcases before with ⟨-, rfl⟩ | ⟨hcall, -⟩
    · obtain ⟨feeUpdates, paid, hashed, _, _, hs, -⟩ := sealPendingBlock_eq_ok hseal
      exact ⟨feeUpdates, paid, hashed, hs⟩
    · cases hcall

/-! ### The contract's side -/

namespace Contract

/-- Somebody pays five wei in. -/
def depositMsg : Msg where
  sender := 9
  value := 5
  blockNumber := 0

/-- The contract after the deposit of `sampleDeposit 3`, and its event. -/
def depositedOnce (genesisRoot : Bytes32) : Storage × NewPriorityRequest :=
  registerDeposit depositMsg (.initialized genesisRoot) 0 (BitVec.ofNat 128 5) 3

theorem register_depositedOnce (genesisRoot : Bytes32) :
    register .sample depositMsg (.initialized genesisRoot) (.depositETH 3) =
      .ok (depositedOnce genesisRoot) := rfl

/-- The request is open, and it is the one that the block with the deposit executes. -/
theorem expects_depositedOnce (genesisRoot : Bytes32) :
    Expects .sample (depositedOnce genesisRoot).1 [.Deposit ⟨sampleDeposit 3, 1⟩] where
  stored := by
    intro i op hop
    cases i with
    | zero =>
      cases hop
      exact ⟨_, .deposit _ _, rfl⟩
    | succ i => cases hop
  open' := Nat.le_refl 1
  ids := by
    show (0 : UInt64).toNat + (1 : UInt64).toNat < 2 ^ 64
    decide
  consent := fun op hop => by cases List.mem_singleton.mp hop

/-- The block with the deposit is committed: whatever the roots and the fee account are,
as the contract only finds out about them when the block is verified. -/
theorem commit_depositedOnce {block : ZkSync.Block} (hsize : block.blockChunksSize = 6)
    (hops : block.executedOps = [.Deposit ⟨sampleDeposit 3, 1⟩]) (genesisRoot newRoot : Bytes32)
    (feeAccount : UInt32) :
    ∃ publicData s', block.getEthPublicData = .ok publicData ∧
      commitBlock .sample .sample .sample (depositedOnce genesisRoot).1 1 feeAccount [newRoot]
        (commitDataOfBlock publicData block) = .ok s' ∧ s'.totalBlocksCommitted = 1 := by
  obtain ⟨data, hdata⟩ : ∃ data, publicDataOf [.Deposit ⟨sampleDeposit 3, 1⟩] = .ok data := ⟨_, rfl⟩
  have hlength : data.length = 54 := length_publicDataOf hdata
  have hpublic : block.getEthPublicData = .ok data := by
    unfold Block.getEthPublicData
    rw [hops, hdata, hsize]
    show Except.ok (resize data 54) = _
    rw [resize, hlength, Nat.sub_self, List.replicate_zero, List.append_nil,
      List.take_of_length_le hlength.le]
  have hblock : commitDataOfBlock data block =
      commitDataOf data [.Deposit ⟨sampleDeposit 3, 1⟩] := by
    unfold commitDataOfBlock Block.getEthWitnessData
    rw [hops]
    rfl
  have hclose : ∀ c, ZkSyncOp.Close c ∉ [ZkSyncOp.Deposit ⟨sampleDeposit 3, 1⟩] := by
    intro c hc
    cases List.mem_singleton.mp hc
  -- the contract walks over the one deposit
  have hcollect := collectOnchainOps_eq (expects_depositedOnce genesisRoot) hclose (by decide) (by decide) hdata
  obtain ⟨tr, w, hcollected, -, hs⟩ := collectOnchainOps_spec hcollect
  have hcurrent : w.currentPriorityRequestId = 1 := by
    have h := congrArg Storage.totalCommittedPriorityRequests hs
    have h : (0 : UInt64) + 1 = w.currentPriorityRequestId - 0 := h
    rw [UInt64.sub_zero] at h
    exact h.symm
  rw [← hblock] at hcollected
  have hchunks : (commitDataOfBlock data block).publicData.length = 54 := hlength
  have hwitness : (commitDataOfBlock data block).ethWitness.length < 2 ^ 64 := by
    rw [hblock]
    exact Nat.two_pow_pos 64
  have hopen : w.currentPriorityRequestId ≤ (depositedOnce genesisRoot).1.firstPriorityRequestId +
      (depositedOnce genesisRoot).1.totalOpenPriorityRequests := by
    rw [hcurrent]
    show (1 : UInt64) ≤ 0 + 1
    decide
  obtain ⟨stored, hcommit, -⟩ := commitBlock_of .sample .sample feeAccount newRoot hwitness rfl rfl
    hcollected hopen (by rw [hchunks]; rfl) (by rw [hchunks]; decide)
  exact ⟨data, _, hpublic, hcommit, rfl⟩

end Contract

/-- The builder gets through the deposit. -/
theorem DepositBlock.round {k₀ k₁ k₂ : ZkSyncStateKeeper} {reply : KeeperReply}
    {request : BlockCommitRequest} {updates : AppliedUpdatesRequest} {tree : CircuitAccountTree}
    (h : DepositBlock k₀ k₁ k₂ reply request updates tree) : ∃ added tree₂,
    witnessOperation (Env.built 1 false).hasher tree (.Deposit ⟨sampleDeposit 3, 1⟩) =
      .ok (added, tree₂) := by
  obtain ⟨feeUpdates, paid, hashed, hs⟩ := sealed_of_sealBlock h.sealed
  have hrebuilt := h.rebuilt tree h.shows
  have hpending : k₁.pendingBlock.executedOps = [.Deposit ⟨sampleDeposit 3, 1⟩] :=
    (executedOps_of_sealed hs hrebuilt.failed).symm.trans h.ops
  obtain ⟨accum, tree₁, hbuilt⟩ := hrebuilt.built (allFit_of_sealed hs h.hashed) (by
    rw [hpending]
    decide)
  have hloop := hbuilt.loop
  rw [hpending, witnessOperations] at hloop
  obtain ⟨⟨added, tree₂⟩, hround, -⟩ := Outcome.bind_eq_ok.mp hloop
  exact ⟨added, tree₂, hround⟩

/-- The deposit has its bits. -/
theorem operationBits_agree_deposit : ∃ (request : BlockCommitRequest) (tree : CircuitAccountTree)
    (added : BlockAccum) (tree₂ : CircuitAccountTree) (data : Bytes),
    request.block.executedOps = [.Deposit ⟨sampleDeposit 3, 1⟩] ∧
    witnessOperation (Env.built 1 false).hasher tree (.Deposit ⟨sampleDeposit 3, 1⟩) =
      .ok (added, tree₂) ∧
    ZkSyncOp.publicData (.Deposit ⟨sampleDeposit 3, 1⟩) = .ok data ∧
    added.pubData = fromBeBytes data ∧ added.operations.length = 6 := by
  obtain ⟨k₀, k₁, k₂, reply, request, updates, tree, h⟩ := exists_depositBlock_rebuilt
  obtain ⟨added, tree₂, hround⟩ := h.round
  obtain ⟨data, hdata⟩ : ∃ data, ZkSyncOp.publicData (.Deposit ⟨sampleDeposit 3, 1⟩) = .ok data :=
    ⟨_, rfl⟩
  have hsizes : ∀ size ∈ [6, 30], size < 2 ^ 64 := by decide
  have hops : request.block.executedOps = [] ++ .Deposit ⟨sampleDeposit 3, 1⟩ :: [] := h.ops
  obtain ⟨hbits, hlength⟩ := operationBits_agree (noZeroSigner_built _) hsizes h.new (.nil k₀) h.begun
    h.run h.sealed h.shows hops rfl hround hdata
  exact ⟨request, tree, added, tree₂, data, h.ops, hround, hdata, hbits, hlength⟩

section Runs

variable {env : Env} {accounts : AList fun _ : AccountId => Account} {n : BlockNumber}
  {unprocessed : UInt64} {feeAccountAddress : Address} {sizes : List Nat}
  {maxMini fastMini maxWithdrawals : Nat} {k₀ k k₁ k₂ : ZkSyncStateKeeper}

/-- The public input of the builder is that of the contract: the bits of the bytes which
the server sends, and their commitment, which the contract computes when it accepts the
block after the same root. -/
theorem publicInput_agrees (hz : env.NoZeroSigner) (hsizes : ∀ size ∈ sizes, size < 2 ^ 64)
    (hnew : ZkSyncStateKeeper.new env (.fromAccMap env.hasher accounts n unprocessed)
      feeAccountAddress sizes maxMini fastMini maxWithdrawals = .ok k₀)
    {before : List (KeeperCall × KeeperReply)} (hbefore : Run (KeeperStep env) k₀ before k)
    {first : UInt64} {max : Nat} (hbegun : k.pendingBlock = PendingBlock.new first max)
    {tr : List (KeeperCall × KeeperReply)}
    (hrun : Run (fun k e k' => KeeperStep env k e k' ∧ ¬ e.2.IsSealed) k tr k₁)
    {call : KeeperCall} {request : BlockCommitRequest} {updates : AppliedUpdatesRequest}
    (hseal : KeeperStep env k₁ (call, .sealed request updates) k₂)
    {tree : CircuitAccountTree} (htree : TreeShows env.hasher 0 tree k.state.content)
    (ext : Contract.Externals) {w : WitnessBuilder}
    (hw : buildBlockWitness env.hasher ext.sha256 tree request.block = .ok w)
    {data : Bytes} (hdata : request.block.getEthPublicData = .ok data) :
    w.pubdata = fromBeBytes data ∧ ∃ commitment, w.pubdataCommitment = some commitment ∧
      commitment.val = (Contract.createBlockCommitment ext request.block.blockNumber
        request.block.feeAccount w.initialRootHash.toWord request.block.newRootHash.toWord data &&&
          Contract.inputMask).toNat ∧
      ∀ governance msg s s',
        (s.blocks (request.block.blockNumber - 1)).stateRoot = w.initialRootHash.toWord →
        Contract.commitBlock ext governance msg s request.block.blockNumber
          request.block.feeAccount [request.block.newRootHash.toWord]
          (Contract.commitDataOfBlock data request.block) = .ok s' →
        ((s'.blocks request.block.blockNumber).commitment &&& Contract.inputMask).toNat =
          commitment.val := by
  have hdeclared := fun tree₁ (htree₁ : TreeShows env.hasher 0 tree₁ k.state.content) =>
    declared_of_run hz hsizes hnew hbefore hbegun hrun hseal htree₁
  obtain ⟨hpubdata, commitment, hcommitment, hval⟩ :=
    publicInput_of_declared htree hdeclared ext hw hdata
  refine ⟨hpubdata, commitment, hcommitment, hval, fun governance msg s s' hbefore haccepted => ?_⟩
  rw [hval, Contract.commitBlock_commitment haccepted, hbefore]
  rfl

end Runs

/-- What the builder finds for the block of the deposit. -/
structure DepositWitness (request : BlockCommitRequest) (tree : CircuitAccountTree)
    (w : WitnessBuilder) (data : Bytes) : Prop where
  ops : request.block.executedOps = [] ++ .Deposit ⟨sampleDeposit 3, 1⟩ :: []
  data : request.block.getEthPublicData = .ok data
  built : buildBlockWitness (Env.built 1 false).hasher Contract.Externals.sample.sha256 tree
    request.block = .ok w

theorem DepositBlock.witnessed {k₀ k₁ k₂ : ZkSyncStateKeeper} {reply : KeeperReply}
    {request : BlockCommitRequest} {updates : AppliedUpdatesRequest} {tree : CircuitAccountTree}
    (h : DepositBlock k₀ k₁ k₂ reply request updates tree) :
    ∃ w data, DepositWitness request tree w data := by
  obtain ⟨feeUpdates, paid, hashed, hs⟩ := sealed_of_sealBlock h.sealed
  have hsizes : ∀ size ∈ [6, 30], size < 2 ^ 64 := by decide
  obtain ⟨hash, tree₁, hroot, hshows, hget⟩ := h.shows.rootHash
  have hmem := (smallestBlockSizeForChunks_eq_ok hs.size).1
  rw [h.sizes] at hmem
  obtain ⟨w, hw, -⟩ := (h.rebuilt tree₁ hshows).witnessed hroot h.hashed hs (hsizes _ hmem)
    (by rw [hget]; exact h.leaf) Contract.Externals.sample.sha256
  obtain ⟨data, hdata⟩ : ∃ data, request.block.getEthPublicData = .ok data := by
    unfold Block.getEthPublicData
    rw [h.ops]
    exact ⟨_, rfl⟩
  exact ⟨w, data, h.ops, hdata, hw⟩

/-- The size that the deposit needs is the smallest one. -/
theorem DepositBlock.size {k₀ k₁ k₂ : ZkSyncStateKeeper} {reply : KeeperReply}
    {request : BlockCommitRequest} {updates : AppliedUpdatesRequest} {tree : CircuitAccountTree}
    (h : DepositBlock k₀ k₁ k₂ reply request updates tree) : request.block.blockChunksSize = 6 := by
  obtain ⟨feeUpdates, paid, hashed, hs⟩ := sealed_of_sealBlock h.sealed
  have hused : request.block.chunksUsed = 6 := by
    show chunksOfOps request.block.executedOps = 6
    rw [h.ops]
    rfl
  have hsize := hs.size
  rw [hused, h.sizes] at hsize
  exact (Except.ok.inj hsize).symm

/-- The block of the deposit has a public input, and a contract which holds the request of
the deposit and the root before the block accepts it and stores this input. -/
theorem publicInput_agrees_deposit : ∃ (request : BlockCommitRequest) (w : WitnessBuilder)
    (data : Bytes) (commitment : Fr) (s s' : Contract.Storage),
    request.block.executedOps = [.Deposit ⟨sampleDeposit 3, 1⟩] ∧
    request.block.getEthPublicData = .ok data ∧ w.pubdata = fromBeBytes data ∧
    w.pubdataCommitment = some commitment ∧
    commitment.val = (Contract.createBlockCommitment .sample request.block.blockNumber
      request.block.feeAccount w.initialRootHash.toWord request.block.newRootHash.toWord data &&&
        Contract.inputMask).toNat ∧
    Contract.commitBlock .sample .sample .sample s request.block.blockNumber
      request.block.feeAccount [request.block.newRootHash.toWord]
      (Contract.commitDataOfBlock data request.block) = .ok s' ∧
    ((s'.blocks request.block.blockNumber).commitment &&& Contract.inputMask).toNat =
      commitment.val := by
  obtain ⟨k₀, k₁, k₂, reply, request, updates, tree, h⟩ := exists_depositBlock_rebuilt
  obtain ⟨w, data, hwit⟩ := h.witnessed
  have hsizes : ∀ size ∈ [6, 30], size < 2 ^ 64 := by decide
  obtain ⟨hpubdata, commitment, hcommitment, hval, haccepted⟩ := publicInput_agrees
    (noZeroSigner_built _) hsizes h.new (.nil k₀) h.begun h.run h.sealed h.shows .sample hwit.built
    hwit.data
  obtain ⟨publicData, s', hpublic, hcommit, -⟩ := Contract.commit_depositedOnce h.size h.ops
    w.initialRootHash.toWord request.block.newRootHash.toWord request.block.feeAccount
  obtain rfl : publicData = data := Except.ok.inj (hpublic.symm.trans hwit.data)
  have hroot : ((Contract.depositedOnce w.initialRootHash.toWord).1.blocks
      (request.block.blockNumber - 1)).stateRoot = w.initialRootHash.toWord := by
    rw [h.number]
    rfl
  rw [← h.number] at hcommit
  exact ⟨request, w, publicData, commitment, _, s', h.ops, hwit.data, hpubdata, hcommitment, hval,
    hcommit, haccepted .sample .sample _ s' hroot hcommit⟩

end ZkSync
