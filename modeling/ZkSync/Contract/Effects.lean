import ZkSync.Contract.Calls

/-!
# What a call does to the storage

For each call that does not revert, what it has checked and which entries it has
written. What is proved of runs of the contract is proved from these statements;
the calls themselves are not unfolded again.
-/

namespace ZkSync.Contract

open Bytes (slice)

variable {ext : Externals} {governance : Governance} {msg : Msg} {s s' : Storage}

/-! ## One round of the walk -/

section Rounds

variable {block : CommitData} {opType : OpType} {w w' : Walk}

/-- Only key changes use the witness. -/
theorem visitOp_witness (h : visitOp ext s block opType w = .ok w') :
    if opType = .ChangePubKey then
      w.processedOperationsRequiringEthWitness.toNat < block.ethWitnessSizes.length ∧
        w'.ethWitnessOffset = w.ethWitnessOffset + (block.ethWitnessSizes.getD
          w.processedOperationsRequiringEthWitness.toNat 0).toUInt64 ∧
        w'.processedOperationsRequiringEthWitness = w.processedOperationsRequiringEthWitness + 1
    else
      w'.ethWitnessOffset = w.ethWitnessOffset ∧
        w'.processedOperationsRequiringEthWitness = w.processedOperationsRequiringEthWitness := by
  cases opType with
  | Noop | TransferToNew | Transfer => cases h; exact ⟨rfl, rfl⟩
  | CloseAccount => cases h
  | PartialExit | ForcedExit =>
    obtain ⟨data, -, h⟩ := Outcome.bind_eq_ok.mp h
    cases h
    exact ⟨rfl, rfl⟩
  | Deposit | FullExit =>
    obtain ⟨pubData, -, h⟩ := Outcome.bind_eq_ok.mp h
    obtain ⟨data, -, h⟩ := Outcome.bind_eq_ok.mp h
    obtain ⟨_, -, h⟩ := Outcome.bind_eq_ok.mp h
    cases h
    exact ⟨rfl, rfl⟩
  | ChangePubKey =>
    obtain ⟨_, hindex, h⟩ := Outcome.bind_eq_ok.mp h
    obtain ⟨op, -, h⟩ := Outcome.bind_eq_ok.mp h
    obtain ⟨_, -, h⟩ := Outcome.bind_eq_ok.mp h
    cases h
    exact ⟨require_eq_ok.mp hindex, rfl, rfl⟩

/-- Only deposits and full exits are compared with the queue, each with one request. -/
theorem visitOp_request (h : visitOp ext s block opType w = .ok w') :
    if opType = .Deposit ∨ opType = .FullExit then
      (s.priorityRequests w.currentPriorityRequestId).opType = opType ∧
        w'.currentPriorityRequestId = w.currentPriorityRequestId + 1
    else w'.currentPriorityRequestId = w.currentPriorityRequestId := by
  cases opType with
  | Noop | TransferToNew | Transfer => cases h; rfl
  | CloseAccount => cases h
  | PartialExit | ForcedExit =>
    obtain ⟨data, -, h⟩ := Outcome.bind_eq_ok.mp h
    cases h
    rfl
  | Deposit | FullExit =>
    obtain ⟨pubData, -, h⟩ := Outcome.bind_eq_ok.mp h
    obtain ⟨data, -, h⟩ := Outcome.bind_eq_ok.mp h
    obtain ⟨_, hcommit, h⟩ := Outcome.bind_eq_ok.mp h
    obtain ⟨_, hsame, -⟩ := Outcome.bind_eq_ok.mp hcommit
    cases h
    exact ⟨require_eq_ok.mp hsame, rfl⟩
  | ChangePubKey =>
    obtain ⟨_, -, h⟩ := Outcome.bind_eq_ok.mp h
    obtain ⟨op, -, h⟩ := Outcome.bind_eq_ok.mp h
    obtain ⟨_, -, h⟩ := Outcome.bind_eq_ok.mp h
    cases h
    rfl

end Rounds

/-! ## Blocks -/

/-- A walk over public data that is accepted: its rounds, and what it has come to. -/
structure Collected (ext : Externals) (s : Storage) (block : CommitData)
    (tr : List (OpType × Walk)) (w : Walk) : Prop where
  run : Run (VisitStep ext s block) (Walk.start s) tr w
  offset : w.offset = block.publicData.length
  witness : w.ethWitnessOffset.toNat = block.ethWitness.length
  sizes : w.processedOperationsRequiringEthWitness.toNat = block.ethWitnessSizes.length

theorem visitRun_unique {block : CommitData} {tr tr' : List (OpType × Walk)} {w₀ w w' : Walk}
    (hrun : Run (VisitStep ext s block) w₀ tr w) (hend : w.offset = block.publicData.length)
    (hrun' : Run (VisitStep ext s block) w₀ tr' w')
    (hend' : w'.offset = block.publicData.length) : tr = tr' ∧ w = w' := by
  induction hrun generalizing tr' with
  | nil w₀ =>
    cases hrun' with
    | nil => exact ⟨rfl, rfl⟩
    | cons hstep _ => exact absurd hstep.1 (by omega)
  | cons hstep _ ih =>
    obtain ⟨hin, hbefore, hopType, hop⟩ := hstep
    cases hrun' with
    | nil => exact absurd hin (by omega)
    | @cons _ w₂ _ e' _ hstep' hrest' =>
      obtain ⟨-, hbefore', hopType', hop'⟩ := hstep'
      have htype := Option.some.inj (hopType.symm.trans hopType')
      rw [← htype, hop] at hop'
      obtain rfl := Except.ok.inj hop'
      obtain ⟨htr, hw⟩ := ih hend hrest'
      rw [htr, Prod.ext htype (hbefore.trans hbefore'.symm)]
      exact ⟨rfl, hw⟩

/-- There is one walk over a block. -/
theorem Collected.unique {block : CommitData} {tr tr' : List (OpType × Walk)} {w w' : Walk}
    (h : Collected ext s block tr w) (h' : Collected ext s block tr' w') : tr = tr' ∧ w = w' :=
  visitRun_unique h.run h.offset h'.run h'.offset

theorem collectOnchainOps_spec {block : CommitData} {hash : Bytes32}
    (h : collectOnchainOps ext s block = .ok (hash, s')) :
    ∃ tr w, Collected ext s block tr w ∧ hash = w.withdrawalsDataHash ∧
      s' = { s with
        totalCommittedPriorityRequests := w.currentPriorityRequestId - s.firstPriorityRequestId } := by
  unfold collectOnchainOps at h
  obtain ⟨_, -, h⟩ := Outcome.bind_eq_ok.mp h
  obtain ⟨w, hloop, h⟩ := Outcome.bind_eq_ok.mp h
  obtain ⟨_, hoffset, h⟩ := Outcome.bind_eq_ok.mp h
  obtain ⟨_, hwitness, h⟩ := Outcome.bind_eq_ok.mp h
  obtain ⟨_, hsizes, h⟩ := Outcome.bind_eq_ok.mp h
  obtain ⟨_, -, h⟩ := Outcome.bind_eq_ok.mp h
  obtain ⟨tr, hrun, -⟩ := collectLoop_eq_ok.mp hloop
  obtain ⟨rfl, rfl⟩ := Prod.mk.inj (Except.ok.inj h)
  exact ⟨tr, w, ⟨hrun, require_eq_ok.mp hoffset, require_eq_ok.mp hwitness,
    require_eq_ok.mp hsizes⟩, rfl, rfl⟩

theorem commitBlock_spec {blockNumber feeAccount : UInt32} {newBlockInfo : List Bytes32}
    {block : CommitData}
    (h : commitBlock ext governance msg s blockNumber feeAccount newBlockInfo block = .ok s') :
    s.exodusMode = false ∧ blockNumber = s.totalBlocksCommitted + 1 ∧
      ∃ tr w stored, Collected ext s block tr w ∧
        stored.priorityOperations = w.currentPriorityRequestId - s.firstPriorityRequestId -
          s.totalCommittedPriorityRequests ∧
        isBlockSizeSupported ext stored.chunks ∧
        s' = { s with
          totalCommittedPriorityRequests := w.currentPriorityRequestId - s.firstPriorityRequestId
          blocks := Function.update s.blocks blockNumber stored
          totalBlocksCommitted := s.totalBlocksCommitted + 1 } := by
  unfold commitBlock at h
  obtain ⟨_, -, h⟩ := Outcome.bind_eq_ok.mp h
  obtain ⟨_, hactive, h⟩ := Outcome.bind_eq_ok.mp h
  obtain ⟨_, hnumber, h⟩ := Outcome.bind_eq_ok.mp h
  obtain ⟨_, -, h⟩ := Outcome.bind_eq_ok.mp h
  obtain ⟨_, -, h⟩ := Outcome.bind_eq_ok.mp h
  obtain ⟨⟨hash, s₁⟩, hcollect, h⟩ := Outcome.bind_eq_ok.mp h
  obtain ⟨s₂, hcreate, h⟩ := Outcome.bind_eq_ok.mp h
  obtain ⟨tr, w, hcollected, rfl, rfl⟩ := collectOnchainOps_spec hcollect
  unfold createCommittedBlock at hcreate
  obtain ⟨_, -, hcreate⟩ := Outcome.bind_eq_ok.mp hcreate
  obtain ⟨_, hsupported, hcreate⟩ := Outcome.bind_eq_ok.mp hcreate
  cases hcreate
  cases h
  exact ⟨requireActive_eq_ok.mp hactive, require_eq_ok.mp hnumber, tr, w, _, hcollected, rfl,
    require_eq_ok.mp hsupported, rfl⟩

/-- The other way: a block of a supported size whose walk is accepted is committed. -/
theorem commitBlock_of (governance : Governance) (msg : Msg) (feeAccount : UInt32)
    (newRoot : Bytes32) {block : CommitData} {tr : List (OpType × Walk)} {w : Walk} (hlength : block.ethWitness.length < 2 ^ 64)
    (hactive : s.exodusMode = false) (hvalidator : governance.validators msg.sender)
    (hcollected : Collected ext s block tr w)
    (hopen : w.currentPriorityRequestId ≤ s.firstPriorityRequestId + s.totalOpenPriorityRequests)
    (hchunks : block.publicData.length % chunkBytes = 0)
    (hsupported : isBlockSizeSupported ext (UInt32.ofNat (block.publicData.length / chunkBytes))) :
    ∃ stored, commitBlock ext governance msg s (s.totalBlocksCommitted + 1) feeAccount [newRoot]
        block = .ok { s with
          totalCommittedPriorityRequests := w.currentPriorityRequestId - s.firstPriorityRequestId
          blocks := Function.update s.blocks (s.totalBlocksCommitted + 1) stored
          totalBlocksCommitted := s.totalBlocksCommitted + 1 } ∧
      stored.priorityOperations = w.currentPriorityRequestId - s.firstPriorityRequestId -
        s.totalCommittedPriorityRequests ∧
      stored.chunks = UInt32.ofNat (block.publicData.length / chunkBytes) ∧
      stored.withdrawalsDataHash = w.withdrawalsDataHash := by
  have hloop : collectLoop ext s block (Walk.start s) = .ok w :=
    collectLoop_eq_ok.mpr ⟨tr, hcollected.run, hcollected.offset.ge⟩
  have hcollect : collectOnchainOps ext s block = .ok (w.withdrawalsDataHash, { s with
      totalCommittedPriorityRequests :=
        w.currentPriorityRequestId - s.firstPriorityRequestId }) := by
    unfold collectOnchainOps
    rw [require_of hchunks, Outcome.ok_bind, hloop, Outcome.ok_bind, require_of hcollected.offset,
      Outcome.ok_bind, require_of hcollected.witness, Outcome.ok_bind,
      require_of hcollected.sizes, Outcome.ok_bind, require_of hopen]
    rfl
  unfold commitBlock Governance.requireActiveValidator
  have hrequire : requireActive s = .ok () := requireActive_eq_ok.mpr hactive
  rw [require_of hlength, Outcome.ok_bind, hrequire, Outcome.ok_bind,
    require_of rfl, Outcome.ok_bind, require_of hvalidator, Outcome.ok_bind,
    require_of List.length_singleton, Outcome.ok_bind, hcollect, Outcome.ok_bind]
  unfold createCommittedBlock
  dsimp only
  rw [require_of hchunks, Outcome.ok_bind, require_of hsupported]
  exact ⟨_, rfl, rfl, rfl, rfl⟩

/-- The withdrawals of a block change balances and the queue of withdrawals, nothing else. -/
theorem processLoop_frame {withdrawalsData : Bytes} {offset : Nat} {p p' : ProcessState}
    (h : processLoop ext withdrawalsData offset p = .ok p') :
    p'.storage = { p.storage with
      balancesToWithdraw := p'.storage.balancesToWithdraw
      pendingWithdrawals := p'.storage.pendingWithdrawals } := by
  fun_induction processLoop ext withdrawalsData offset p with
  | case1 offset p hin ih =>
    obtain ⟨withdrawal, -, h⟩ := Outcome.bind_eq_ok.mp h
    obtain ⟨p₁, hprocess, h⟩ := Outcome.bind_eq_ok.mp h
    rw [ih p₁ h]
    unfold processWithdrawal at hprocess
    obtain ⟨_, -, hprocess⟩ := Outcome.bind_eq_ok.mp hprocess
    dsimp only at hprocess
    split at hprocess <;> cases hprocess <;> rfl
  | case2 => cases h; rfl

theorem verifyBlock_spec {blockNumber : UInt32} {proof : List Nat} {withdrawalsData : Bytes}
    (h : verifyBlock ext governance msg s blockNumber proof withdrawalsData = .ok s') :
    s.exodusMode = false ∧ blockNumber = s.totalBlocksVerified + 1 ∧
      isBlockSizeSupported ext (s.blocks blockNumber).chunks ∧
      (s.blocks blockNumber).priorityOperations ≤ s.totalOpenPriorityRequests ∧
      withdrawalsData.length % ONCHAIN_WITHDRAWAL_BYTES = 0 ∧
      ∃ p, processLoop ext withdrawalsData 0
          ⟨s, s.numberOfPendingWithdrawals, EMPTY_STRING_KECCAK⟩ = .ok p ∧
        s' = { s with
          balancesToWithdraw := p.storage.balancesToWithdraw
          pendingWithdrawals := p.storage.pendingWithdrawals
          numberOfPendingWithdrawals := p.localNumberOfPendingWithdrawals
          priorityRequests := (idsBetween s.firstPriorityRequestId (s.firstPriorityRequestId +
              minU64 (s.blocks blockNumber).priorityOperations
                MAX_PRIORITY_REQUESTS_TO_DELETE_IN_VERIFY)).foldl
            (fun requests i => Function.update requests i {}) s.priorityRequests
          totalOpenPriorityRequests :=
            s.totalOpenPriorityRequests - (s.blocks blockNumber).priorityOperations
          firstPriorityRequestId :=
            s.firstPriorityRequestId + (s.blocks blockNumber).priorityOperations
          totalCommittedPriorityRequests :=
            s.totalCommittedPriorityRequests - (s.blocks blockNumber).priorityOperations
          totalBlocksVerified := s.totalBlocksVerified + 1 } := by
  unfold verifyBlock at h
  obtain ⟨_, hactive, h⟩ := Outcome.bind_eq_ok.mp h
  obtain ⟨_, hnumber, h⟩ := Outcome.bind_eq_ok.mp h
  obtain ⟨_, -, h⟩ := Outcome.bind_eq_ok.mp h
  obtain ⟨verified, hverify, h⟩ := Outcome.bind_eq_ok.mp h
  obtain ⟨_, -, h⟩ := Outcome.bind_eq_ok.mp h
  obtain ⟨s₁, hprocess, h⟩ := Outcome.bind_eq_ok.mp h
  obtain ⟨s₂, hdelete, h⟩ := Outcome.bind_eq_ok.mp h
  unfold verifyBlockProof at hverify
  obtain ⟨_, hsupported, -⟩ := Outcome.bind_eq_ok.mp hverify
  unfold processOnchainWithdrawals at hprocess
  obtain ⟨_, hlength, hprocess⟩ := Outcome.bind_eq_ok.mp hprocess
  obtain ⟨p, hloop, hprocess⟩ := Outcome.bind_eq_ok.mp hprocess
  obtain ⟨_, -, hprocess⟩ := Outcome.bind_eq_ok.mp hprocess
  -- only the queue and the balances moved before the requests were deleted
  have hframe : p.storage = { s with
      balancesToWithdraw := p.storage.balancesToWithdraw
      pendingWithdrawals := p.storage.pendingWithdrawals } := processLoop_frame hloop
  have hs₁ : s₁ = { s with
      balancesToWithdraw := p.storage.balancesToWithdraw
      pendingWithdrawals := p.storage.pendingWithdrawals
      numberOfPendingWithdrawals := p.localNumberOfPendingWithdrawals } := by
    rw [← Except.ok.inj hprocess, hframe]
  unfold deleteRequests at hdelete
  obtain ⟨_, hnumberOf, hdelete⟩ := Outcome.bind_eq_ok.mp hdelete
  rw [hs₁] at hnumberOf hdelete
  cases hdelete
  cases h
  exact ⟨requireActive_eq_ok.mp hactive, require_eq_ok.mp hnumber, require_eq_ok.mp hsupported,
    require_eq_ok.mp hnumberOf, require_eq_ok.mp hlength, p, hloop, rfl⟩

theorem revertBlocks_spec {maxBlocksToRevert : UInt32}
    (h : revertBlocks governance msg s maxBlocksToRevert = .ok s') :
    s.totalBlocksVerified < s.totalBlocksCommitted ∧ s.totalBlocksCommitted ≠ 2 ^ 32 - 1 ∧
      ∃ n r, n = minU32 maxBlocksToRevert (s.totalBlocksCommitted - s.totalBlocksVerified) ∧
        (indicesBetween (s.totalBlocksCommitted - n + 1) (s.totalBlocksCommitted + 1)).foldlM
          revertBlock (0, s.blocks) = .ok r ∧
        s' = { s with
          blocks := r.2
          totalBlocksCommitted := s.totalBlocksCommitted - n
          totalCommittedPriorityRequests := s.totalCommittedPriorityRequests - r.1 } := by
  unfold revertBlocks at h
  obtain ⟨_, hexpired, h⟩ := Outcome.bind_eq_ok.mp h
  obtain ⟨_, -, h⟩ := Outcome.bind_eq_ok.mp h
  obtain ⟨_, hends, h⟩ := Outcome.bind_eq_ok.mp h
  obtain ⟨r, hloop, h⟩ := Outcome.bind_eq_ok.mp h
  cases h
  have hexpired := require_eq_ok.mp hexpired
  simp only [isBlockCommitmentExpired, Bool.and_eq_true, decide_eq_true_eq] at hexpired
  exact ⟨hexpired.1.1, require_eq_ok.mp hends, _, r, rfl, hloop, rfl⟩

/-! ## Exodus mode -/

theorem triggerExodusIfNeeded_spec (msg : Msg) (s : Storage) :
    triggerExodusIfNeeded msg s = { s with exodusMode := (triggerExodusIfNeeded msg s).exodusMode } ∧
      (s.exodusMode → (triggerExodusIfNeeded msg s).exodusMode) := by
  unfold triggerExodusIfNeeded
  dsimp only
  split
  · exact ⟨rfl, fun _ => rfl⟩
  · exact ⟨rfl, id⟩

/-- Cancelling requests changes balances and the requests, nothing else. -/
theorem foldlM_cancelRequest_frame {ids : List UInt64} {s s' : Storage}
    (h : ids.foldlM cancelRequest s = .ok s') :
    s' = { s with
      balancesToWithdraw := s'.balancesToWithdraw
      priorityRequests := s'.priorityRequests } := by
  induction ids generalizing s with
  | nil => cases h; rfl
  | cons id ids ih =>
    rw [List.foldlM_cons] at h
    obtain ⟨s₁, hcancel, h⟩ := Outcome.bind_eq_ok.mp h
    rw [ih h]
    unfold cancelRequest at hcancel
    obtain ⟨s₂, hrefund, hcancel⟩ := Outcome.bind_eq_ok.mp hcancel
    cases hcancel
    unfold refund at hrefund
    split at hrefund
    · obtain ⟨op, -, hrefund⟩ := Outcome.bind_eq_ok.mp hrefund
      cases hrefund
      rfl
    · cases hrefund
      rfl

theorem cancelOutstandingDepositsForExodusMode_spec {n : UInt64}
    (h : cancelOutstandingDepositsForExodusMode s n = .ok s') :
    s.exodusMode ∧ ∃ toProcess s₁, toProcess = minU64 s.totalOpenPriorityRequests n ∧
      (idsBetween s.firstPriorityRequestId (s.firstPriorityRequestId + toProcess)).foldlM
        cancelRequest s = .ok s₁ ∧
      s' = { s with
        balancesToWithdraw := s₁.balancesToWithdraw
        priorityRequests := s₁.priorityRequests
        firstPriorityRequestId := s.firstPriorityRequestId + toProcess
        totalOpenPriorityRequests := s.totalOpenPriorityRequests - toProcess } := by
  unfold cancelOutstandingDepositsForExodusMode at h
  obtain ⟨_, hexodus, h⟩ := Outcome.bind_eq_ok.mp h
  obtain ⟨_, -, h⟩ := Outcome.bind_eq_ok.mp h
  obtain ⟨s₁, hloop, h⟩ := Outcome.bind_eq_ok.mp h
  have hframe := foldlM_cancelRequest_frame hloop
  refine ⟨require_eq_ok.mp hexodus, _, s₁, rfl, hloop, ?_⟩
  rw [← Except.ok.inj h, hframe]

theorem exit_spec {accountId : UInt32} {tokenId : UInt16} {amount : BitVec 128}
    {proof : List Nat} (h : exit ext msg s accountId tokenId amount proof = .ok s') :
    ∃ balance exited,
      safeAdd128 (s.balancesToWithdraw (packAddressAndTokenId msg.sender tokenId)).balanceToWithdraw
        amount = .ok balance ∧
      s' = { s.setBalance (packAddressAndTokenId msg.sender tokenId)
          { s.balancesToWithdraw (packAddressAndTokenId msg.sender tokenId) with
            balanceToWithdraw := balance } with
        exited := exited } := by
  unfold exit at h
  obtain ⟨_, -, h⟩ := Outcome.bind_eq_ok.mp h
  obtain ⟨_, -, h⟩ := Outcome.bind_eq_ok.mp h
  obtain ⟨_, -, h⟩ := Outcome.bind_eq_ok.mp h
  obtain ⟨balance, hbalance, h⟩ := Outcome.bind_eq_ok.mp h
  cases h
  exact ⟨balance, _, hbalance, rfl⟩

/-! ## Withdrawals -/

/-- One round of `completeWithdrawals` changes balances and the queue, nothing else. -/
theorem completeWithdrawal_frame (transfer : TransferOut) (s : Storage) (i : UInt32) :
    (completeWithdrawal transfer s i).1 = { s with
      balancesToWithdraw := (completeWithdrawal transfer s i).1.balancesToWithdraw
      pendingWithdrawals := (completeWithdrawal transfer s i).1.pendingWithdrawals } := by
  unfold completeWithdrawal
  dsimp only
  split
  · split <;> rfl
  · rfl

theorem completeWithdrawals_loop_frame {is : List UInt32} {sends : UInt32 → TransferOut}
    (r : Storage × List Payment) :
    (is.foldl (completeRound sends) r).1 = { r.1 with
      balancesToWithdraw := (is.foldl (completeRound sends) r).1.balancesToWithdraw
      pendingWithdrawals := (is.foldl (completeRound sends) r).1.pendingWithdrawals } := by
  induction is generalizing r with
  | nil => rfl
  | cons i is ih =>
    rw [List.foldl_cons, ih, completeRound, completeWithdrawal_frame]

theorem completeWithdrawals_frame {n : UInt32} {sends : UInt32 → TransferOut} :
    (completeWithdrawals s n sends).1 = { s with
      balancesToWithdraw := (completeWithdrawals s n sends).1.balancesToWithdraw
      pendingWithdrawals := (completeWithdrawals s n sends).1.pendingWithdrawals
      numberOfPendingWithdrawals :=
        s.numberOfPendingWithdrawals - minU32 n s.numberOfPendingWithdrawals
      firstPendingWithdrawalIndex :=
        s.firstPendingWithdrawalIndex + minU32 n s.numberOfPendingWithdrawals } := by
  rw [completeWithdrawals, completeWithdrawals_loop_frame]

theorem registerWithdrawal_spec {token : UInt16} {amount : BitVec 128} {toAddress : Address}
    (h : registerWithdrawal s token amount toAddress = .ok s') :
    amount ≤ (s.balancesToWithdraw (packAddressAndTokenId toAddress token)).balanceToWithdraw ∧
      s' = s.setBalance (packAddressAndTokenId toAddress token)
        { s.balancesToWithdraw (packAddressAndTokenId toAddress token) with
          balanceToWithdraw :=
            (s.balancesToWithdraw (packAddressAndTokenId toAddress token)).balanceToWithdraw -
              amount } := by
  unfold registerWithdrawal at h
  obtain ⟨balance, hsub, h⟩ := Outcome.bind_eq_ok.mp h
  obtain ⟨_, hle, hsub⟩ := Outcome.bind_eq_ok.mp hsub
  cases hsub
  cases h
  exact ⟨require_eq_ok.mp hle, rfl⟩

theorem withdrawETH_spec {amount : BitVec 128} {success : Bool} {payments : List Payment}
    (h : withdrawETH msg s amount success = .ok (s', payments)) :
    registerWithdrawal s 0 amount msg.sender = .ok s' ∧ payments = [⟨msg.sender, 0, amount⟩] := by
  unfold withdrawETH at h
  obtain ⟨s₁, hregister, h⟩ := Outcome.bind_eq_ok.mp h
  obtain ⟨_, -, h⟩ := Outcome.bind_eq_ok.mp h
  cases h
  exact ⟨hregister, rfl⟩

theorem withdrawERC20_spec {token : Address} {transfer : TransferOut} {payments : List Payment}
    (h : withdrawERC20 governance msg s token transfer = .ok (s', payments)) :
    ∃ tokenId amount, registerWithdrawal s tokenId amount msg.sender = .ok s' ∧
      payments = [⟨msg.sender, tokenId, amount⟩] := by
  unfold withdrawERC20 at h
  obtain ⟨tokenId, -, h⟩ := Outcome.bind_eq_ok.mp h
  obtain ⟨amount, -, h⟩ := Outcome.bind_eq_ok.mp h
  obtain ⟨s₁, hregister, h⟩ := Outcome.bind_eq_ok.mp h
  cases h
  exact ⟨tokenId, amount, hregister, rfl⟩

/-! ## Facts -/

theorem setAuthPubkeyHash_spec {pubkeyHash : Bytes} {nonce : UInt32}
    (h : setAuthPubkeyHash ext msg s pubkeyHash nonce = .ok s') :
    pubkeyHash.length = PUBKEY_HASH_BYTES ∧ s.authFacts msg.sender nonce = 0 ∧
      s' = { s with
        authFacts := Function.update s.authFacts msg.sender
          (Function.update (s.authFacts msg.sender) nonce (ext.keccak256 pubkeyHash)) } := by
  unfold setAuthPubkeyHash at h
  obtain ⟨_, hlength, h⟩ := Outcome.bind_eq_ok.mp h
  obtain ⟨_, hempty, h⟩ := Outcome.bind_eq_ok.mp h
  cases h
  exact ⟨require_eq_ok.mp hlength, require_eq_ok.mp hempty, rfl⟩

/-! ## Calls that cannot fail -/

theorem callStep_triggerExodusIfNeeded {receipt : Receipt}
    (h : CallStep ext s ⟨governance, msg, .triggerExodusIfNeeded, receipt⟩ s') :
    s' = triggerExodusIfNeeded msg s ∧ receipt = {} := by
  obtain ⟨hs', hreceipt⟩ := Prod.mk.inj (Except.ok.inj h)
  exact ⟨hs'.symm, hreceipt.symm⟩

theorem callStep_completeWithdrawals {n : UInt32} {sends : UInt32 → TransferOut} {receipt : Receipt}
    (h : CallStep ext s ⟨governance, msg, .completeWithdrawals n sends, receipt⟩ s') :
    s' = (completeWithdrawals s n sends).1 ∧
      receipt = { payments := (completeWithdrawals s n sends).2 } := by
  obtain ⟨hs', hreceipt⟩ := Prod.mk.inj (Except.ok.inj h)
  exact ⟨hs'.symm, hreceipt.symm⟩

end ZkSync.Contract
