import ZkSync.Contract.Counters

/-!
# Verified blocks are final

A block is committed behind all others and may be reverted; once it has been verified
nothing touches it again. What decides about the blocks is a small part of the storage:
`Chain` is this part, `ChainStep` what the calls may do to it, and every run of the
contract is a run of the chain over the same calls (`chain_run`). The results are read
off the chain:

* `verified_final` — a verified block stays as it is, whatever is called afterwards;
* `verified_chain` — the blocks are verified one after the other, and each of them has
  been committed by a validator on top of the one before it, and then proved;
* `exits_once` — the exits are of different tokens or accounts, each of them proved
  against a root that is still that of the last verified block.
-/

namespace ZkSync.Contract

/-- A call that does not revert, while the counters are within their bounds. -/
def BoundedStep (ext : Externals) (s : Storage) (e : Event) (s' : Storage) : Prop :=
  WithinBounds s e.call ∧ CallStep ext s e s'

namespace Call

/-- The number of the block that is committed. -/
def commits : Call → Option UInt32
  | .commitBlock blockNumber _ _ _ => some blockNumber
  | _ => none

/-- The number of the block that is verified. -/
def verifies : Call → Option UInt32
  | .verifyBlock blockNumber _ _ => some blockNumber
  | _ => none

/-- The account and the token of an exit. -/
def exits : Call → Option (UInt32 × UInt16)
  | .exit accountId tokenId _ _ => some (accountId, tokenId)
  | _ => none

end Call

/-! ## The chain -/

/-- What commitments, proofs and exits are decided by. -/
structure Chain where
  blocks : UInt32 → StoredBlock
  totalBlocksVerified : UInt32
  totalBlocksCommitted : UInt32
  exited : UInt32 → UInt16 → Bool
  exodusMode : Bool

/-- What finality is about: the blocks, the counters, and who has left. -/
def Storage.chain (s : Storage) : Chain where
  blocks := s.blocks
  totalBlocksVerified := s.totalBlocksVerified
  totalBlocksCommitted := s.totalBlocksCommitted
  exited := s.exited
  exodusMode := s.exodusMode

/-- What is stored of a block binds its number, the account of its fees, the roots before
and after it, and its public data. -/
structure Binds (ext : Externals) (blockNumber feeAccount : UInt32) (oldRoot newRoot : Bytes32)
    (publicData : Bytes) (stored : StoredBlock) : Prop where
  whole : publicData.length % chunkBytes = 0
  chunks : stored.chunks = UInt32.ofNat (publicData.length / chunkBytes)
  supported : isBlockSizeSupported ext stored.chunks
  commitment : stored.commitment =
    createBlockCommitment ext blockNumber feeAccount oldRoot newRoot publicData
  stateRoot : stored.stateRoot = newRoot

section Chain

variable (ext : Externals)

/-- What a call may do to the chain. -/
inductive ChainStep (c : Chain) : Event → Chain → Prop
  /-- A block is committed behind all others, on top of the last of them. -/
  | commit {governance : Governance} {msg : Msg} {receipt : Receipt} {n feeAccount : UInt32}
      {newRoot : Bytes32} {block : CommitData} {stored : StoredBlock}
      (number : n.toNat = c.totalBlocksCommitted.toNat + 1) (behind : c.totalBlocksVerified < n)
      (active : c.exodusMode = false) (validator : governance.validators msg.sender)
      (binds : Binds ext n feeAccount (c.blocks (n - 1)).stateRoot newRoot block.publicData stored) :
      ChainStep c ⟨governance, msg, .commitBlock n feeAccount [newRoot] block, receipt⟩
        { c with blocks := Function.update c.blocks n stored, totalBlocksCommitted := n }
  /-- The next committed block is proved. -/
  | verify {governance : Governance} {msg : Msg} {receipt : Receipt} {n : UInt32} {proof : List Nat}
      {withdrawalsData : Bytes}
      (number : n.toNat = c.totalBlocksVerified.toNat + 1) (committed : n ≤ c.totalBlocksCommitted)
      (active : c.exodusMode = false) (validator : governance.validators msg.sender)
      (proved : verifyBlockProof ext proof (c.blocks n).commitment (c.blocks n).chunks = .ok true) :
      ChainStep c ⟨governance, msg, .verifyBlock n proof withdrawalsData, receipt⟩
        { c with totalBlocksVerified := n }
  /-- The last blocks are deleted, none of them verified. -/
  | revert {governance : Governance} {msg : Msg} {receipt : Receipt} {maxBlocksToRevert : UInt32}
      {kept : UInt32} {blocks : UInt32 → StoredBlock}
      (verified : c.totalBlocksVerified ≤ kept) (le : kept ≤ c.totalBlocksCommitted)
      (blocks_eq : ∀ i ≤ kept, blocks i = c.blocks i) :
      ChainStep c ⟨governance, msg, .revertBlocks maxBlocksToRevert, receipt⟩
        { c with blocks := blocks, totalBlocksCommitted := kept }
  | exodus {governance : Governance} {msg : Msg} {receipt : Receipt} :
      ChainStep c ⟨governance, msg, .triggerExodusIfNeeded, receipt⟩ { c with exodusMode := true }
  /-- A balance under the last verified root is taken out. -/
  | exit {governance : Governance} {msg : Msg} {receipt : Receipt} {accountId : UInt32}
      {tokenId : UInt16} {amount : BitVec 128} {proof : List Nat}
      (exodus : c.exodusMode) (fresh : c.exited accountId tokenId = false)
      (proved : verifyExitProof ext (c.blocks c.totalBlocksVerified).stateRoot accountId msg.sender
        tokenId amount proof) :
      ChainStep c ⟨governance, msg, .exit accountId tokenId amount proof, receipt⟩
        { c with
          exited := Function.update c.exited accountId
            (Function.update (c.exited accountId) tokenId true) }
  /-- The other calls. -/
  | other {e : Event} (commits : e.call.commits = none) (verifies : e.call.verifies = none)
      (exits : e.call.exits = none) : ChainStep c e c

end Chain

/-! ## The calls -/

section Calls

variable {ext : Externals} {governance : Governance} {msg : Msg} {s s' : Storage}

/-- A commit stores the next block, and nothing else of the chain. -/
theorem commitBlock_chain {blockNumber feeAccount : UInt32} {newBlockInfo : List Bytes32}
    {block : CommitData}
    (h : commitBlock ext governance msg s blockNumber feeAccount newBlockInfo block = .ok s') :
    s.exodusMode = false ∧ blockNumber = s.totalBlocksCommitted + 1 ∧
      governance.validators msg.sender ∧
      ∃ newRoot stored, newBlockInfo = [newRoot] ∧
        Binds ext blockNumber feeAccount (s.blocks (blockNumber - 1)).stateRoot newRoot
          block.publicData stored ∧
        s'.chain = { s.chain with
          blocks := Function.update s.blocks blockNumber stored
          totalBlocksCommitted := s.totalBlocksCommitted + 1 } := by
  unfold commitBlock at h
  obtain ⟨_, -, h⟩ := Outcome.bind_eq_ok.mp h
  obtain ⟨_, hactive, h⟩ := Outcome.bind_eq_ok.mp h
  obtain ⟨_, hnumber, h⟩ := Outcome.bind_eq_ok.mp h
  obtain ⟨_, hvalidator, h⟩ := Outcome.bind_eq_ok.mp h
  obtain ⟨_, hroots, h⟩ := Outcome.bind_eq_ok.mp h
  obtain ⟨⟨hash, s₁⟩, hcollect, h⟩ := Outcome.bind_eq_ok.mp h
  obtain ⟨s₂, hcreate, h⟩ := Outcome.bind_eq_ok.mp h
  obtain ⟨tr, w, -, -, rfl⟩ := collectOnchainOps_spec hcollect
  obtain ⟨newRoot, rfl⟩ := List.length_eq_one_iff.mp (require_eq_ok.mp hroots)
  unfold createCommittedBlock at hcreate
  obtain ⟨_, hwhole, hcreate⟩ := Outcome.bind_eq_ok.mp hcreate
  obtain ⟨_, hsupported, hcreate⟩ := Outcome.bind_eq_ok.mp hcreate
  cases hcreate
  cases h
  exact ⟨requireActive_eq_ok.mp hactive, require_eq_ok.mp hnumber, require_eq_ok.mp hvalidator,
    newRoot, _, rfl, ⟨require_eq_ok.mp hwhole, rfl, require_eq_ok.mp hsupported, rfl, rfl⟩, rfl⟩

/-- A block is verified by a proof for its commitment. -/
theorem verifyBlock_proved {blockNumber : UInt32} {proof : List Nat} {withdrawalsData : Bytes}
    (h : verifyBlock ext governance msg s blockNumber proof withdrawalsData = .ok s') :
    governance.validators msg.sender ∧
      verifyBlockProof ext proof (s.blocks blockNumber).commitment (s.blocks blockNumber).chunks =
        .ok true := by
  unfold verifyBlock at h
  obtain ⟨_, -, h⟩ := Outcome.bind_eq_ok.mp h
  obtain ⟨_, -, h⟩ := Outcome.bind_eq_ok.mp h
  obtain ⟨_, hvalidator, h⟩ := Outcome.bind_eq_ok.mp h
  obtain ⟨verified, hverify, h⟩ := Outcome.bind_eq_ok.mp h
  obtain ⟨_, hverified, -⟩ := Outcome.bind_eq_ok.mp h
  obtain rfl : verified = true := require_eq_ok.mp hverified
  exact ⟨require_eq_ok.mp hvalidator, hverify⟩

/-- An exit marks what was taken out. -/
theorem exit_chain {accountId : UInt32} {tokenId : UInt16} {amount : BitVec 128}
    {proof : List Nat} (h : exit ext msg s accountId tokenId amount proof = .ok s') :
    s.exodusMode ∧ s.exited accountId tokenId = false ∧
      verifyExitProof ext (s.blocks s.totalBlocksVerified).stateRoot accountId msg.sender tokenId
        amount proof ∧
      s'.chain = { s.chain with
        exited := Function.update s.exited accountId
          (Function.update (s.exited accountId) tokenId true) } := by
  unfold exit at h
  obtain ⟨_, hexodus, h⟩ := Outcome.bind_eq_ok.mp h
  obtain ⟨_, hfresh, h⟩ := Outcome.bind_eq_ok.mp h
  obtain ⟨_, hproved, h⟩ := Outcome.bind_eq_ok.mp h
  obtain ⟨balance, -, h⟩ := Outcome.bind_eq_ok.mp h
  cases h
  exact ⟨require_eq_ok.mp hexodus, Bool.eq_false_iff.mpr (require_eq_ok.mp hfresh),
    require_eq_ok.mp hproved, rfl⟩

/-- Every call of the contract is a step of the chain. -/
theorem chainStep_of_callStep {h : QueueHistory} (hinv : QueueInv s h) {e : Event}
    (hstep : BoundedStep ext s e s') : ChainStep ext s.chain e s'.chain := by
  obtain ⟨hbounds, hcall⟩ := hstep
  obtain ⟨governance, msg, call, receipt⟩ := e
  have hone : (1 : UInt32).toNat = 1 := rfl
  cases call with
  | register call =>
    obtain ⟨⟨s₁, event⟩, hregister, hcall⟩ := Outcome.bind_eq_ok.mp hcall
    cases hcall
    obtain ⟨balances, hs, -⟩ := (register_spec hregister).storage
    rw [show s'.chain = s.chain by rw [hs]; rfl]
    exact .other rfl rfl rfl
  | commitBlock blockNumber feeAccount newBlockInfo block =>
    -- the next block is written, which no block before stands at
    obtain ⟨s₁, hcommit, hcall⟩ := Outcome.bind_eq_ok.mp hcall
    cases hcall
    obtain ⟨hactive, rfl, hvalidator, newRoot, stored, rfl, hbinds, hs⟩ := commitBlock_chain hcommit
    have hnumber : (s.totalBlocksCommitted + 1).toNat = s.totalBlocksCommitted.toNat + 1 := by
      rw [UInt32.toNat_add, hone]
      exact Nat.mod_eq_of_lt hbounds
    have hverified := hinv.verified
    rw [hs]
    exact .commit hnumber (UInt32.lt_iff_toNat_lt.mpr (by rw [hnumber]; exact Nat.lt_succ_of_le hverified))
      hactive hvalidator hbinds
  | verifyBlock blockNumber proof withdrawalsData =>
    -- the proof is for the commitment of the stored block
    obtain ⟨s₁, hverify, hcall⟩ := Outcome.bind_eq_ok.mp hcall
    cases hcall
    obtain ⟨hvalidator, hproved⟩ := verifyBlock_proved hverify
    obtain ⟨hactive, rfl, hsupported, -, -, p, -, hs⟩ := verifyBlock_spec hverify
    obtain ⟨hle, hnumber⟩ := hinv.verified_lt hsupported
    rw [hs]
    exact .verify hnumber (UInt32.le_iff_toNat_le.mpr (hnumber ▸ hle)) hactive hvalidator hproved
  | revertBlocks maxBlocksToRevert =>
    -- only blocks that are not verified are taken back
    obtain ⟨s₁, hrevert, hcall⟩ := Outcome.bind_eq_ok.mp hcall
    cases hcall
    obtain ⟨hlt, hends, n, r, hn, hloop, hs⟩ := revertBlocks_spec hrevert
    have hn' : n.toNat ≤ s.totalBlocksCommitted.toNat - s.totalBlocksVerified.toNat := by
      rw [hn, toNat_minU32, UInt32.toNat_sub_of_le _ _ (UInt32.le_of_lt hlt)]
      exact Nat.min_le_right _ _
    obtain ⟨hkept, -, hblocks⟩ := hinv.reverted hends hn' hloop
    have hverified := hinv.verified
    have hge : s.totalBlocksVerified ≤ s.totalBlocksCommitted - n :=
      UInt32.le_iff_toNat_le.mpr (by omega)
    have hle : s.totalBlocksCommitted - n ≤ s.totalBlocksCommitted :=
      UInt32.le_iff_toNat_le.mpr (by omega)
    have hkeeps : ∀ i ≤ s.totalBlocksCommitted - n, r.2 i = s.blocks i := by
      intro i hi
      have hi := UInt32.le_iff_toNat_le.mp hi
      rw [hblocks, if_neg (by omega)]
    rw [hs]
    exact .revert hge hle hkeeps
  | cancelOutstandingDepositsForExodusMode n =>
    obtain ⟨s₁, hcancel, hcall⟩ := Outcome.bind_eq_ok.mp hcall
    cases hcall
    obtain ⟨-, toProcess, s₁, -, -, hs⟩ := cancelOutstandingDepositsForExodusMode_spec hcancel
    rw [hs]
    exact .other rfl rfl rfl
  | triggerExodusIfNeeded =>
    -- the exodus begins, and never ends
    obtain ⟨rfl, -⟩ := callStep_triggerExodusIfNeeded hcall
    unfold triggerExodusIfNeeded
    dsimp only
    split
    · exact .exodus
    · exact .other rfl rfl rfl
  | exit accountId tokenId amount proof =>
    -- an exit is marked, and is refused the next time
    obtain ⟨s₁, hexit, hcall⟩ := Outcome.bind_eq_ok.mp hcall
    cases hcall
    obtain ⟨hexodus, hfresh, hproved, hs⟩ := exit_chain hexit
    rw [hs]
    exact .exit hexodus hfresh hproved
  | completeWithdrawals n sends =>
    obtain ⟨rfl, -⟩ := callStep_completeWithdrawals hcall
    rw [completeWithdrawals_frame]
    exact .other rfl rfl rfl
  | withdrawETH amount success =>
    obtain ⟨⟨s₁, payments⟩, hwithdraw, hcall⟩ := Outcome.bind_eq_ok.mp hcall
    cases hcall
    obtain ⟨-, rfl⟩ := registerWithdrawal_spec (withdrawETH_spec hwithdraw).1
    exact .other rfl rfl rfl
  | withdrawERC20 token transfer =>
    obtain ⟨⟨s₁, payments⟩, hwithdraw, hcall⟩ := Outcome.bind_eq_ok.mp hcall
    cases hcall
    obtain ⟨tokenId, amount, hregister, -⟩ := withdrawERC20_spec hwithdraw
    obtain ⟨-, rfl⟩ := registerWithdrawal_spec hregister
    exact .other rfl rfl rfl
  | setAuthPubkeyHash hash nonce =>
    obtain ⟨s₁, hset, hcall⟩ := Outcome.bind_eq_ok.mp hcall
    cases hcall
    obtain ⟨-, -, rfl⟩ := setAuthPubkeyHash_spec hset
    exact .other rfl rfl rfl

/-- A run of the contract is a run of the chain. -/
theorem chain_run {h : QueueHistory} {tr : List Event} (hinv : QueueInv s h)
    (hrun : Run (BoundedStep ext) s tr s') :
    (∃ h', QueueInv s' h') ∧ Run (ChainStep ext) s.chain tr s'.chain := by
  have hstep : ∀ s e s' c, c = s.chain ∧ (∃ h, QueueInv s h) → BoundedStep ext s e s' →
      ∃ c', (c' = s'.chain ∧ ∃ h', QueueInv s' h') ∧ ChainStep ext c e c' := by
    rintro s e s' _ ⟨rfl, h, hinv⟩ hstep
    obtain ⟨h', hnext⟩ := h.exists_next hstep.2
    exact ⟨_, ⟨rfl, h', (hinv.step hstep.2 hnext hstep.1).1⟩, chainStep_of_callStep hinv hstep⟩
  obtain ⟨_, ⟨rfl, hinv'⟩, hchain⟩ := hrun.simulate hstep ⟨rfl, h, hinv⟩
  exact ⟨hinv', hchain⟩

/-- A run with its record, without the record. -/
theorem run_of_recorded {tr : List Event} {p p' : Storage × QueueHistory}
    (hrun : Run (fun p e p' => WithinBounds p.1 e.call ∧ QueueStep ext p e p') p tr p') :
    Run (BoundedStep ext) p.1 tr p'.1 := by
  have hstep : ∀ p e p' s, s = p.1 → WithinBounds p.1 e.call ∧ QueueStep ext p e p' →
      ∃ s', s' = p'.1 ∧ BoundedStep ext s e s' := by
    rintro p e p' _ rfl ⟨hbounds, hcall, -⟩
    exact ⟨p'.1, rfl, hbounds, hcall⟩
  obtain ⟨_, rfl, hcalls⟩ := hrun.simulate hstep rfl
  exact hcalls

end Calls

/-! ## Finality -/

section Finality

variable {ext : Externals} {c c' c'' : Chain} {e : Event}

/-- What is never taken back. -/
structure Extends (c c' : Chain) : Prop where
  verified : c.totalBlocksVerified ≤ c'.totalBlocksVerified
  blocks : ∀ n ≤ c.totalBlocksVerified, c'.blocks n = c.blocks n
  /-- In exodus mode no block is verified any more. -/
  exodus : c.exodusMode → c'.exodusMode ∧ c'.totalBlocksVerified = c.totalBlocksVerified

theorem Extends.refl (c : Chain) : Extends c c :=
  ⟨UInt32.le_refl _, fun _ _ => rfl, fun h => ⟨h, rfl⟩⟩

/-- A chain that is extended twice is extended. -/
theorem Extends.trans (h : Extends c c') (h' : Extends c' c'') : Extends c c'' where
  verified := UInt32.le_trans h.verified h'.verified
  blocks n hn := (h'.blocks n (UInt32.le_trans hn h.verified)).trans (h.blocks n hn)
  exodus hexodus := by
    obtain ⟨hexodus', hverified⟩ := h.exodus hexodus
    obtain ⟨hexodus'', hverified'⟩ := h'.exodus hexodus'
    exact ⟨hexodus'', hverified'.trans hverified⟩

/-- A new block comes behind the verified ones, and only blocks behind them are reverted. -/
theorem ChainStep.keeps (hstep : ChainStep ext c e c') : Extends c c' := by
  cases hstep with
  | @commit _ _ _ n _ _ _ _ _ behind active =>
    refine ⟨UInt32.le_refl _, fun i hi => ?_, fun h => absurd (active.symm.trans h) nofun⟩
    have hne : i ≠ n := fun h => UInt32.lt_irrefl _ (UInt32.lt_of_le_of_lt (h ▸ hi) behind)
    exact Function.update_of_ne hne _ _
  | verify number committed active =>
    refine ⟨UInt32.le_iff_toNat_le.mpr ?_, fun _ _ => rfl,
      fun h => absurd (active.symm.trans h) nofun⟩
    rw [number]
    exact Nat.le_succ _
  | revert verified le blocks_eq =>
    exact ⟨UInt32.le_refl _, fun i hi => blocks_eq i (UInt32.le_trans hi verified),
      fun h => ⟨h, rfl⟩⟩
  | exodus => exact ⟨UInt32.le_refl _, fun _ _ => rfl, fun _ => ⟨rfl, rfl⟩⟩
  | exit => exact ⟨UInt32.le_refl _, fun _ _ => rfl, fun h => ⟨h, rfl⟩⟩
  | other => exact Extends.refl c

/-- A verified block is never changed or reverted, whatever is called afterwards. -/
theorem verified_final {genesisRoot : Bytes32} {tr₁ tr₂ : List Event} {s₁ s₂ : Storage}
    (hrun₁ : Run (BoundedStep ext) (.initialized genesisRoot) tr₁ s₁)
    (hrun₂ : Run (BoundedStep ext) s₁ tr₂ s₂) :
    s₁.totalBlocksVerified ≤ s₂.totalBlocksVerified ∧
      (∀ n ≤ s₁.totalBlocksVerified, s₂.blocks n = s₁.blocks n) ∧
      (s₁.exodusMode → s₂.exodusMode ∧ s₂.totalBlocksVerified = s₁.totalBlocksVerified) := by
  obtain ⟨⟨h₁, hinv₁⟩, -⟩ := chain_run (QueueInv.start genesisRoot) hrun₁
  obtain ⟨-, hchain⟩ := chain_run hinv₁ hrun₂
  have hextends : Extends s₁.chain s₂.chain :=
    hchain.rel Extends.refl (fun _ _ _ => Extends.trans) fun _ _ _ => ChainStep.keeps
  exact ⟨hextends.verified, hextends.blocks, hextends.exodus⟩

/-- Another block is committed behind a verified one. -/
theorem verified_final_noops : ∃ tr₁ tr₂ s₁ s₂,
    Run (BoundedStep .sample) (.initialized 0) tr₁ s₁ ∧ Run (BoundedStep .sample) s₁ tr₂ s₂ ∧
      s₁.totalBlocksVerified = 1 ∧ s₂.totalBlocksCommitted = 2 ∧ s₂.blocks 1 = s₁.blocks 1 := by
  obtain ⟨tr₁, s₁, h₁, hrun₁, hquiet₁, hverified, hcommitted⟩ := verified_noops
  obtain ⟨e, s₂, h₂, stored, hstep, hbounds, -, -, hcommitted₂, -⟩ := commit_noops hquiet₁ h₁
  have hrun₁ := run_of_recorded hrun₁
  have hrun₂ : Run (BoundedStep .sample) s₁ [e] s₂ :=
    .single ⟨hbounds (by rw [hcommitted]; decide), hstep.1⟩
  refine ⟨tr₁, [e], s₁, s₂, hrun₁, hrun₂, hverified, by rw [hcommitted₂, hcommitted]; rfl, ?_⟩
  exact (verified_final hrun₁ hrun₂).2.1 1 (by rw [hverified]; exact UInt32.le_refl 1)

end Finality

/-! ## Where the blocks come from -/

section Origin

variable {ext : Externals} {genesisRoot : Bytes32} {tr : List Event} {c c' : Chain} {e : Event}
  {n : UInt32}

/-- A validator has committed block `n` with this call, on top of block `n - 1`. -/
def CommittedBy (ext : Externals) (blocks : UInt32 → StoredBlock) (n : UInt32) (e : Event) : Prop :=
  e.governance.validators e.msg.sender ∧ ∃ feeAccount newRoot block,
    e.call = .commitBlock n feeAccount [newRoot] block ∧
      Binds ext n feeAccount (blocks (n - 1)).stateRoot newRoot block.publicData (blocks n)

/-- A validator has proved block `n` with this call. -/
def VerifiedBy (ext : Externals) (blocks : UInt32 → StoredBlock) (n : UInt32) (e : Event) : Prop :=
  e.governance.validators e.msg.sender ∧ ∃ proof withdrawalsData,
    e.call = .verifyBlock n proof withdrawalsData ∧
      verifyBlockProof ext proof (blocks n).commitment (blocks n).chunks = .ok true

/-- The last call that committed block `n`, and behind it one that proved the block, if it
is verified. -/
def Origin (ext : Externals) (c : Chain) (tr : List Event) (n : UInt32) : Prop :=
  ∃ before commit after, tr = before ++ commit :: after ∧ CommittedBy ext c.blocks n commit ∧
    (∀ e ∈ after, e.call.commits ≠ some n) ∧
    (n ≤ c.totalBlocksVerified → ∃ e ∈ after, VerifiedBy ext c.blocks n e)

/-- The origin of a block stays what it was. -/
theorem Origin.next (h : Origin ext c tr n) (hblock : c'.blocks n = c.blocks n)
    (hprevious : c'.blocks (n - 1) = c.blocks (n - 1)) (hcommits : e.call.commits ≠ some n)
    (hverified : n ≤ c'.totalBlocksVerified →
      n ≤ c.totalBlocksVerified ∨ VerifiedBy ext c.blocks n e) :
    Origin ext c' (tr ++ [e]) n := by
  obtain ⟨before, commit, after, rfl, hcommit, hlast, hproved⟩ := h
  refine ⟨before, commit, after ++ [e], by rw [List.append_assoc]; rfl, ?_, ?_, fun hn => ?_⟩
  · rwa [CommittedBy, hblock, hprevious]
  · intro e' he'
    rcases List.mem_append.mp he' with he' | he'
    · exact hlast e' he'
    · rwa [List.mem_singleton.mp he']
  · simp only [VerifiedBy, hblock]
    rcases hverified hn with hn | hnew
    · obtain ⟨e', he', hproved⟩ := hproved hn
      exact ⟨e', List.mem_append_left _ he', hproved⟩
    · exact ⟨e, List.mem_append_right _ (List.mem_singleton_self e), hnew⟩

/-- The block before one that is committed is committed, or the genesis block. -/
theorem sub_one_le {k : UInt32} (hpos : 0 < n) (hn : n ≤ k) : n - 1 ≤ k := by
  have hone : 1 ≤ n := UInt32.le_iff_toNat_le.mpr (UInt32.lt_iff_toNat_lt.mp hpos)
  rw [UInt32.le_iff_toNat_le, UInt32.toNat_sub_of_le _ _ hone]
  exact Nat.le_trans (Nat.sub_le _ _) (UInt32.le_iff_toNat_le.mp hn)

/-- What is not the new block is one of those before. -/
theorem le_of_ne_next {i k : UInt32} (hnumber : n.toNat = k.toNat + 1) (hi : i ≤ n) (hin : i ≠ n) :
    i ≤ k := by
  have hlt := UInt32.lt_iff_toNat_lt.mp (UInt32.lt_of_le_of_ne hi hin)
  rw [hnumber] at hlt
  exact UInt32.le_iff_toNat_le.mpr (Nat.le_of_lt_succ hlt)

/-- What the calls so far say about the chain. -/
structure Recorded (ext : Externals) (genesisRoot : Bytes32) (tr : List Event) (c : Chain) :
    Prop where
  genesis : c.blocks 0 = { stateRoot := genesisRoot }
  verified : tr.filterMap (·.call.verifies) =
    (List.range' 1 c.totalBlocksVerified.toNat).map UInt32.ofNat
  origin : ∀ n, 0 < n → n ≤ c.totalBlocksCommitted → Origin ext c tr n

namespace Recorded

theorem start (ext : Externals) (genesisRoot : Bytes32) :
    Recorded ext genesisRoot [] (Storage.initialized genesisRoot).chain where
  genesis := rfl
  verified := rfl
  origin _ hpos hn := absurd (UInt32.lt_of_lt_of_le hpos hn) (UInt32.lt_irrefl _)

/-- The verified blocks are the first ones, each verified once. -/
theorem filterMap_verifies (h : Recorded ext genesisRoot tr c) (hverifies : e.call.verifies = none) :
    (tr ++ [e]).filterMap (·.call.verifies) =
      (List.range' 1 c.totalBlocksVerified.toNat).map UInt32.ofNat := by
  rw [List.filterMap_append, h.verified, List.filterMap_cons, hverifies, List.filterMap_nil,
    List.append_nil]

/-- Blocks may go at the end, and nothing is committed or verified. -/
theorem keep (h : Recorded ext genesisRoot tr c)
    (hle : c'.totalBlocksCommitted ≤ c.totalBlocksCommitted)
    (hblocks : ∀ i ≤ c'.totalBlocksCommitted, c'.blocks i = c.blocks i)
    (hverified : c'.totalBlocksVerified = c.totalBlocksVerified)
    (hcommits : e.call.commits = none) (hverifies : e.call.verifies = none) :
    Recorded ext genesisRoot (tr ++ [e]) c' where
  genesis := (hblocks 0 (UInt32.zero_le)).trans h.genesis
  verified := by rw [hverified, h.filterMap_verifies hverifies]
  origin n hpos hn := by
    refine (h.origin n hpos (UInt32.le_trans hn hle)).next (hblocks n hn)
      (hblocks (n - 1) (sub_one_le hpos hn)) ?_ fun hn => .inl (hverified ▸ hn)
    rw [hcommits]
    nofun

theorem next (h : Recorded ext genesisRoot tr c) (hstep : ChainStep ext c e c') :
    Recorded ext genesisRoot (tr ++ [e]) c' := by
  cases hstep with
  | @commit governance msg receipt n feeAccount newRoot block stored number behind active validator
      binds =>
    -- the new block has the commit as its origin, the others keep theirs
    have hne : ∀ i ≤ c.totalBlocksCommitted, i ≠ n := by
      intro i hi hin
      have hi := UInt32.le_iff_toNat_le.mp hi
      rw [hin] at hi
      omega
    have hprevious : n - 1 ≠ n := by
      apply hne
      have hone : 1 ≤ n := UInt32.le_iff_toNat_le.mpr (number ▸ Nat.le_add_left _ _)
      rw [UInt32.le_iff_toNat_le, UInt32.toNat_sub_of_le _ _ hone, number]
      exact Nat.le_refl _
    refine ⟨?_, h.filterMap_verifies rfl, fun i hpos hi => ?_⟩
    · exact (Function.update_of_ne (hne 0 (UInt32.zero_le)) _ _).trans h.genesis
    · by_cases hin : i = n
      · subst hin
        refine ⟨tr, _, [], rfl, ⟨validator, feeAccount, newRoot, block, rfl, ?_⟩, nofun,
          fun hverified => absurd (UInt32.lt_of_lt_of_le behind hverified) (UInt32.lt_irrefl _)⟩
        show Binds ext i feeAccount (Function.update c.blocks i stored (i - 1)).stateRoot newRoot
          block.publicData (Function.update c.blocks i stored i)
        rwa [Function.update_self, Function.update_of_ne hprevious]
      · have hle := le_of_ne_next number hi hin
        exact (h.origin i hpos hle).next (Function.update_of_ne (hne i hle) _ _)
          (Function.update_of_ne (hne _ (sub_one_le hpos hle)) _ _)
          (fun hcommits => hin (Option.some.inj hcommits).symm) .inl
  | @verify governance msg receipt n proof withdrawalsData number committed active validator proved =>
    -- the block was committed before, and now it is proved as well
    refine ⟨h.genesis, ?_, fun i hpos hi => ?_⟩
    · rw [List.filterMap_append, h.verified]
      show _ ++ [n] = (List.range' 1 n.toNat).map UInt32.ofNat
      rw [number, List.range'_concat, List.map_append, List.map_singleton, Nat.one_mul,
        Nat.add_comm 1, ← number, UInt32.ofNat_toNat]
    · refine (h.origin i hpos hi).next rfl rfl nofun fun hn => ?_
      by_cases hin : i = n
      · subst hin
        exact .inr ⟨validator, proof, withdrawalsData, rfl, proved⟩
      · exact .inl (le_of_ne_next number hn hin)
  | revert verified le blocks_eq => exact h.keep le blocks_eq rfl rfl rfl
  | exodus => exact h.keep (UInt32.le_refl _) (fun _ _ => rfl) rfl rfl rfl
  | exit => exact h.keep (UInt32.le_refl _) (fun _ _ => rfl) rfl rfl rfl
  | other commits verifies => exact h.keep (UInt32.le_refl _) (fun _ _ => rfl) rfl commits verifies

end Recorded

/-- The verified blocks lead from the genesis root to the last root, each by a commit and a
proof of its own. -/
theorem verified_chain {s : Storage}
    (hrun : Run (BoundedStep ext) (.initialized genesisRoot) tr s) :
    s.blocks 0 = { stateRoot := genesisRoot } ∧
      tr.filterMap (·.call.verifies) =
        (List.range' 1 s.totalBlocksVerified.toNat).map UInt32.ofNat ∧
      s.totalBlocksVerified ≤ s.totalBlocksCommitted ∧
      ∀ n, 0 < n → n ≤ s.totalBlocksCommitted → Origin ext s.chain tr n := by
  obtain ⟨⟨h, hinv⟩, hchain⟩ := chain_run (QueueInv.start genesisRoot) hrun
  have hrecorded : Recorded ext genesisRoot ([] ++ tr) s.chain :=
    hchain.record (I := Recorded ext genesisRoot) (fun _ _ _ _ => Recorded.next)
      (Recorded.start ext genesisRoot)
  exact ⟨hrecorded.genesis, hrecorded.verified, UInt32.le_iff_toNat_le.mpr hinv.verified,
    hrecorded.origin⟩

theorem verified_chain_noops : ∃ tr s, Run (BoundedStep .sample) (.initialized 0) tr s ∧
    s.totalBlocksVerified = 1 ∧ tr.filterMap (·.call.verifies) = [1] ∧
      Origin .sample s.chain tr 1 := by
  obtain ⟨tr, s, h, hrun, -, hverified, hcommitted⟩ := verified_noops
  have hrun := run_of_recorded hrun
  obtain ⟨-, hnumbers, -, horigin⟩ := verified_chain hrun
  rw [hverified] at hnumbers
  exact ⟨tr, s, hrun, hverified, hnumbers,
    horigin 1 (by decide) (by rw [hcommitted]; exact UInt32.le_refl 1)⟩

end Origin

/-! ## Exits -/

section Exits

variable {ext : Externals} {genesisRoot : Bytes32} {tr : List Event} {c c' : Chain} {e : Event}

/-- What the exits so far say about the chain. -/
structure Exited (ext : Externals) (tr : List Event) (c : Chain) : Prop where
  once : (tr.filterMap (·.call.exits)).Nodup
  exited : ∀ accountId tokenId,
    c.exited accountId tokenId ↔ (accountId, tokenId) ∈ tr.filterMap (·.call.exits)
  proved : ∀ e ∈ tr, ∀ accountId tokenId amount proof, e.call = .exit accountId tokenId amount proof →
    c.exodusMode ∧ verifyExitProof ext (c.blocks c.totalBlocksVerified).stateRoot accountId
      e.msg.sender tokenId amount proof

namespace Exited

theorem start (ext : Externals) (genesisRoot : Bytes32) :
    Exited ext [] (Storage.initialized genesisRoot).chain where
  once := .nil
  exited _ _ := iff_of_false nofun List.not_mem_nil
  proved _ he := absurd he List.not_mem_nil

/-- In exodus mode the root of the last verified block stays what it is. -/
theorem proved_next (h : Exited ext tr c) (hkeeps : Extends c c') (e' : Event) (he' : e' ∈ tr)
    (accountId : UInt32) (tokenId : UInt16) (amount : BitVec 128) (proof : List Nat)
    (hcall : e'.call = .exit accountId tokenId amount proof) :
    c'.exodusMode ∧ verifyExitProof ext (c'.blocks c'.totalBlocksVerified).stateRoot accountId
      e'.msg.sender tokenId amount proof := by
  obtain ⟨hexodus, hproved⟩ := h.proved e' he' accountId tokenId amount proof hcall
  obtain ⟨hexodus', hverified⟩ := hkeeps.exodus hexodus
  rw [hverified, hkeeps.blocks _ (UInt32.le_refl _)]
  exact ⟨hexodus', hproved⟩

theorem keep (h : Exited ext tr c) (hkeeps : Extends c c') (hexited : c'.exited = c.exited)
    (hexits : e.call.exits = none) : Exited ext (tr ++ [e]) c' := by
  have hfilter : (tr ++ [e]).filterMap (·.call.exits) = tr.filterMap (·.call.exits) := by
    rw [List.filterMap_append, List.filterMap_cons, hexits, List.filterMap_nil, List.append_nil]
  refine ⟨hfilter ▸ h.once, fun a t => ?_, fun e' he' a t amount proof hcall => ?_⟩
  · rw [hfilter, hexited]
    exact h.exited a t
  · rcases List.mem_append.mp he' with he' | he'
    · exact h.proved_next hkeeps e' he' a t amount proof hcall
    · rw [← List.mem_singleton.mp he', hcall] at hexits
      cases hexits

theorem next (h : Exited ext tr c) (hstep : ChainStep ext c e c') :
    Exited ext (tr ++ [e]) c' := by
  have hkeeps := hstep.keeps
  cases hstep with
  | @exit governance msg receipt accountId tokenId amount proof exodus fresh proved =>
    have hfilter : ∀ e : Event, e.call = .exit accountId tokenId amount proof →
        (tr ++ [e]).filterMap (·.call.exits) =
          tr.filterMap (·.call.exits) ++ [(accountId, tokenId)] := by
      intro e hcall
      rw [List.filterMap_append, List.filterMap_cons, hcall]
      rfl
    have hnew : (accountId, tokenId) ∉ tr.filterMap (·.call.exits) := fun hmem =>
      absurd (fresh.symm.trans ((h.exited accountId tokenId).mpr hmem)) nofun
    refine ⟨?_, fun a t => ?_, fun e' he' a t amount' proof' hcall => ?_⟩
    · rw [hfilter _ rfl, ← List.concat_eq_append]
      exact h.once.concat hnew
    · rw [hfilter _ rfl, List.mem_append, ← h.exited a t, List.mem_singleton]
      show Function.update c.exited accountId (Function.update (c.exited accountId) tokenId true) a
        t ↔ _
      by_cases ha : a = accountId
      · subst ha
        rw [Function.update_self]
        by_cases ht : t = tokenId
        · subst ht
          rw [Function.update_self]
          exact iff_of_true rfl (.inr rfl)
        · rw [Function.update_of_ne ht]
          exact (or_iff_left fun heq => ht (congrArg Prod.snd heq)).symm
      · rw [Function.update_of_ne ha]
        exact (or_iff_left fun heq => ha (congrArg Prod.fst heq)).symm
    · rcases List.mem_append.mp he' with he' | he'
      · exact h.proved_next hkeeps e' he' a t amount' proof' hcall
      · obtain rfl := List.mem_singleton.mp he'
        cases hcall
        exact ⟨exodus, proved⟩
  | other commits verifies exits => exact h.keep hkeeps rfl exits
  | _ => exact h.keep hkeeps rfl rfl

end Exited

/-- An account leaves with a token once at most, and by a proof against the last verified root. -/
theorem exits_once {s : Storage} (hrun : Run (BoundedStep ext) (.initialized genesisRoot) tr s) :
    (tr.filterMap (·.call.exits)).Nodup ∧
      (∀ accountId tokenId,
        s.exited accountId tokenId ↔ (accountId, tokenId) ∈ tr.filterMap (·.call.exits)) ∧
      ∀ e ∈ tr, ∀ accountId tokenId amount proof,
        e.call = .exit accountId tokenId amount proof →
          s.exodusMode ∧ verifyExitProof ext (s.blocks s.totalBlocksVerified).stateRoot accountId
            e.msg.sender tokenId amount proof := by
  obtain ⟨-, hchain⟩ := chain_run (QueueInv.start genesisRoot) hrun
  have hexited : Exited ext ([] ++ tr) s.chain :=
    hchain.record (I := Exited ext) (fun _ _ _ _ => Exited.next) (Exited.start ext genesisRoot)
  exact ⟨hexited.once, hexited.exited, hexited.proved⟩

/-- A deposit is not served in time, and account 1 takes out 3 of token 0. -/
theorem exits_once_sample : ∃ tr s, Run (BoundedStep .sample) (.initialized 0) tr s ∧
    tr.filterMap (·.call.exits) = [(1, 0)] ∧ s.exodusMode ∧ s.exited 1 0 ∧
      verifyExitProof .sample (s.blocks s.totalBlocksVerified).stateRoot 1 7 0 3 [] := by
  let late : Msg := { Msg.sample with blockNumber := PRIORITY_EXPIRATION }
  have hcalls : ∃ p₁ p₂ p₃ : Storage × Receipt,
      perform .sample .sample .sample (.initialized 0) (.register (.depositETH 5)) = .ok p₁ ∧
      perform .sample .sample late p₁.1 .triggerExodusIfNeeded = .ok p₂ ∧
      perform .sample .sample .sample p₂.1 (.exit 1 0 3 []) = .ok p₃ :=
    ⟨_, _, _, rfl, rfl, rfl⟩
  obtain ⟨p₁, p₂, p₃, hregister, htrigger, hexit⟩ := hcalls
  have hbounds : WithinBounds (.initialized 0) (.register (.depositETH 5)) := by
    show 0 + 0 + 1 < 2 ^ 64
    decide
  let exit : Event := ⟨.sample, .sample, .exit 1 0 3 [], p₃.2⟩
  have hrun : Run (BoundedStep .sample) (.initialized 0)
      [⟨.sample, .sample, .register (.depositETH 5), p₁.2⟩,
        ⟨.sample, late, .triggerExodusIfNeeded, p₂.2⟩, exit] p₃.1 :=
    .cons ⟨hbounds, hregister⟩ (.cons ⟨trivial, htrigger⟩ (.single ⟨trivial, hexit⟩))
  obtain ⟨-, hexited, hproved⟩ := exits_once hrun
  have hlast := hproved exit (.tail _ (.tail _ (.head _))) 1 0 3 [] rfl
  exact ⟨_, p₃.1, hrun, rfl, hlast.1, (hexited 1 0).mpr (.head _), hlast.2⟩

end Exits

end ZkSync.Contract
