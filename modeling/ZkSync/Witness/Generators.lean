import ZkSync.Witness.BlockRuns
import ZkSync.Witness.RestoredTree

/-!
# Witness generators

`zksync_witness_generator`: the prover server starts a fixed number of generators behind
the last verified block. Each takes every so many blocks, waits until the block is there,
loads the account tree of the block before it, builds the witness and stores it; when
anything fails it tries the same block again. Between the two halves of a round, the tree
that was loaded and the witness that is stored, the other generators, the state keeper and
the committer go on, and the server may be started again (`GeneratorStep`).

* `accountTree_loaded` — when the tree of a block can be loaded, and that it is the right one.
* `witnesses_of_run` — a stored witness was built for its block over the accounts before it.
* `blocks_taken` — no block is passed by: each belongs to one generator, which does not go on
  before the witness is stored.
* `never_witnessed` — when the tree cannot be loaded: it was cached, the witness behind it was
  not stored, and meanwhile a later tree was cached (`exists_lost`). The insert of the cache
  fails in every later round; the block never gets a witness.
-/

namespace ZkSync

open Circuit Smt SparseMerkleTree

/-! ## The server -/

/-- A row of `block_witness`. -/
structure StorageBlockWitness where
  block : Nat
  witness : WitnessBuilder

/-- A generator, with its place in `maintain`: its current block, and the tree between the
two halves of a round. -/
structure WitnessGenerator where
  startBlock : BlockNumber
  blockStep : BlockNumber
  currentBlock : BlockNumber
  loaded : Option CircuitAccountTree

/-- What a generator finds in the table for the number it stands at. -/
inductive BlockInfo where
  | NotReadyBlock
  | WithWitness
  | NoWitness (block : Block)

/-- The database and the generators that run on it. `lastVerifiedBlock` is the block behind
which they were started. -/
structure ProverServer where
  kept : KeptDb
  blocks : List Block
  caches : TreeCaches
  witnesses : Table StorageBlockWitness StorageBlockWitness.block
  lastVerifiedBlock : BlockNumber
  generators : List WitnessGenerator

namespace WitnessGenerator

/-- A generator begins with its own first block, and no tree. -/
def new (startBlock blockStep : BlockNumber) : WitnessGenerator :=
  ⟨startBlock, blockStep, startBlock, none⟩

/-- A generator skips the blocks of the others, and waits where there is no block yet. -/
def nextWitnessBlock (currentBlock blockStep : BlockNumber) : BlockInfo → BlockNumber
  | .NotReadyBlock => currentBlock
  | .WithWitness => currentBlock + blockStep
  | .NoWitness _ => currentBlock + blockStep

end WitnessGenerator

namespace ProverServer

/-- The block row is only there once the block was committed. -/
def getBlock (s : ProverServer) (block : BlockNumber) : Option Block :=
  s.blocks.find? fun b => b.blockNumber = block

/-- A block that already has a witness is passed, whoever stored it. -/
def shouldWorkOnBlock (s : ProverServer) (blockNumber : BlockNumber) : BlockInfo :=
  match s.getBlock blockNumber with
  | some block =>
    if (s.witnesses.find blockNumber.toNat).isNone then .NoWitness block else .WithWitness
  | none => .NotReadyBlock

/-- `run_prover_server`: the generators are started. -/
def runProverServer (s : ProverServer) (witnessGenerators : Nat) : ProverServer :=
  let lastVerifiedBlock := s.kept.db.getLastVerifiedBlock
  { s with
    lastVerifiedBlock := lastVerifiedBlock
    generators := (List.range witnessGenerators).map fun offset =>
      .new (UInt32.ofNat (lastVerifiedBlock.toNat + offset + 1)) (UInt32.ofNat witnessGenerators) }

/-- The generator at a position goes on as `gen`. -/
def setGenerator (s : ProverServer) (g : Nat) (gen : WitnessGenerator) : ProverServer :=
  { s with generators := s.generators.set g gen }

end ProverServer

/-- What `load_account_tree` of the state keeper does with the table of caches: it stores
the tree of the block that it starts from, unless that is cached. -/
def ZkSyncStateInitParams.cacheTree (H : Hasher Fr) (it : HashIteration) (order : CacheIteration)
    (db : Db) (caches : TreeCaches) : Outcome TreeCaches := do
  let (block, accounts) := match caches.getAccountTreeCache with
    | some (cachedBlock, _) => db.loadCommittedState (some cachedBlock)
    | none => db.loadVerifiedState
  if (caches.find block.toNat).isSome then return caches
  else
    let (_, tree) ← ((new H).insertAccounts it accounts).tree.rootHash H
    caches.storeAccountTreeCache block (tree.tree.getInternals (order.entries tree.tree.cache))

/-- The block that a call of the state keeper seals. -/
def KeptCall.sealedBlock : KeptCall → List Block
  | .keeper _ (.sealed request _) => [request.block]
  | _ => []

/-- What happens at the server: the keeper stores blocks, the witness threads work, and either
may fail. -/
inductive GeneratorCall where
  | server (call : KeptCall)
  | keeperCache
  | runProverServer (witnessGenerators : Nat)
  | passBlock (g : Nat)
  | loadTree (g : Nat)
  | fail (g : Nat)
  | storeWitness (g : Nat)

/-- A step of the server, of the state keeper or of the generator at a position. A round is
cut where the tree is loaded; a failure in either half, of the database or of the process,
leaves the generator at its block, and the cache stored if it came to that. A round that
finds no block, or fails before it stores anything, changes nothing and is no step. -/
inductive GeneratorStep (env : Env) (sha256 : Bytes → BitVec 256) :
    ProverServer → GeneratorCall → ProverServer → Prop
  | server {s : ProverServer} {kept : KeptDb} {call : KeptCall} :
      KeptStep env s.kept call kept →
      GeneratorStep env sha256 s (.server call)
        { s with kept := kept, blocks := s.blocks ++ call.sealedBlock }
  | keeperCache {s : ProverServer} {it : HashIteration} {order : CacheIteration}
      {caches : TreeCaches} :
      ZkSyncStateInitParams.cacheTree env.hasher it order s.kept.db s.caches = .ok caches →
      GeneratorStep env sha256 s .keeperCache { s with caches := caches }
  | runProverServer {s : ProverServer} {witnessGenerators : Nat} :
      GeneratorStep env sha256 s (.runProverServer witnessGenerators)
        (s.runProverServer witnessGenerators)
  | passBlock {s : ProverServer} {g : Nat} {gen : WitnessGenerator} :
      s.generators[g]? = some gen → gen.loaded = none →
      s.shouldWorkOnBlock gen.currentBlock = .WithWitness →
      GeneratorStep env sha256 s (.passBlock g) (s.setGenerator g { gen with
        currentBlock := WitnessGenerator.nextWitnessBlock gen.currentBlock gen.blockStep
          .WithWitness })
  | loadTree {s : ProverServer} {g : Nat} {gen : WitnessGenerator} {block : Block}
      {it : HashIteration} {order : CacheIteration} {tree : CircuitAccountTree}
      {caches : TreeCaches} :
      s.generators[g]? = some gen → gen.loaded = none →
      s.shouldWorkOnBlock gen.currentBlock = .NoWitness block →
      WitnessGenerator.restoreAccountTree env.hasher it order s.kept.db s.caches
        (block.blockNumber - 1) = .ok (tree, caches) →
      GeneratorStep env sha256 s (.loadTree g)
        ({ s with caches := caches }.setGenerator g { gen with loaded := some tree })
  | fail {s : ProverServer} {g : Nat} {gen : WitnessGenerator} :
      s.generators[g]? = some gen →
      GeneratorStep env sha256 s (.fail g) (s.setGenerator g { gen with loaded := none })
  | storeWitness {s : ProverServer} {g : Nat} {gen : WitnessGenerator} {block : Block}
      {loaded tree : CircuitAccountTree} {witness : WitnessBuilder} :
      s.generators[g]? = some gen → gen.loaded = some loaded →
      s.getBlock gen.currentBlock = some block →
      WitnessGenerator.checkRootHash env.hasher s.kept.db (block.blockNumber - 1) loaded =
        .ok tree →
      buildBlockWitness env.hasher sha256 tree block = .ok witness →
      GeneratorStep env sha256 s (.storeWitness g)
        ({ s with witnesses := s.witnesses.insertNew ⟨block.blockNumber.toNat, witness⟩ }.setGenerator
          g { gen with
            currentBlock := WitnessGenerator.nextWitnessBlock gen.currentBlock gen.blockStep
              (.NoWitness block)
            loaded := none })

/-! ## What the server does -/

section Kept

variable {env : Env} {σ σ' : KeptDb} {call : KeptCall}

/-- What was sealed stays, and what is sealed follows it. -/
structure Grows (σ : KeptDb) (call : KeptCall) (σ' : KeptDb) : Prop where
  sealed : call.sealedBlock.map (fun block => block.blockNumber.toNat) =
    List.range' (σ.history.lastBlock + 1) (σ'.history.lastBlock - σ.history.lastBlock)
  le : σ.history.lastBlock ≤ σ'.history.lastBlock
  accountsAt : ∀ n, n ≤ σ.history.lastBlock → σ'.history.accountsAt n = σ.history.accountsAt n
  fit : σ'.history.UpdatesFit → σ.history.UpdatesFit

/-- Whatever the keeper does, the sealed blocks stay, and their accounts with them. -/
theorem KeptStep.grows (hstep : KeptStep env σ call σ') : Grows σ call σ' := by
  cases hstep with
  | start =>
    refine ⟨?_, Nat.le_refl _, fun _ _ => rfl, fun h => h⟩
    rw [Nat.sub_self]
    rfl
  | @silent db h k k' call reply hcall hnone =>
    refine ⟨?_, Nat.le_refl _, fun _ _ => rfl, fun h => h⟩
    rw [Nat.sub_self]
    cases reply with
    | sealed => cases hnone
    | stored => rfl
    | executed => rfl
    | full => rfl
  | @savePendingBlock db db' h k k' call pendingBlock updates =>
    refine ⟨?_, Nat.le_refl _, fun _ _ => rfl, fun hfit u hu => hfit u ?_⟩
    · show _ = List.range' (h.lastBlock + 1) (h.lastBlock - h.lastBlock)
      rw [Nat.sub_self]
      rfl
    · dsimp only
      rw [h.flatten_pending]
      exact List.mem_append_left _ hu
  | @commitBlock db db' h k k' call request updates _ _ hnumber =>
    have hlast := History.lastBlock_append (h := h) (h.pending ++ updates.accountUpdates) []
    refine ⟨?_, ?_, fun n hn => History.accountsAt_append _ _ hn, fun hfit u hu => hfit u ?_⟩
    · dsimp only
      rw [hlast, Nat.add_sub_cancel_left]
      exact congrArg (fun n => [n]) hnumber
    · dsimp only
      rw [hlast]
      exact Nat.le_succ _
    · dsimp only
      rw [h.flatten_sealed]
      exact List.mem_append_left _ hu
  | @verifyNextBlock db db' h keeper =>
    refine ⟨?_, Nat.le_refl _, fun _ _ => rfl, fun h => h⟩
    show _ = List.range' (h.lastBlock + 1) (h.lastBlock - h.lastBlock)
    rw [Nat.sub_self]
    rfl

end Kept

/-! ## The table of caches -/

section Caches

variable {H : Hasher Fr} {it : HashIteration} {order : CacheIteration} {σ : KeptDb}
  {caches caches' : TreeCaches} {block : BlockNumber} {accounts : AccountMap}
  {internals : SparseMerkleTreeSerializableCacheBN256}

/-- A cache is stored once for each block, and behind the others. -/
theorem TreeCaches.storeAccountTreeCache_eq_ok
    (h : caches.storeAccountTreeCache block internals = .ok caches') :
    (block = 0 ∧ caches' = caches) ∨ (block ≠ 0 ∧ caches.find block.toNat = none ∧
      caches'.rows = caches.rows ++ [⟨block.toNat, internals⟩]) := by
  unfold TreeCaches.storeAccountTreeCache at h
  by_cases hzero : block = 0
  · rw [if_pos hzero] at h
    cases h
    exact Or.inl ⟨hzero, rfl⟩
  · rw [if_neg hzero] at h
    obtain ⟨hnone, hrows⟩ := Table.insert_eq_some.mp (Outcome.okOrElse_eq_ok.mp h)
    exact Or.inr ⟨hzero, hnone, hrows⟩

/-- Storing a cache never fails: where one is there, it stays. -/
theorem TreeCaches.exists_store (internals : SparseMerkleTreeSerializableCacheBN256)
    (hnone : caches.find block.toNat = none) :
    ∃ caches', caches.storeAccountTreeCache block internals = .ok caches' := by
  unfold TreeCaches.storeAccountTreeCache
  by_cases hzero : block = 0
  · rw [if_pos hzero]
    exact ⟨caches, rfl⟩
  · have hkey : block.toNat ∉ caches.rows.map AccountTreeCache.block := by
      intro hmem
      rw [Table.mem_keys, hnone] at hmem
      cases hmem
    rw [if_neg hzero]
    unfold Table.insert
    rw [dif_neg hkey]
    exact ⟨_, rfl⟩

/-- Rows are not removed. -/
theorem TreeCaches.mem_of_store (h : caches.storeAccountTreeCache block internals = .ok caches')
    {row : AccountTreeCache} (hrow : row ∈ caches.rows) : row ∈ caches'.rows := by
  rcases TreeCaches.storeAccountTreeCache_eq_ok h with ⟨-, rfl⟩ | ⟨-, -, hrows⟩
  · exact hrow
  · rw [hrows]
    exact List.mem_append_left _ hrow

/-- A cache of the right internals keeps the table right. -/
theorem TreeCaches.CachesOf.store (hcaches : caches.CachesOf H σ.history)
    (hblock : block.toNat ≤ σ.history.lastBlock)
    (hcache : CacheOf (circuitParams H) accountTreeDepth
      (accountBits H (σ.history.accountsAt block.toNat)) internals)
    (h : caches.storeAccountTreeCache block internals = .ok caches') :
    caches'.CachesOf H σ.history := by
  rcases TreeCaches.storeAccountTreeCache_eq_ok h with ⟨-, rfl⟩ | ⟨hzero, -, hrows⟩
  · exact hcaches
  intro row hrow
  rw [hrows] at hrow
  rcases List.mem_append.mp hrow with hrow | hrow
  · exact hcaches row hrow
  · rw [List.mem_singleton.mp hrow]
    refine ⟨Nat.pos_of_ne_zero fun h => hzero ?_, hblock, hcache⟩
    exact UInt32.toNat_inj.mp h

/-- What the caches say of old blocks is still true when the keeper seals new ones. -/
theorem TreeCaches.CachesOf.grows {σ' : KeptDb} {call : KeptCall} (hgrows : Grows σ call σ')
    (hcaches : caches.CachesOf H σ.history) : caches.CachesOf H σ'.history := by
  intro row hrow
  obtain ⟨hpos, hle, hcache⟩ := hcaches row hrow
  rw [← hgrows.accountsAt row.block hle] at hcache
  exact ⟨hpos, hle.trans hgrows.le, hcache⟩

/-- Of a committed block, the tree that a generator loads is that of the accounts after it,
and the table stays one of caches. -/
theorem restoreAccountTree_caches (hσ : KeptOk σ) (hfit : σ.history.UpdatesFit)
    (hcaches : caches.CachesOf H σ.history) (hblock : block.toNat ≤ σ.history.lastBlock)
    {tree : CircuitAccountTree} (h : WitnessGenerator.restoreAccountTree H it order σ.db caches
      block = .ok (tree, caches')) :
    TreeOf H (σ.history.accountsAt block.toNat) tree ∧ caches'.CachesOf H σ.history := by
  obtain ⟨tree', internals, htree, hcache, heq⟩ :=
    restoreAccountTree_eq it order hσ hfit hcaches hblock
  rw [heq] at h
  split at h
  · cases h
    exact ⟨htree, hcaches⟩
  · obtain ⟨stored, hstore, h⟩ := Outcome.bind_eq_ok.mp h
    cases h
    exact ⟨htree, hcaches.store hblock hcache hstore⟩

/-- The table lets a tree through when its cache is the newest one, or is not there. -/
theorem restoreAccountTree_storable {tree : CircuitAccountTree}
    (h : WitnessGenerator.restoreAccountTree H it order σ.db caches block =
      if caches.newest.map AccountTreeCache.block = some block.toNat then .ok (tree, caches)
      else (do
        let caches ← caches.storeAccountTreeCache block internals
        return (tree, caches))) :
    ((∃ loaded, WitnessGenerator.restoreAccountTree H it order σ.db caches block = .ok loaded) ↔
      caches.Storable block) ∧
    ∀ tree' caches', WitnessGenerator.restoreAccountTree H it order σ.db caches block =
      .ok (tree', caches') → tree' = tree := by
  rw [h]
  unfold TreeCaches.Storable TreeCaches.storeAccountTreeCache
  -- the newest cache is of this very block
  by_cases hnewest : caches.newest.map AccountTreeCache.block = some block.toNat
  · rw [if_pos hnewest]
    refine ⟨⟨fun _ => Or.inr (Or.inl (Option.map_eq_some_iff.mp hnewest)), fun _ => ⟨_, rfl⟩⟩,
      fun tree' caches' h => ?_⟩
    cases h
    rfl
  rw [if_neg hnewest]
  -- the genesis block has no cache, and nothing to compare with
  by_cases hzero : block = 0
  · rw [if_pos hzero]
    refine ⟨⟨fun _ => Or.inl hzero, fun _ => ⟨_, rfl⟩⟩, fun tree' caches' h => ?_⟩
    cases h
    rfl
  rw [if_neg hzero]
  constructor
  · constructor
    · rintro ⟨loaded, h⟩
      obtain ⟨caches', hstore, -⟩ := Outcome.bind_eq_ok.mp h
      exact Or.inr (Or.inr (Table.insert_eq_some.mp (Outcome.okOrElse_eq_ok.mp hstore)).1)
    · rintro (h | h | hnone)
      · exact absurd h hzero
      · exact absurd (Option.map_eq_some_iff.mpr h) hnewest
      · obtain ⟨caches', hstore⟩ := TreeCaches.exists_store internals hnone
        unfold TreeCaches.storeAccountTreeCache at hstore
        rw [if_neg hzero] at hstore
        rw [hstore]
        exact ⟨_, rfl⟩
  · intro tree' caches' h
    obtain ⟨caches₁, -, h⟩ := Outcome.bind_eq_ok.mp h
    cases h
    rfl

/-- The state keeper inserts all accounts. -/
theorem insertAccounts_actsAs {leaf : Nat → Outcome (List Bool)}
    (entries : List (Σ _ : AccountId, Account)) (p : ZkSyncStateInitParams)
    (h : ActsAs (accountParams H) accountTreeDepth leaf p.tree.tree) :
    ActsAs (accountParams H) accountTreeDepth (writtenBits H leaf entries)
      (entries.foldl (fun p e => p.insertAccount e.1 e.2) p).tree.tree := by
  induction entries generalizing p leaf with
  | nil => exact h
  | cons e entries ih =>
    obtain ⟨tree, hinsert, htree⟩ := h.insert (i := e.1) e.1.toNat_lt e.2
    rw [AccountTree.insert_tree] at hinsert
    obtain rfl := Except.ok.inj hinsert
    exact ih (p.insertAccount e.1 e.2) htree

/-- The keeper's account tree hashes as the tree inside it. -/
theorem AccountTree.rootHash_tree {t t' : AccountTree} {hash : Fr}
    (h : t.rootHash H = .ok (hash, t')) :
    SparseMerkleTree.rootHash (accountParams H) t.tree = .ok (hash, t'.tree) := by
  unfold AccountTree.rootHash at h
  split at h
  next hash' tree hroot =>
    cases h
    exact hroot
  next => cases h

/-- The tree of a started keeper acts as one that was filled account by account. -/
theorem keeperTree_actsAs (it : HashIteration) (accounts : AccountMap) :
    ActsAs (accountParams H) accountTreeDepth (accountBits H accounts)
      ((ZkSyncStateInitParams.new H).insertAccounts it accounts).tree.tree := by
  have hnew : ActsAs (accountParams H) accountTreeDepth (fun _ => .ok (accountParams H).defaultBits)
      (ZkSyncStateInitParams.new H).tree.tree :=
    actsAs_new (accountParams H) one_lt_accountTreeDepth (by decide)
  have hacts := insertAccounts_actsAs (it.entries accounts).entries _ hnew
  have hbits := writtenBits_entries H (it.entries accounts)
  rw [it.toFinmap] at hbits
  exact hacts.congr hbits

/-- What the state keeper stores is a cache as well. -/
theorem cacheTree_caches (hσ : KeptOk σ) (hfit : σ.history.UpdatesFit)
    (hcaches : caches.CachesOf H σ.history)
    (h : ZkSyncStateInitParams.cacheTree H it order σ.db caches = .ok caches') :
    caches'.CachesOf H σ.history := by
  unfold ZkSyncStateInitParams.cacheTree at h
  -- the block that the keeper starts from, and its accounts
  obtain ⟨number, accounts, hloaded, hnumber, hsame, hfits⟩ : ∃ number accounts,
      (match caches.getAccountTreeCache with
        | some (cachedBlock, _) => σ.db.loadCommittedState (some cachedBlock)
        | none => σ.db.loadVerifiedState) = (number, accounts) ∧
      number.toNat ≤ σ.history.lastBlock ∧
      (∀ id, Option.Rel Account.Equiv (accounts.lookup id)
        ((σ.history.accountsAt number.toNat).lookup id)) ∧
      ∀ id a, accounts.lookup id = some a → a.Fits := by
    unfold TreeCaches.getAccountTreeCache
    cases hnewest : caches.newest with
    | none =>
      have hverified := hσ.tabled.toNat_verified
      refine ⟨UInt32.ofNat σ.history.verified, σ.history.accountsAt σ.history.verified, ?_, ?_, ?_,
        hfit.accountsAt hσ.tabled.verified⟩
      · show σ.db.loadVerifiedState = _
        unfold Db.loadVerifiedState
        rw [hσ.tabled.getLastVerifiedBlock, hσ.tabled.accounts]
      · rw [hverified]
        exact hσ.tabled.verified
      · intro id
        rw [hverified]
        exact Ledger.sameAs_refl (fun id => (σ.history.accountsAt σ.history.verified).lookup id) id
    | some row =>
      obtain ⟨-, hle, -⟩ := hcaches row (TreeCaches.mem_of_newest hnewest).1
      have hblock : (UInt32.ofNat row.block).toNat = row.block :=
        UInt32.toNat_ofNat_of_lt' (Nat.lt_of_le_of_lt hle hσ.tabled.lt)
      have hfits := hσ.tabled.loaded_fit hfit (UInt32.ofNat row.block)
      rw [← hblock] at hle
      generalize hload : σ.db.loadCommittedState (some (UInt32.ofNat row.block)) = loaded at hfits
      obtain ⟨number, accounts⟩ := loaded
      obtain ⟨hnumber, hsame⟩ := hσ.loadCommittedState_block hle hload
      exact ⟨number, accounts, hload, hnumber, hsame, hfits⟩
  rw [hloaded] at h
  dsimp only at h
  split at h
  · cases h
    exact hcaches
  obtain ⟨⟨hash, tree⟩, hroot, h⟩ := Outcome.bind_eq_ok.mp h
  have hbits : ∀ i, accountBits H accounts i = accountBits H (σ.history.accountsAt number.toNat) i :=
    accountBits_eq fun id =>
      accountBits_congr (hfits id) (hfit.accountsAt hnumber id) (hsame id)
  obtain ⟨-, hcache⟩ := ((keeperTree_actsAs it accounts).congr hbits).rootHash
    (AccountTree.rootHash_tree hroot)
  exact hcaches.store hnumber (hcache _ (order.toFinmap _)) h

end Caches

/-! ## Stored witnesses -/

section Stored

variable {env : Env} {sha256 : Bytes → BitVec 256} {s s' : ProverServer} {block : Block}
  {n : BlockNumber} {call : GeneratorCall}

/-- The blocks of the history, in order. -/
def ProverServer.InOrder (s : ProverServer) : Prop :=
  s.blocks.map (fun block => block.blockNumber.toNat) = List.range' 1 s.kept.history.lastBlock

/-- The row that is found carries the number that was asked for. -/
theorem getBlock_eq_some (h : s.getBlock n = some block) : block ∈ s.blocks ∧ block.blockNumber = n := by
  refine ⟨List.mem_of_find?_eq_some h, ?_⟩
  simpa using List.find?_some h

/-- A stored block has a number between one and the last sealed one. -/
theorem ProverServer.InOrder.number (ho : s.InOrder) (h : block ∈ s.blocks) :
    1 ≤ block.blockNumber.toNat ∧ block.blockNumber.toNat ≤ s.kept.history.lastBlock := by
  have hmem := List.mem_map_of_mem (f := fun block : Block => block.blockNumber.toNat) h
  rw [show s.blocks.map (fun block => block.blockNumber.toNat) = _ from ho, List.mem_range'_1] at hmem
  omega

theorem toNat_before (h : 1 ≤ n.toNat) : (n - 1).toNat = n.toNat - 1 :=
  UInt32.toNat_sub_of_le n 1 (UInt32.le_iff_toNat_le.mpr h)

/-- A generator only works on a block that is stored and has no witness. -/
theorem shouldWorkOnBlock_eq (h : s.shouldWorkOnBlock n = .NoWitness block) :
    s.getBlock n = some block ∧ s.witnesses.find n.toNat = none := by
  unfold ProverServer.shouldWorkOnBlock at h
  split at h
  next block' hblock =>
    split at h
    next hnone =>
      cases h
      exact ⟨hblock, Option.isNone_iff_eq_none.mp hnone⟩
    next => cases h
  next => cases h

/-- It passes a block only for a witness that is stored. -/
theorem shouldWorkOnBlock_with (h : s.shouldWorkOnBlock n = .WithWitness) :
    (∃ block, s.getBlock n = some block) ∧ (s.witnesses.find n.toNat).isSome := by
  unfold ProverServer.shouldWorkOnBlock at h
  split at h
  next block' hblock =>
    split at h
    next => cases h
    next hsome =>
      rw [Option.isNone_iff_eq_none] at hsome
      exact ⟨⟨block', hblock⟩, Option.isSome_iff_ne_none.mpr hsome⟩
  next => cases h

/-- The witness was built for its block, over a tree of the accounts before it. -/
def RightWitness (env : Env) (sha256 : Bytes → BitVec 256) (s : ProverServer)
    (row : StorageBlockWitness) : Prop :=
  ∃ block ∈ s.blocks, block.blockNumber.toNat = row.block ∧ ∃ tree,
    TreeOf env.hasher (s.kept.history.accountsAt (row.block - 1)) tree ∧
      buildBlockWitness env.hasher sha256 tree block = .ok row.witness

/-- A tree between the halves of a round is that of the block before. -/
def LoadedFor (env : Env) (s : ProverServer) (gen : WitnessGenerator) : Prop :=
  ∀ tree, gen.loaded = some tree → 1 ≤ gen.currentBlock.toNat ∧
    gen.currentBlock.toNat ≤ s.kept.history.lastBlock ∧
    TreeOf env.hasher (s.kept.history.accountsAt (gen.currentBlock - 1).toNat) tree

/-- Caches, loaded trees and stored witnesses belong to the accounts of their blocks. -/
structure TreesOk (env : Env) (sha256 : Bytes → BitVec 256) (s : ProverServer) : Prop where
  caches : s.caches.CachesOf env.hasher s.kept.history
  loaded : ∀ gen ∈ s.generators, LoadedFor env s gen
  witnesses : ∀ row ∈ s.witnesses.rows, RightWitness env sha256 s row

/-- Moving one generator needs the proof for that one only. -/
theorem TreesOk.setGenerator (h : TreesOk env sha256 s) (g : Nat) {gen : WitnessGenerator}
    (hgen : LoadedFor env s gen) : TreesOk env sha256 (s.setGenerator g gen) := by
  refine ⟨h.caches, fun gen' hgen' => ?_, h.witnesses⟩
  rcases List.mem_or_eq_of_mem_set hgen' with hold | rfl
  · exact h.loaded gen' hold
  · exact hgen

/-- The keeper touches neither trees nor witnesses, and the accounts of old blocks stay. -/
theorem TreesOk.server (ho : s.InOrder) (h : TreesOk env sha256 s) {σ : KeptDb} {call : KeptCall}
    (hgrows : Grows s.kept call σ) :
    TreesOk env sha256 { s with kept := σ, blocks := s.blocks ++ call.sealedBlock } := by
  refine ⟨h.caches.grows hgrows, fun gen hgen tree htree => ?_, fun row hrow => ?_⟩
  · obtain ⟨hpos, hle, hacts⟩ := h.loaded gen hgen tree htree
    have hbefore : (gen.currentBlock - 1).toNat ≤ s.kept.history.lastBlock := by
      rw [toNat_before hpos]
      omega
    rw [← hgrows.accountsAt _ hbefore] at hacts
    exact ⟨hpos, hle.trans hgrows.le, hacts⟩
  · obtain ⟨block, hblock, hnumber, tree, hacts, hbuilt⟩ := h.witnesses row hrow
    have hle := (ho.number hblock).2
    rw [hnumber] at hle
    rw [← hgrows.accountsAt (row.block - 1) (by omega)] at hacts
    exact ⟨block, List.mem_append_left _ hblock, hnumber, tree, hacts, hbuilt⟩

/-- Every step keeps the trees right, those that are cached, loaded and used. -/
theorem TreesOk.step (ho : s.InOrder) (hσ : KeptOk s.kept) (hfit : s'.kept.history.UpdatesFit)
    (h : TreesOk env sha256 s) (hstep : GeneratorStep env sha256 s call s') :
    TreesOk env sha256 s' := by
  cases hstep with
  | server hcall => exact h.server ho hcall.grows
  | keeperCache hcache => exact ⟨cacheTree_caches hσ hfit h.caches hcache, h.loaded, h.witnesses⟩
  | runProverServer =>
    refine ⟨h.caches, fun gen hgen tree htree => ?_, h.witnesses⟩
    obtain ⟨offset, -, rfl⟩ := List.mem_map.mp hgen
    cases htree
  | passBlock hgen hnone hwith =>
    refine h.setGenerator _ fun tree htree => ?_
    rw [show _ = none from hnone] at htree
    cases htree
  | @loadTree g gen block it order tree caches hgen hnone hwork hrestore =>
    -- the loaded tree is that of the block before
    obtain ⟨hblock, -⟩ := shouldWorkOnBlock_eq hwork
    obtain ⟨hmem, hnumber⟩ := getBlock_eq_some hblock
    obtain ⟨hpos, hle⟩ := ho.number hmem
    have hbefore : (block.blockNumber - 1).toNat ≤ s.kept.history.lastBlock := by
      rw [toNat_before hpos]
      omega
    obtain ⟨hacts, hcaches⟩ := restoreAccountTree_caches hσ hfit h.caches hbefore hrestore
    have hs : TreesOk env sha256 { s with caches := caches } := ⟨hcaches, h.loaded, h.witnesses⟩
    refine hs.setGenerator g fun tree' htree' => ?_
    cases htree'
    rw [hnumber] at hpos hle hacts
    exact ⟨hpos, hle, hacts⟩
  | fail hgen =>
    refine h.setGenerator _ fun tree htree => ?_
    cases htree
  | @storeWitness g gen block loaded tree witness hgen hloaded hblock hcheck hbuild =>
    obtain ⟨hmem, hnumber⟩ := getBlock_eq_some hblock
    obtain ⟨hpos, -, hacts⟩ := h.loaded gen (List.mem_of_getElem? hgen) loaded hloaded
    rw [← hnumber] at hacts hpos
    have htree := (checkRootHash_eq_ok hacts).2 tree hcheck
    have hs : TreesOk env sha256 { s with
        witnesses := s.witnesses.insertNew ⟨block.blockNumber.toNat, witness⟩ } := by
      refine ⟨h.caches, h.loaded, fun row hrow => ?_⟩
      rcases Table.mem_insertNew.mp hrow with hold | ⟨rfl, -⟩
      · exact h.witnesses row hold
      · refine ⟨block, hmem, rfl, tree, ?_, hbuild⟩
        dsimp only
        rw [← toNat_before hpos]
        exact htree
    refine hs.setGenerator g fun tree htree => ?_
    cases htree

/-- Only the keeper stores blocks, each behind the last one. -/
theorem ProverServer.InOrder.step (ho : s.InOrder) (hstep : GeneratorStep env sha256 s call s') :
    s'.InOrder := by
  cases hstep with
  | @server kept call hcall =>
    have hgrows := hcall.grows
    unfold ProverServer.InOrder
    dsimp only
    rw [List.map_append, ho, hgrows.sealed]
    have hsum : kept.history.lastBlock = s.kept.history.lastBlock +
        (kept.history.lastBlock - s.kept.history.lastBlock) := by
      have := hgrows.le
      omega
    conv_rhs => rw [hsum]
    rw [← List.range'_append_1, Nat.add_comm 1]
  | keeperCache => exact ho
  | runProverServer => exact ho
  | passBlock => exact ho
  | loadTree => exact ho
  | fail => exact ho
  | storeWitness => exact ho

end Stored

/-! ## Turns -/

section Turns

variable {env : Env} {sha256 : Bytes → BitVec 256} {s s' : ProverServer} {call : GeneratorCall}
  {witnesses witnesses' : Table StorageBlockWitness StorageBlockWitness.block}
  {last count g : Nat} {gen : WitnessGenerator}

/-- The blocks of a generator: every so many, from its start on. -/
def WitnessGenerator.Takes (gen : WitnessGenerator) (n : Nat) : Prop :=
  gen.startBlock.toNat ≤ n ∧ gen.blockStep.toNat ∣ n - gen.startBlock.toNat

/-- The generator at a position has stored a witness for each of its blocks before the
current one. -/
structure InTurn (last count : Nat) (witnesses : Table StorageBlockWitness StorageBlockWitness.block)
    (g : Nat) (gen : WitnessGenerator) : Prop where
  start : gen.startBlock.toNat = last + g + 1
  step : gen.blockStep.toNat = count
  current : ∃ k, gen.currentBlock.toNat = last + g + 1 + k * count ∧
    ∀ j < k, (witnesses.find (last + g + 1 + j * count)).isSome

/-- No generator has left a block of its own without a witness. -/
def ProverServer.AllInTurn (s : ProverServer) : Prop :=
  ∀ g gen, s.generators[g]? = some gen →
    InTurn s.lastVerifiedBlock.toNat s.generators.length s.witnesses g gen

/-- More witnesses and more blocks do no harm. -/
theorem InTurn.mono (h : InTurn last count witnesses g gen)
    (hmono : ∀ n, (witnesses.find n).isSome → (witnesses'.find n).isSome) :
    InTurn last count witnesses' g gen := by
  obtain ⟨k, hcurrent, hstored⟩ := h.current
  exact ⟨h.start, h.step, k, hcurrent, fun j hj => hmono _ (hstored j hj)⟩

/-- What is held between the halves of a round does not matter. -/
theorem InTurn.hold (h : InTurn last count witnesses g gen) (loaded : Option CircuitAccountTree) :
    InTurn last count witnesses g { gen with loaded := loaded } :=
  ⟨h.start, h.step, h.current⟩

/-- A generator goes on when the witness of its current block is stored. -/
theorem InTurn.next (h : InTurn last count witnesses g gen)
    (hstored : (witnesses.find gen.currentBlock.toNat).isSome)
    (hbound : gen.currentBlock.toNat + count < 2 ^ 32) (loaded : Option CircuitAccountTree) :
    InTurn last count witnesses g
      { gen with currentBlock := gen.currentBlock + gen.blockStep, loaded := loaded } := by
  obtain ⟨k, hcurrent, hbefore⟩ := h.current
  refine ⟨h.start, h.step, k + 1, ?_, fun j hj => ?_⟩
  · show (gen.currentBlock + gen.blockStep).toNat = _
    rw [UInt32.toNat_add, h.step, Nat.mod_eq_of_lt hbound, hcurrent, Nat.add_mul, Nat.one_mul]
    omega
  · rcases Nat.lt_succ_iff_lt_or_eq.mp hj with hlt | rfl
    · exact hbefore j hlt
    · rw [← hcurrent]
      exact hstored

/-- For a generator that moves the others need no new proof. -/
theorem ProverServer.AllInTurn.setGenerator (h : s.AllInTurn) {gen gen' : WitnessGenerator}
    (hgen : s.generators[g]? = some gen)
    (hnew : InTurn s.lastVerifiedBlock.toNat s.generators.length s.witnesses g gen') :
    (s.setGenerator g gen').AllInTurn := by
  intro i other hother
  have hlength : (s.generators.set g gen').length = s.generators.length := List.length_set
  show InTurn s.lastVerifiedBlock.toNat (s.generators.set g gen').length s.witnesses i other
  rw [hlength]
  change (s.generators.set g gen')[i]? = some other at hother
  by_cases hi : g = i
  · subst hi
    obtain ⟨hlt, -⟩ := List.getElem?_eq_some_iff.mp hgen
    rw [List.getElem?_set_self hlt] at hother
    cases hother
    exact hnew
  · rw [List.getElem?_set_ne hi] at hother
    exact h i other hother

/-- A new row takes no witness away. -/
theorem isSome_insertNew (row : StorageBlockWitness) {n : Nat} (h : (witnesses.find n).isSome) :
    ((witnesses.insertNew row).find n).isSome := by
  rw [← Table.mem_keys] at h ⊢
  obtain ⟨row', hrow', hn⟩ := List.mem_map.mp h
  exact List.mem_map.mpr ⟨row', Table.mem_insertNew.mpr (Or.inl hrow'), hn⟩

/-- Behind the insertion the block has a witness, be it the new one or the one before. -/
theorem isSome_insertNew_self (row : StorageBlockWitness) :
    ((witnesses.insertNew row).find row.block).isSome := by
  cases hfind : witnesses.find row.block with
  | some row' => exact isSome_insertNew row (by rw [hfind]; rfl)
  | none =>
    rw [← Table.mem_keys]
    exact List.mem_map_of_mem (Table.mem_insertNew.mpr (Or.inr ⟨rfl, hfind⟩))

/-- No number of a block leaves the 32 bits. -/
def ProverServer.Bounded (s : ProverServer) : Prop :=
  s.kept.history.lastBlock + s.generators.length < 2 ^ 32

/-- A server that was just started: nothing is before the first blocks. -/
theorem allInTurn_start (hσ : KeptOk s.kept) {witnessGenerators : Nat}
    (hbound : (s.runProverServer witnessGenerators).Bounded) :
    (s.runProverServer witnessGenerators).AllInTurn := by
  have hlast : s.kept.db.getLastVerifiedBlock.toNat ≤ s.kept.history.lastBlock := by
    rw [hσ.tabled.getLastVerifiedBlock, hσ.tabled.toNat_verified]
    exact hσ.tabled.verified
  have hlength : (s.runProverServer witnessGenerators).generators.length = witnessGenerators := by
    unfold ProverServer.runProverServer
    rw [List.length_map, List.length_range]
  intro g gen hgen
  unfold ProverServer.Bounded at hbound
  rw [hlength] at hbound ⊢
  change s.kept.history.lastBlock + witnessGenerators < 2 ^ 32 at hbound
  have hlt : g < witnessGenerators := by
    rw [← hlength]
    exact (List.getElem?_eq_some_iff.mp hgen).1
  change ((List.range witnessGenerators).map _)[g]? = some gen at hgen
  rw [List.getElem?_map, List.getElem?_range hlt] at hgen
  cases hgen
  have hnumber : (UInt32.ofNat (s.kept.db.getLastVerifiedBlock.toNat + g + 1)).toNat =
      s.kept.db.getLastVerifiedBlock.toNat + g + 1 := UInt32.toNat_ofNat_of_lt' (by
    rw [UInt32.size]
    omega)
  refine ⟨hnumber, UInt32.toNat_ofNat_of_lt' (by rw [UInt32.size]; omega), 0, ?_, fun j hj => by omega⟩
  rw [Nat.zero_mul]
  exact hnumber

/-- Every step keeps the generators in turn. -/
theorem ProverServer.AllInTurn.step (ho : s.InOrder) (hσ : KeptOk s.kept) (hbound : s'.Bounded)
    (h : s.Bounded → s.AllInTurn) (hstep : GeneratorStep env sha256 s call s') : s'.AllInTurn := by
  -- a block that is there is no later than the last one
  have hnext : ∀ {n : BlockNumber} {block : Block}, s.Bounded → s.getBlock n = some block →
      n.toNat + s.generators.length < 2 ^ 32 := by
    intro n block hs hblock
    obtain ⟨hmem, rfl⟩ := getBlock_eq_some hblock
    have hle := (ho.number hmem).2
    unfold ProverServer.Bounded at hs
    omega
  cases hstep with
  | @server kept call hcall =>
    have hs : s.Bounded := by
      have := hcall.grows.le
      unfold ProverServer.Bounded at hbound ⊢
      dsimp only at hbound
      omega
    exact h hs
  | keeperCache => exact h hbound
  | runProverServer => exact allInTurn_start hσ hbound
  | @passBlock g gen hgen hnone hwith =>
    have hs : s.Bounded := by
      unfold ProverServer.Bounded ProverServer.setGenerator at hbound
      dsimp only at hbound
      rwa [List.length_set] at hbound
    obtain ⟨⟨block, hblock⟩, hstored⟩ := shouldWorkOnBlock_with hwith
    exact (h hs).setGenerator hgen ((h hs g gen hgen).next hstored (hnext hs hblock) gen.loaded)
  | @loadTree g gen block it order tree caches hgen =>
    have hs : s.Bounded := by
      unfold ProverServer.Bounded ProverServer.setGenerator at hbound
      dsimp only at hbound
      rwa [List.length_set] at hbound
    have hkept : ({ s with caches := caches } : ProverServer).AllInTurn := h hs
    exact hkept.setGenerator hgen ((h hs g gen hgen).hold (some tree))
  | @fail g gen hgen =>
    have hs : s.Bounded := by
      unfold ProverServer.Bounded ProverServer.setGenerator at hbound
      dsimp only at hbound
      rwa [List.length_set] at hbound
    exact (h hs).setGenerator hgen ((h hs g gen hgen).hold none)
  | @storeWitness g gen block loaded tree witness hgen _ hblock =>
    have hs : s.Bounded := by
      unfold ProverServer.Bounded ProverServer.setGenerator at hbound
      dsimp only at hbound
      rwa [List.length_set] at hbound
    have hkept : ({ s with witnesses := (s.witnesses.insertNew
        ⟨block.blockNumber.toNat, witness⟩) } : ProverServer).AllInTurn := by
      intro i other hother
      exact (h hs i other hother).mono fun n => isSome_insertNew _
    have hstored : ((s.witnesses.insertNew ⟨block.blockNumber.toNat, witness⟩).find
        gen.currentBlock.toNat).isSome := by
      rw [← (getBlock_eq_some hblock).2]
      exact isSome_insertNew_self ⟨block.blockNumber.toNat, witness⟩
    exact hkept.setGenerator hgen ((hkept g gen hgen).next hstored (hnext hs hblock) none)

/-- A block behind the first ones is taken by one generator, and no generator goes past a
block of its own before the witness is stored. -/
theorem ProverServer.AllInTurn.taken (h : s.AllInTurn) (hgenerators : s.generators ≠ []) {n : Nat}
    (hn : s.lastVerifiedBlock.toNat < n) :
    ∃ (g : Nat) (gen : WitnessGenerator), s.generators[g]? = some gen ∧ gen.Takes n ∧
      (n < gen.currentBlock.toNat → (s.witnesses.find n).isSome) ∧
      ∀ (g' : Nat) (gen' : WitnessGenerator), s.generators[g']? = some gen' → gen'.Takes n →
        g' = g := by
  have hcount : 0 < s.generators.length := List.length_pos_of_ne_nil hgenerators
  -- the position of a generator that takes the block is what the division leaves
  have hplace : ∀ (g : Nat) (gen : WitnessGenerator), s.generators[g]? = some gen →
      (gen.Takes n ↔ (n - s.lastVerifiedBlock.toNat - 1) % s.generators.length = g) := by
    intro g gen hgen
    have hturn := h g gen hgen
    obtain ⟨hlt, -⟩ := List.getElem?_eq_some_iff.mp hgen
    unfold WitnessGenerator.Takes
    rw [hturn.start, hturn.step]
    constructor
    · rintro ⟨hle, k, hk⟩
      rw [show n - s.lastVerifiedBlock.toNat - 1 = g + s.generators.length * k by omega,
        Nat.add_mul_mod_self_left, Nat.mod_eq_of_lt hlt]
    · intro hmod
      have hdiv := Nat.mod_add_div (n - s.lastVerifiedBlock.toNat - 1) s.generators.length
      rw [hmod] at hdiv
      refine ⟨by omega, (n - s.lastVerifiedBlock.toNat - 1) / s.generators.length, ?_⟩
      omega
  have hlt : (n - s.lastVerifiedBlock.toNat - 1) % s.generators.length < s.generators.length :=
    Nat.mod_lt _ hcount
  refine ⟨_, _, List.getElem?_eq_getElem hlt, ?_, ?_, ?_⟩
  · exact (hplace _ _ (List.getElem?_eq_getElem hlt)).mpr rfl
  · intro hbefore
    obtain ⟨k, hcurrent, hstored⟩ := (h _ _ (List.getElem?_eq_getElem hlt)).current
    have hdiv := Nat.mod_add_div (n - s.lastVerifiedBlock.toNat - 1) s.generators.length
    rw [Nat.mul_comm] at hdiv
    have hmem := hstored ((n - s.lastVerifiedBlock.toNat - 1) / s.generators.length) (by
      refine Nat.lt_of_mul_lt_mul_right (a := s.generators.length) ?_
      omega)
    rwa [show s.lastVerifiedBlock.toNat +
      (n - s.lastVerifiedBlock.toNat - 1) % s.generators.length + 1 +
      (n - s.lastVerifiedBlock.toNat - 1) / s.generators.length * s.generators.length = n by
        omega] at hmem
  · intro g' gen' hgen' htakes
    exact ((hplace g' gen' hgen').mp htakes).symm

end Turns

/-! ## Runs of the server -/

/-- A server behind the genesis block; no generators have been started. -/
def ProverServer.start (db : Db) (feeAccountAddress : Address) : ProverServer where
  kept := .start db feeAccountAddress
  blocks := []
  caches := ⟨[], List.nodup_nil⟩
  witnesses := ⟨[], List.nodup_nil⟩
  lastVerifiedBlock := 0
  generators := []

section Runs

variable {env : Env} {sha256 : Bytes → BitVec 256} {s s' : ProverServer} {call : GeneratorCall}
  {calls : List GeneratorCall}

/-- The updates of the stored blocks only grow, so what fits later did fit before. -/
theorem GeneratorStep.fit (hstep : GeneratorStep env sha256 s call s')
    (hfit : s'.kept.history.UpdatesFit) : s.kept.history.UpdatesFit := by
  cases hstep with
  | server hcall => exact hcall.grows.fit hfit
  | keeperCache => exact hfit
  | runProverServer => exact hfit
  | passBlock => exact hfit
  | loadTree => exact hfit
  | fail => exact hfit
  | storeWitness => exact hfit

/-- The generators leave what the keeper stored as it is. -/
theorem GeneratorStep.kept (hz : env.NoZeroSigner) (hσ : KeptOk s.kept)
    (hstep : GeneratorStep env sha256 s call s') : KeptOk s'.kept := by
  cases hstep with
  | server hcall => exact hcall.ok hz hσ
  | keeperCache => exact hσ
  | runProverServer => exact hσ
  | passBlock => exact hσ
  | loadTree => exact hσ
  | fail => exact hσ
  | storeWitness => exact hσ

/-- What every reachable server keeps. -/
structure GeneratorsOk (env : Env) (sha256 : Bytes → BitVec 256) (s : ProverServer) : Prop where
  kept : KeptOk s.kept
  inOrder : s.InOrder
  trees : s.kept.history.UpdatesFit → TreesOk env sha256 s
  turns : s.Bounded → s.AllInTurn

/-- Every step of the server or of a generator keeps the invariant. -/
theorem GeneratorsOk.step (hz : env.NoZeroSigner) (h : GeneratorsOk env sha256 s)
    (hstep : GeneratorStep env sha256 s call s') : GeneratorsOk env sha256 s' where
  kept := hstep.kept hz h.kept
  inOrder := h.inOrder.step hstep
  trees hfit := (h.trees (hstep.fit hfit)).step h.inOrder h.kept hfit hstep
  turns hbound := ProverServer.AllInTurn.step h.inOrder h.kept hbound h.turns hstep

/-- It holds of the database of the genesis block. -/
theorem generatorsOk_start {db₀ : Db} {feeAccountAddress : Address}
    (hgenesis : Db.empty.createGenesisBlock feeAccountAddress = some db₀) :
    GeneratorsOk env sha256 (.start db₀ feeAccountAddress) where
  kept := keptOk_start hgenesis
  inOrder := rfl
  trees _ := by
    refine ⟨fun row hrow => ?_, fun gen hgen => ?_, fun row hrow => ?_⟩
    · exact absurd hrow List.not_mem_nil
    · exact absurd hgen List.not_mem_nil
    · exact absurd hrow List.not_mem_nil
  turns _ g gen hgen := by
    change ([] : List WitnessGenerator)[g]? = some gen at hgen
    rw [List.getElem?_nil] at hgen
    cases hgen

/-- It holds whatever was done. -/
theorem generatorsOk_of_run (hz : env.NoZeroSigner) {db₀ : Db} {feeAccountAddress : Address}
    (hgenesis : Db.empty.createGenesisBlock feeAccountAddress = some db₀)
    (hrun : Run (GeneratorStep env sha256) (.start db₀ feeAccountAddress) calls s) :
    GeneratorsOk env sha256 s :=
  hrun.invariant (fun _ _ _ h hstep => h.step hz hstep) (generatorsOk_start hgenesis)

/-- The accounts after a block, in any order, make a tree. -/
theorem exists_accountTree (it : HashIteration) {H : Hasher Fr} {h : History} (hfit : h.UpdatesFit)
    {n : Nat} (hn : n ≤ h.lastBlock) :
    ∃ fresh, loadAccountTree H (it.entries (h.accountsAt n)) = .ok fresh ∧
      ActsAsAccounts H (h.accountsAt n) fresh := by
  have hfits : ∀ id a, (it.entries (h.accountsAt n)).lookup id = some a → a.Fits := by
    intro id a ha
    rw [← Finmap.lookup_toFinmap, it.toFinmap] at ha
    exact hfit.accountsAt hn id a ha
  obtain ⟨fresh, hload, hfresh⟩ := loadAccountTree_acts (H := H) hfits
  rw [it.toFinmap] at hfresh
  exact ⟨fresh, hload, hfresh⟩

/-- What the server does by itself, the generators see. -/
theorem run_server (sha256 : Bytes → BitVec 256) {σ σ' : KeptDb} {kept : List KeptCall} (hrun : Run (KeptStep env) σ kept σ')
    {s : ProverServer} (hs : s.kept = σ) : Run (GeneratorStep env sha256) s (kept.map .server)
      { s with kept := σ', blocks := s.blocks ++ kept.flatMap KeptCall.sealedBlock } := by
  induction hrun generalizing s with
  | nil σ =>
    rw [List.flatMap_nil, List.append_nil, ← hs]
    exact .nil s
  | @cons σ σ₁ σ' call calls hstep _ ih =>
    subst hs
    have hrest := ih (s := { s with kept := σ₁, blocks := s.blocks ++ call.sealedBlock }) rfl
    rw [List.flatMap_cons, ← List.append_assoc]
    exact .cons (.server hstep) hrest

/-- The tree of the genesis block is never cached, so it is built from the accounts, and shows
all of them. -/
theorem restoreAccountTree_genesis (it : HashIteration) (order : CacheIteration) {H : Hasher Fr}
    {σ : KeptDb} (hσ : KeptOk σ) (hfit : σ.history.UpdatesFit) (caches : TreeCaches)
    (hnone : caches.getAccountTreeCache = none) :
    ∃ tree, WitnessGenerator.restoreAccountTree H it order σ.db caches 0 = .ok (tree, caches) ∧
      TreeShows H 0 tree (fun id => ((σ.history.accountsAt 0).lookup id).getD Account.default) ∧
      ∀ id, ((σ.history.accountsAt 0).lookup id).isSome → (tree.get id.toNat).isSome := by
  have hfits := hσ.tabled.loaded_fit hfit 0
  have hsame := fun id => hσ.loaded_same (b := 0) (Nat.zero_le _) id
  unfold WitnessGenerator.restoreAccountTree
  generalize σ.db.loadCommittedState (some 0) = loaded at hfits hsame
  obtain ⟨number, accounts⟩ := loaded
  dsimp only at hfits hsame ⊢
  have hentries : ∀ id, (it.entries accounts).lookup id = accounts.lookup id := by
    intro id
    rw [← Finmap.lookup_toFinmap, it.toFinmap]
  obtain ⟨tree, hload, hshows, hleaves⟩ := loadAccountTree_shows (H := H) fun id a ha =>
    hfits id a ((hentries id).symm.trans ha)
  obtain ⟨hash, tree', hroot, hshows', hget⟩ := hshows.rootHash
  refine ⟨tree', ?_, hshows'.equiv fun id => ?_, fun id hid => ?_⟩
  · rw [hload, Outcome.ok_bind, hnone]
    dsimp only
    unfold WitnessGenerator.storeTree
    rw [hroot]
    rfl
  · rw [hentries id]
    have hrel := hsame id
    rw [show (0 : BlockNumber).toNat = 0 from rfl] at hrel
    generalize accounts.lookup id = o, (σ.history.accountsAt 0).lookup id = o' at hrel ⊢
    cases hrel with
    | none => exact Account.Equiv.refl _
    | some hequiv => exact hequiv
  · rw [hget]
    refine hleaves id ?_
    have hrel := hsame id
    rw [show (0 : BlockNumber).toNat = 0 from rfl] at hrel
    rw [hentries id]
    generalize accounts.lookup id = o, (σ.history.accountsAt 0).lookup id = o' at hrel hid ⊢
    cases hrel with
    | none => exact hid
    | some => rfl

/-- A call that sends nothing seals nothing. -/
theorem sealedBlock_of_silent (call : KeeperCall) {reply : KeeperReply} (h : reply.sent = []) :
    (KeptCall.keeper call reply).sealedBlock = [] := by
  cases reply with
  | sealed => cases h
  | _ => rfl

/-- A server of two generators that has sealed the block of a deposit and stored its witness: the
first generator waits for block 3, the second one for block 2. -/
structure FirstWitness (s : ProverServer) (db : Db) (keeper : ZkSyncStateKeeper)
    (row : StorageBlockWitness) (gen gen' : WitnessGenerator) : Prop where
  kept : s.kept = ⟨db, depositHistory, some keeper⟩
  between : BetweenBlocks Env.leafOne s.kept keeper
  stored : RootStored leafOne s.kept 1
  caches : s.caches.rows = []
  witnesses : s.witnesses.rows = [row]
  block : row.block = 1
  verified : s.lastVerifiedBlock = 0
  generators : s.generators = [gen, gen']
  current : gen.currentBlock = 3 ∧ gen.loaded = none
  current' : gen'.currentBlock = 2 ∧ gen'.loaded = none

/-- The token of the deposit has a leaf. -/
theorem updatesFit_deposit : depositHistory.UpdatesFit := by
  intro u hu
  change u ∈ [((0 : AccountId), AccountUpdate.Create 1 0), (0, .UpdateBalance 0 0 (0, 0, 5))] at hu
  rcases List.mem_cons.mp hu with rfl | hu
  · exact trivial
  · rw [List.mem_singleton.mp hu]
    show (0 : TokenId).toNat < 2 ^ balanceTreeDepth
    decide

/-- The state of a keeper before it asks for the root hash. -/
theorem unhashed_state (H : Hasher Fr) (accounts : AList fun _ : AccountId => Account)
    (lastBlockNumber : BlockNumber) (unprocessed : UInt64) (number : BlockNumber)
    (feeAccountId : AccountId) (max : Nat) (sizes : List Nat) (maxMini fastMini maxWithdrawals : Nat) :
    (ZkSyncStateKeeper.unhashed (.fromAccMap H accounts lastBlockNumber unprocessed) number
      feeAccountId max sizes maxMini fastMini maxWithdrawals).state =
        { ZkSyncState.fromAccMap H accounts lastBlockNumber with blockNumber := number } := rfl

/-- The builder gets through the block of the deposit, over any tree that shows the accounts
of the genesis block. -/
theorem KeptDeposit.witnessed {db₀ db : Db} {k₀ k k' : ZkSyncStateKeeper} {reply : KeeperReply}
    {request : BlockCommitRequest} (h : KeptDeposit db₀ db k₀ k k' reply request)
    {tree : CircuitAccountTree} (hshows : TreeShows Env.leafOne.hasher 0 tree
      (fun id => ((depositHistory.accountsAt 0).lookup id).getD Account.default))
    (hleaf : (tree.get 0).isSome) (sha256 : Bytes → BitVec 256) :
    ∃ w, buildBlockWitness Env.leafOne.hasher sha256 tree request.block = .ok w := by
  obtain ⟨feeUpdates, paid, hashed, _, _, hs, -⟩ := sealPendingBlock_eq_ok h.sealed
  have halike : Alike { ZkSyncState.fromAccMap leafOne genesisAccounts 0 with blockNumber := 1 }
      k₀.state := by
    have hstate := h.alike.state
    rw [show genesisKeeper.state = _ from unhashed_state leafOne genesisAccounts 0 0 1 0 30 [6, 30]
      10 2 5] at hstate
    exact hstate
  have hcontent : ∀ id, (((depositHistory.accountsAt 0).lookup id).getD Account.default).Equiv
      (k₀.state.content id) := by
    intro id
    rw [show (depositHistory.accountsAt 0).lookup id = genesisAccounts.lookup id from
      lookup_genesis id]
    exact content_of_loaded halike id
  have hwithin : BalancesWithin 10 k₀.state := by
    refine BalancesWithin.alike (fun id a token ha => ?_) halike
    have hget : ZkSyncState.getAccount { ZkSyncState.fromAccMap leafOne genesisAccounts 0 with
        blockNumber := 1 } id = genesisAccounts.lookup id :=
      getAccount_fromAccMap leafOne genesisAccounts 0 id
    rw [hget] at ha
    cases List.mem_singleton.mp (List.of_mem_dlookup ha)
    exact Nat.zero_le 10
  have hfree : k₀.state.getAccount k₀.state.getFreeAccountId = none := by
    have hid : k₀.state.getFreeAccountId = 1 := halike.freeId
    have hrel := halike.accounts 1
    rw [hid]
    generalize k₀.state.getAccount 1 = o at hrel
    cases hrel with
    | none => rfl
  -- the tree that the builder starts from has its root hash computed
  obtain ⟨hash, tree₁, hroot, hshows₁, hget⟩ := (hshows.equiv hcontent).rootHash
  have hfresh : k₀.pendingBlock = PendingBlock.new 0 30 := by
    rw [show k₀ = _ from h.alike.rest]
    rfl
  have hstarted : Rebuilt Env.leafOne tree₁ k₀.state k₀.pendingBlock := by
    rw [hfresh]
    exact rebuilt_new hshows₁ 0
  have hrebuilt := hstarted.step noZeroSigner_leafOne (started_new h.new).state.indexed
    (blockStep_deposit h.step hwithin) fun _ => hfree
  have hsize : request.block.blockChunksSize < 2 ^ 64 := by
    have hmem := (smallestBlockSizeForChunks_eq_ok hs.size).1
    rw [h.sizes] at hmem
    exact (show ∀ size ∈ [6, 30], size < 2 ^ 64 by decide) _ hmem
  obtain ⟨w, hw, -⟩ := hrebuilt.witnessed hroot h.hashable.hashed hs hsize
    (by rw [hget, h.feeAccount]; exact hleaf) sha256
  exact ⟨w, hw⟩

/-- A keeper seals the block of a deposit, two generators start, and the first one stores its
witness. -/
theorem exists_firstWitness : ∃ db₀ calls s db keeper row gen gen',
    Db.empty.createGenesisBlock 1 = some db₀ ∧
    Run (GeneratorStep Env.leafOne fun _ => 0) (.start db₀ 1) calls s ∧
    FirstWitness s db keeper row gen gen' := by
  obtain ⟨db₀, db, k₀, k, k', reply, request, h⟩ := exists_keptDeposit
  obtain ⟨it⟩ := HashIteration.exists
  obtain ⟨order⟩ := CacheIteration.exists
  -- the block is sealed, and two generators are started
  let s₁ : ProverServer := { ProverServer.start db₀ 1 with
    kept := ⟨db, depositHistory, some k'⟩, blocks := [request.block] }
  obtain ⟨calls₁, hrun₁⟩ : ∃ calls,
      Run (GeneratorStep Env.leafOne fun _ => 0) (.start db₀ 1) calls s₁ := by
    have hrun := run_server (fun _ => 0) (s := .start db₀ 1) h.run rfl
    simp only [List.flatMap_cons, sealedBlock_of_silent _ h.silent] at hrun
    exact ⟨_, hrun⟩
  have hok := (generatorsOk_of_run noZeroSigner_leafOne h.genesis hrun₁).kept
  have hlast : db.getLastVerifiedBlock = 0 := hok.tabled.getLastVerifiedBlock
  let s₂ := s₁.runProverServer 2
  have hrun₂ : GeneratorStep Env.leafOne (fun _ => 0) s₁ (.runProverServer 2) s₂ := .runProverServer
  have hgenerators : s₂.generators = [.new 1 2, .new 2 2] := by
    show (List.range 2).map (fun offset => WitnessGenerator.new
      (UInt32.ofNat (db.getLastVerifiedBlock.toNat + offset + 1)) (UInt32.ofNat 2)) = _
    rw [hlast]
    rfl
  have hgen : s₂.generators[0]? = some (.new 1 2) := by
    rw [hgenerators]
    rfl
  -- the first of them loads the tree of the genesis block
  obtain ⟨tree, hrestore, hshows, hleaves⟩ :=
    restoreAccountTree_genesis it order (H := Env.leafOne.hasher) hok updatesFit_deposit s₂.caches rfl
  have hblock : s₂.getBlock 1 = some request.block := by
    show List.find? (fun b : Block => decide (b.blockNumber = 1)) [request.block] = _
    rw [List.find?_cons, h.number]
    rfl
  have hwork : s₂.shouldWorkOnBlock 1 = .NoWitness request.block := by
    unfold ProverServer.shouldWorkOnBlock
    rw [hblock]
    rfl
  have hbefore : request.block.blockNumber - 1 = 0 := by
    rw [h.number]
    rfl
  have hload : GeneratorStep Env.leafOne (fun _ => 0) s₂ (.loadTree 0)
      (s₂.setGenerator 0 { WitnessGenerator.new 1 2 with loaded := some tree }) :=
    .loadTree hgen rfl hwork (by rw [hbefore]; exact hrestore)
  let s₃ := s₂.setGenerator 0 { WitnessGenerator.new 1 2 with loaded := some tree }
  have hgenerators₃ : s₃.generators =
      [{ WitnessGenerator.new 1 2 with loaded := some tree }, .new 2 2] := by
    show s₂.generators.set 0 _ = _
    rw [hgenerators]
    rfl
  have hgen₃ : s₃.generators[0]? = some { WitnessGenerator.new 1 2 with loaded := some tree } := by
    rw [hgenerators₃]
    rfl
  -- and stores the witness
  obtain ⟨w, hw⟩ := h.witnessed hshows (hleaves 0 rfl) fun _ => 0
  have hstore : GeneratorStep Env.leafOne (fun _ => 0) s₃ (.storeWitness 0) _ :=
    .storeWitness hgen₃ rfl hblock
      (by
        rw [hbefore]
        rfl) hw
  refine ⟨db₀, _, _, db, k', ⟨request.block.blockNumber.toNat, w⟩, { WitnessGenerator.new 1 2 with
      currentBlock := 3 }, .new 2 2, h.genesis,
    hrun₁.append (.cons hrun₂ (.cons hload (.single hstore))), rfl, h.between,
    Or.inr ⟨_, h.stored, h.root⟩, rfl, rfl, ?_, hlast, ?_, ⟨rfl, rfl⟩, ⟨rfl, rfl⟩⟩
  · rw [h.number]
    rfl
  · show s₃.generators.set 0 _ = _
    rw [hgenerators₃]
    rfl

/-- What the generators do does not change what the server keeps. -/
theorem kept_of_generators (hrun : Run (GeneratorStep env sha256) s calls s')
    (hcalls : ∀ call ∈ calls, ∀ kept, call ≠ .server kept) : s'.kept = s.kept := by
  induction hrun with
  | nil => rfl
  | cons hstep _ ih =>
    rw [ih fun call hcall => hcalls call (List.mem_cons_of_mem _ hcall)]
    cases hstep with
    | server => exact absurd rfl (hcalls _ List.mem_cons_self _)
    | _ => rfl

/-- A block without updates adds nothing that has to fit. -/
theorem History.UpdatesFit.emptyBlock {h : History} (hfit : h.UpdatesFit) :
    ({ h with blocks := h.blocks ++ [[]] } : History).UpdatesFit := by
  intro u hu
  refine hfit u ?_
  simp only [History.segments, List.flatten_cons, List.flatten_append, List.flatten_nil,
    List.append_nil, List.mem_append] at hu ⊢
  exact hu

/-- The keeper seals one more block, without operations. -/
theorem exists_server_emptyBlock (sha256 : Bytes → BitVec 256)
    (hrelease : env.overflowChecks = false) {s : ProverServer}
    {keeper : ZkSyncStateKeeper} (hσ : KeptOk s.kept) (h : BetweenBlocks env s.kept keeper)
    (hlast : s.kept.history.lastBlock + 2 < 2 ^ 32) :
    ∃ kept call keeper', GeneratorStep env sha256 s (.server call)
        { s with kept := kept, blocks := s.blocks ++ call.sealedBlock } ∧
      BetweenBlocks env kept keeper' ∧
      kept.history = { s.kept.history with blocks := s.kept.history.blocks ++ [[]] } ∧
      ∀ n ≤ s.kept.history.lastBlock, kept.db.blocks.find n = s.kept.db.blocks.find n := by
  obtain ⟨request, updates, σ', k', hstep, hbetween, hhistory, hrows⟩ :=
    exists_emptyBlock hrelease hσ h hlast
  exact ⟨σ', _, k', .server hstep, hbetween, hhistory, hrows⟩

/-- Every number up to the last sealed block has its row. -/
theorem ProverServer.InOrder.exists_getBlock (ho : s.InOrder) (hpos : 1 ≤ n.toNat)
    (hle : n.toNat ≤ s.kept.history.lastBlock) : ∃ block, s.getBlock n = some block := by
  have hmem : n.toNat ∈ s.blocks.map fun block => block.blockNumber.toNat := by
    rw [show s.blocks.map _ = _ from ho, List.mem_range'_1]
    omega
  obtain ⟨block, hblock, hnumber⟩ := List.mem_map.mp hmem
  cases hget : s.getBlock n with
  | some block' => exact ⟨block', rfl⟩
  | none =>
    have hother := List.find?_eq_none.mp hget block hblock
    rw [decide_eq_true_eq] at hother
    exact absurd (UInt32.toNat_inj.mp hnumber) hother

/-- A generator whose block is there can load the tree before it, if that is not cached. -/
theorem GeneratorsOk.exists_loadTree (hs : GeneratorsOk env sha256 s)
    (hfit : s.kept.history.UpdatesFit) (it : HashIteration) (order : CacheIteration) {g : Nat}
    {gen : WitnessGenerator} (hgen : s.generators[g]? = some gen) (hnone : gen.loaded = none)
    (hcurrent : gen.currentBlock = n) (hbehind : 1 < n.toNat)
    (hle : n.toNat ≤ s.kept.history.lastBlock) (hmissing : s.witnesses.find n.toNat = none)
    (hcache : s.caches.find (n.toNat - 1) = none) :
    ∃ tree internals caches, caches.rows = s.caches.rows ++ [⟨n.toNat - 1, internals⟩] ∧
      GeneratorStep env sha256 s (.loadTree g)
        ({ s with caches := caches }.setGenerator g { gen with loaded := some tree }) := by
  obtain ⟨block, hblock⟩ := hs.inOrder.exists_getBlock hbehind.le hle
  have hwork : s.shouldWorkOnBlock gen.currentBlock = .NoWitness block := by
    unfold ProverServer.shouldWorkOnBlock
    rw [hcurrent, hblock]
    dsimp only
    rw [hmissing]
    rfl
  have hbefore : (block.blockNumber - 1).toNat = n.toNat - 1 := by
    rw [(getBlock_eq_some hblock).2]
    exact toNat_before hbehind.le
  obtain ⟨tree, internals, -, -, hrestore⟩ := restoreAccountTree_eq it order hs.kept hfit
    (hs.trees hfit).caches (show (block.blockNumber - 1).toNat ≤ s.kept.history.lastBlock by omega)
  have hnewest : s.caches.newest.map AccountTreeCache.block ≠ some (block.blockNumber - 1).toNat := by
    intro hnewest
    obtain ⟨row, hrow, hkey⟩ := Option.map_eq_some_iff.mp hnewest
    rw [hbefore] at hkey
    exact Table.find_eq_none.mp hcache row (TreeCaches.mem_of_newest hrow).1 hkey
  rw [← hbefore] at hcache
  obtain ⟨caches, hstore⟩ := TreeCaches.exists_store internals hcache
  rw [if_neg hnewest, hstore] at hrestore
  refine ⟨tree, internals, caches, ?_, .loadTree hgen hnone hwork hrestore⟩
  rcases TreeCaches.storeAccountTreeCache_eq_ok hstore with ⟨hzero, -⟩ | ⟨-, -, hrows⟩
  · rw [hzero] at hbefore
    change 0 = _ at hbefore
    omega
  · rw [hrows, hbefore]

/-- The tree of a committed block can be loaded when its cache is the newest or not there yet
and the block has the root hash of its accounts. It is then the tree of the accounts after the
block: for every later sequence of calls by its hashes, and by what is read from it. -/
theorem accountTree_loaded (hz : env.NoZeroSigner) {db₀ : Db} {feeAccountAddress : Address}
    (hgenesis : Db.empty.createGenesisBlock feeAccountAddress = some db₀)
    (hrun : Run (GeneratorStep env sha256) (.start db₀ feeAccountAddress) calls s)
    (hfit : s.kept.history.UpdatesFit) (it : HashIteration) (order : CacheIteration)
    {block : BlockNumber} (hblock : block.toNat ≤ s.kept.history.lastBlock) :
    ∃ fresh, loadAccountTree env.hasher
        (it.entries (s.kept.history.accountsAt block.toNat)) = .ok fresh ∧
      ((∃ loaded, WitnessGenerator.loadAccountTree env.hasher it order s.kept.db s.caches block =
          .ok loaded) ↔ s.caches.Storable block ∧ RootStored env.hasher s.kept block) ∧
      ∀ tree caches, WitnessGenerator.loadAccountTree env.hasher it order s.kept.db s.caches block =
        .ok (tree, caches) → SameHashes (circuitParams env.hasher) tree fresh ∧
          ∀ id, (accountAt env.hasher tree id).Shows 0
            (((s.kept.history.accountsAt block.toNat).lookup id).getD Account.default) := by
  have hs := generatorsOk_of_run hz hgenesis hrun
  obtain ⟨fresh, hload, hfresh⟩ := exists_accountTree it (H := env.hasher) hfit hblock
  obtain ⟨tree, internals, htree, -, hrestore⟩ :=
    restoreAccountTree_eq it order hs.kept hfit (hs.trees hfit).caches hblock
  obtain ⟨hroot, hchecked⟩ := checkRootHash_eq_ok htree
  have hstorable := restoreAccountTree_storable hrestore
  refine ⟨fresh, hload, ?_, ?_⟩
  -- loading means restoring, hashing, and comparing with the stored root
  · unfold WitnessGenerator.loadAccountTree
    constructor
    · rintro ⟨loaded, h⟩
      obtain ⟨⟨tree', caches⟩, hrestored, h⟩ := Outcome.bind_eq_ok.mp h
      obtain ⟨tree₁, hcheck, -⟩ := Outcome.bind_eq_ok.mp h
      obtain rfl := (hstorable.2 tree' caches hrestored)
      exact ⟨hstorable.1.mp ⟨_, hrestored⟩, hroot.mp ⟨_, hcheck⟩⟩
    · rintro ⟨hstore, hstored⟩
      obtain ⟨⟨tree', caches⟩, hrestored⟩ := hstorable.1.mpr hstore
      obtain rfl := hstorable.2 tree' caches hrestored
      obtain ⟨tree₁, hcheck⟩ := hroot.mpr hstored
      rw [hrestored, Outcome.ok_bind]
      dsimp only
      rw [hcheck]
      exact ⟨_, rfl⟩
  · intro tree₁ caches h
    obtain ⟨⟨tree', caches'⟩, hrestored, h⟩ := Outcome.bind_eq_ok.mp h
    obtain rfl := hstorable.2 tree' caches' hrestored
    obtain ⟨tree₂, hcheck, h⟩ := Outcome.bind_eq_ok.mp h
    cases h
    have hright := hchecked _ hcheck
    exact ⟨hright.acts.sameHashes hfresh, hright.holds⟩

/-- The tree of block 1 was cached by the second generator, and is restored from there. -/
theorem accountTree_loaded_cached : ∃ db₀ calls s fresh, ∃ it : HashIteration, ∃ order : CacheIteration,
    Run (GeneratorStep Env.leafOne fun _ => 0) (.start db₀ 1) calls s ∧
    s.kept.history.blocks = [depositUpdates, []] ∧ s.caches.rows.map AccountTreeCache.block = [1] ∧
    (∃ loaded, WitnessGenerator.loadAccountTree Env.leafOne.hasher it order s.kept.db s.caches 1 =
      .ok loaded) ∧
    ∀ tree caches, WitnessGenerator.loadAccountTree Env.leafOne.hasher it order s.kept.db s.caches 1 =
      .ok (tree, caches) → SameHashes (circuitParams Env.leafOne.hasher) tree fresh ∧
        ∀ id, (accountAt Env.leafOne.hasher tree id).Shows 0
          (((s.kept.history.accountsAt 1).lookup id).getD Account.default) := by
  obtain ⟨db₀, calls, s, db, keeper, row, gen, gen', hgenesis, hrun, h⟩ := exists_firstWitness
  obtain ⟨it⟩ := HashIteration.exists
  obtain ⟨order⟩ := CacheIteration.exists
  have hs := generatorsOk_of_run noZeroSigner_leafOne hgenesis hrun
  have hhistory : s.kept.history = depositHistory := by rw [h.kept]
  have hlast : s.kept.history.lastBlock = 1 := by
    rw [hhistory]
    rfl
  obtain ⟨kept, call, _, hstep, -, hnext, hrows⟩ := exists_server_emptyBlock
    (fun _ => 0) rfl hs.kept h.between (by rw [hlast]; decide)
  rw [hhistory] at hnext
  -- the second generator loads the tree of block 1
  have hs₁ := hs.step noZeroSigner_leafOne hstep
  have hfit₁ : kept.history.UpdatesFit := by
    rw [hnext]
    exact updatesFit_deposit.emptyBlock
  have hgen' : s.generators[1]? = some gen' := by
    rw [h.generators]
    rfl
  obtain ⟨tree, internals, caches, hcaches, hload⟩ := hs₁.exists_loadTree hfit₁ it order hgen'
    h.current'.2 h.current'.1 (by decide)
    (by
      show 2 ≤ kept.history.lastBlock
      rw [hnext]
      decide)
    (Table.find_eq_none.mpr fun r hr => by
      change r ∈ s.witnesses.rows at hr
      rw [h.witnesses] at hr
      rw [List.mem_singleton.mp hr, h.block]
      decide)
    (Table.find_eq_none.mpr fun r hr => by
      change r ∈ s.caches.rows at hr
      rw [h.caches] at hr
      exact absurd hr List.not_mem_nil)
  have hcaches : caches.rows = [⟨1, internals⟩] := by
    rw [hcaches]
    show s.caches.rows ++ _ = _
    rw [h.caches]
    rfl
  have hnewest : caches.newest = some ⟨1, internals⟩ := by
    obtain ⟨rows, nodup⟩ := caches
    obtain rfl : rows = [⟨1, internals⟩] := hcaches
    rfl
  have hrun₂ := hrun.append (.cons hstep (.single hload))
  have hstored : RootStored Env.leafOne.hasher kept 1 := by
    obtain ⟨row, hrow, hroot⟩ := h.stored.resolve_left (by decide)
    refine Or.inr ⟨row, (hrows 1 hlast.ge).trans hrow, ?_⟩
    rw [hnext]
    rw [hhistory] at hroot
    exact hroot
  have hsealed : (1 : BlockNumber).toNat ≤ kept.history.lastBlock := by
    rw [hnext]
    decide
  obtain ⟨fresh, -, hiff, hsame⟩ := accountTree_loaded noZeroSigner_leafOne hgenesis hrun₂ hfit₁ it
    order hsealed
  refine ⟨db₀, _, _, fresh, it, order, hrun₂, ?_, ?_, hiff.mpr ⟨Or.inr (Or.inl ⟨_, hnewest, rfl⟩),
    hstored⟩, hsame⟩
  · show kept.history.blocks = _
    rw [hnext]
    rfl
  · show caches.rows.map AccountTreeCache.block = _
    rw [hcaches]
    rfl

/-- A stored witness was built for the block of its row, over a tree of the accounts before the
block: it has their hashes, and shows each of them to the builder. -/
theorem witnesses_of_run (hz : env.NoZeroSigner) {db₀ : Db} {feeAccountAddress : Address}
    (hgenesis : Db.empty.createGenesisBlock feeAccountAddress = some db₀)
    (hrun : Run (GeneratorStep env sha256) (.start db₀ feeAccountAddress) calls s)
    (hfit : s.kept.history.UpdatesFit) (it : HashIteration) :
    ∀ row ∈ s.witnesses.rows, ∃ block ∈ s.blocks, block.blockNumber.toNat = row.block ∧ ∃ tree fresh,
      loadAccountTree env.hasher (it.entries (s.kept.history.accountsAt (row.block - 1))) =
        .ok fresh ∧
      SameHashes (circuitParams env.hasher) tree fresh ∧
      (∀ id, (accountAt env.hasher tree id).Shows 0
        (((s.kept.history.accountsAt (row.block - 1)).lookup id).getD Account.default)) ∧
      buildBlockWitness env.hasher sha256 tree block = .ok row.witness := by
  intro row hrow
  have hs := generatorsOk_of_run hz hgenesis hrun
  obtain ⟨block, hblock, hnumber, tree, htree, hbuilt⟩ := (hs.trees hfit).witnesses row hrow
  have hle := (hs.inOrder.number hblock).2
  rw [hnumber] at hle
  obtain ⟨fresh, hload, hfresh⟩ := exists_accountTree it (H := env.hasher) hfit
    ((Nat.sub_le row.block 1).trans hle)
  exact ⟨block, hblock, hnumber, tree, fresh, hload, htree.acts.sameHashes hfresh, htree.holds,
    hbuilt⟩

/-- The witness of the block with a deposit. -/
theorem witnesses_of_run_deposit : ∃ db₀ calls s row, ∃ it : HashIteration,
    Run (GeneratorStep Env.leafOne fun _ => 0) (.start db₀ 1) calls s ∧
    s.witnesses.rows = [row] ∧ row.block = 1 ∧ s.kept.history.blocks = [depositUpdates] ∧
    ∃ block ∈ s.blocks, block.blockNumber.toNat = row.block ∧ ∃ tree fresh,
      loadAccountTree Env.leafOne.hasher (it.entries (s.kept.history.accountsAt (row.block - 1))) =
        .ok fresh ∧
      SameHashes (circuitParams Env.leafOne.hasher) tree fresh ∧
      (∀ id, (accountAt Env.leafOne.hasher tree id).Shows 0
        (((s.kept.history.accountsAt (row.block - 1)).lookup id).getD Account.default)) ∧
      buildBlockWitness Env.leafOne.hasher (fun _ => 0) tree block = .ok row.witness := by
  obtain ⟨db₀, calls, s, db, keeper, row, gen, gen', hgenesis, hrun, h⟩ := exists_firstWitness
  obtain ⟨it⟩ := HashIteration.exists
  have hhistory : s.kept.history = depositHistory := by rw [h.kept]
  exact ⟨db₀, calls, s, row, it, hrun, h.witnesses, h.block, by rw [hhistory]; rfl,
    witnesses_of_run noZeroSigner_leafOne hgenesis hrun (by rw [hhistory]; exact updatesFit_deposit) it
      row (by rw [h.witnesses]; exact List.mem_singleton_self row)⟩

/-- Behind the block that was verified when the generators were started, each block belongs to
one of them. It does not go past the block before the witness is stored. -/
theorem blocks_taken (hz : env.NoZeroSigner) {db₀ : Db} {feeAccountAddress : Address}
    (hgenesis : Db.empty.createGenesisBlock feeAccountAddress = some db₀)
    (hrun : Run (GeneratorStep env sha256) (.start db₀ feeAccountAddress) calls s)
    (hbound : s.Bounded) (hgenerators : s.generators ≠ []) {n : Nat}
    (hn : s.lastVerifiedBlock.toNat < n) :
    ∃ (g : Nat) (gen : WitnessGenerator), s.generators[g]? = some gen ∧ gen.Takes n ∧
      (n < gen.currentBlock.toNat → (s.witnesses.find n).isSome) ∧
      ∀ (g' : Nat) (gen' : WitnessGenerator), s.generators[g']? = some gen' → gen'.Takes n →
        g' = g :=
  ((generatorsOk_of_run hz hgenesis hrun).turns hbound).taken hgenerators hn

/-- Of two generators, one has taken the first block, and stored its witness. -/
theorem blocks_taken_first : ∃ db₀ calls s row,
    Run (GeneratorStep Env.leafOne fun _ => 0) (.start db₀ 1) calls s ∧
    s.witnesses.rows = [row] ∧ s.generators.map WitnessGenerator.currentBlock = [3, 2] ∧
    ∃ (g : Nat) (gen : WitnessGenerator), s.generators[g]? = some gen ∧ gen.Takes 1 ∧
      (1 < gen.currentBlock.toNat → (s.witnesses.find 1).isSome) ∧
      ∀ (g' : Nat) (gen' : WitnessGenerator), s.generators[g']? = some gen' → gen'.Takes 1 →
        g' = g := by
  obtain ⟨db₀, calls, s, db, keeper, row, gen, gen', hgenesis, hrun, h⟩ := exists_firstWitness
  have hbound : s.Bounded := by
    unfold ProverServer.Bounded
    rw [h.kept, h.generators]
    show 1 + 2 < 2 ^ 32
    decide
  have hbehind : s.lastVerifiedBlock.toNat < 1 := by
    rw [h.verified]
    decide
  refine ⟨db₀, calls, s, row, hrun, h.witnesses, ?_, blocks_taken noZeroSigner_leafOne hgenesis hrun
    hbound (by rw [h.generators]; exact List.cons_ne_nil _ _) hbehind⟩
  rw [h.generators, List.map_cons, List.map_cons, h.current.1, h.current'.1]
  rfl

end Runs

/-! ## A block without a witness -/

section Lost

variable {env : Env} {sha256 : Bytes → BitVec 256} {s s' : ProverServer} {n block : BlockNumber}
  {call : GeneratorCall} {calls : List GeneratorCall} {it : HashIteration} {order : CacheIteration}
  {caches caches' : TreeCaches}

/-- The tree before the block is cached, and a later one; there is no witness, and no
generator holds the tree. -/
structure Lost (s : ProverServer) (n : BlockNumber) : Prop where
  fits : ∀ row ∈ s.caches.rows, row.block < UInt32.size
  behind : 1 < n.toNat
  cached : ∃ row ∈ s.caches.rows, row.block = n.toNat - 1
  passed : ∃ row ∈ s.caches.rows, n.toNat - 1 < row.block
  missing : s.witnesses.find n.toNat = none
  unloaded : ∀ gen ∈ s.generators, gen.currentBlock = n → gen.loaded = none

/-- A generator that loaded a tree has tried to store its cache. -/
theorem storeTree_stores {H : Hasher Fr} {tree tree' : CircuitAccountTree}
    (h : WitnessGenerator.storeTree H order caches block tree = .ok (tree', caches')) :
    ∃ internals, caches.storeAccountTreeCache block internals = .ok caches' := by
  obtain ⟨hashed, -, h⟩ := Outcome.bind_eq_ok.mp h
  obtain ⟨stored, hstore, h⟩ := Outcome.bind_eq_ok.mp h
  cases h
  exact ⟨_, hstore⟩

/-- A generator that loads a tree uses the newest cache, or stores one. -/
theorem restoreAccountTree_stores {H : Hasher Fr} {db : Db} {tree : CircuitAccountTree}
    (h : WitnessGenerator.restoreAccountTree H it order db caches block = .ok (tree, caches')) :
    (caches' = caches ∧ ∃ row, caches.newest = some row ∧ UInt32.ofNat row.block = block) ∨
      ∃ internals, caches.storeAccountTreeCache block internals = .ok caches' := by
  unfold WitnessGenerator.restoreAccountTree TreeCaches.getAccountTreeCache at h
  obtain ⟨loaded, -, h⟩ := Outcome.bind_eq_ok.mp h
  cases hnewest : caches.newest with
  | none =>
    rw [hnewest] at h
    exact Or.inr (storeTree_stores h)
  | some row =>
    rw [hnewest] at h
    obtain ⟨restored, -, h⟩ := Outcome.bind_eq_ok.mp h
    by_cases heq : block = UInt32.ofNat row.block
    · rw [if_neg (not_not.mpr heq)] at h
      cases h
      exact Or.inl ⟨rfl, row, rfl, heq.symm⟩
    · rw [if_pos heq] at h
      obtain ⟨updated, -, h⟩ := Outcome.bind_eq_ok.mp h
      exact Or.inr (storeTree_stores h)

/-- The thread of the keeper stores a cache of the accounts that it loaded. -/
theorem cacheTree_stores {H : Hasher Fr} {db : Db}
    (h : ZkSyncStateInitParams.cacheTree H it order db caches = .ok caches') :
    caches' = caches ∨
      ∃ number internals, caches.storeAccountTreeCache number internals = .ok caches' := by
  unfold ZkSyncStateInitParams.cacheTree at h
  split at h
  next number accounts _ =>
    split at h
    · cases h
      exact Or.inl rfl
    · obtain ⟨hashed, -, h⟩ := Outcome.bind_eq_ok.mp h
      exact Or.inr ⟨number, _, h⟩

/-- The insert of the cache fails. -/
theorem Lost.restoreAccountTree {H : Hasher Fr} {db : Db} (h : Lost s n)
    (loaded : CircuitAccountTree × TreeCaches) :
    WitnessGenerator.restoreAccountTree H it order db s.caches (n - 1) ≠ .ok loaded := by
  intro hrestore
  obtain ⟨tree, caches⟩ := loaded
  have hbefore : (n - 1).toNat = n.toNat - 1 := toNat_before h.behind.le
  rcases restoreAccountTree_stores hrestore with ⟨-, newest, hnewest, hblock⟩ | ⟨internals, hstore⟩
  · -- the newest cache is a later one
    obtain ⟨hmem, hmax⟩ := TreeCaches.mem_of_newest hnewest
    obtain ⟨row, hrow, hlater⟩ := h.passed
    have hle := hmax row hrow
    have hnumber : (UInt32.ofNat newest.block).toNat = newest.block :=
      UInt32.toNat_ofNat_of_lt' (h.fits newest hmem)
    rw [hblock, hbefore] at hnumber
    omega
  · rcases TreeCaches.storeAccountTreeCache_eq_ok hstore with ⟨hzero, -⟩ | ⟨-, hnone, -⟩
    · rw [hzero] at hbefore
      have := h.behind
      change 0 = _ at hbefore
      omega
    · obtain ⟨row, hrow, hkey⟩ := h.cached
      rw [← hbefore] at hkey
      exact Table.find_eq_none.mp hnone row hrow hkey

/-- The table may grow. -/
theorem Lost.store (h : Lost s n) {internals : SparseMerkleTreeSerializableCacheBN256}
    (hstore : s.caches.storeAccountTreeCache block internals = .ok caches') :
    Lost { s with caches := caches' } n := by
  obtain ⟨row, hrow, hcached⟩ := h.cached
  obtain ⟨later, hlater, hpassed⟩ := h.passed
  refine ⟨?_, h.behind, ⟨row, TreeCaches.mem_of_store hstore hrow, hcached⟩,
    ⟨later, TreeCaches.mem_of_store hstore hlater, hpassed⟩, h.missing, h.unloaded⟩
  rcases TreeCaches.storeAccountTreeCache_eq_ok hstore with ⟨-, rfl⟩ | ⟨-, -, hrows⟩
  · exact h.fits
  · intro row hrow
    dsimp only at hrow
    rw [hrows] at hrow
    rcases List.mem_append.mp hrow with hold | hnew
    · exact h.fits row hold
    · rw [List.mem_singleton.mp hnew]
      exact block.toNat_lt_size

/-- A lost block stays lost while no generator without a tree stands at it. -/
theorem Lost.setGenerator (h : Lost s n) (g : Nat) {gen : WitnessGenerator}
    (hgen : gen.currentBlock = n → gen.loaded = none) : Lost (s.setGenerator g gen) n := by
  refine ⟨h.fits, h.behind, h.cached, h.passed, h.missing, fun gen' hgen' hcurrent => ?_⟩
  rcases List.mem_or_eq_of_mem_set hgen' with hold | rfl
  · exact h.unloaded gen' hold hcurrent
  · exact hgen hcurrent

/-- No step helps. -/
theorem Lost.step (h : Lost s n) (hstep : GeneratorStep env sha256 s call s') : Lost s' n := by
  cases hstep with
  | server => exact ⟨h.fits, h.behind, h.cached, h.passed, h.missing, h.unloaded⟩
  | keeperCache hcache =>
    rcases cacheTree_stores hcache with rfl | ⟨number, internals, hstore⟩
    · exact h
    · exact h.store hstore
  | runProverServer =>
    refine ⟨h.fits, h.behind, h.cached, h.passed, h.missing, fun gen hgen _ => ?_⟩
    obtain ⟨offset, -, rfl⟩ := List.mem_map.mp hgen
    rfl
  | passBlock hgen hnone => exact h.setGenerator _ fun _ => hnone
  | @loadTree g gen block it order tree caches hgen hnone hwork hrestore =>
    have hnumber := (getBlock_eq_some (shouldWorkOnBlock_eq hwork).1).2
    have hlost : Lost { s with caches := caches } n := by
      rcases restoreAccountTree_stores hrestore with ⟨rfl, -⟩ | ⟨internals, hstore⟩
      · exact h
      · exact h.store hstore
    refine hlost.setGenerator g fun hcurrent => ?_
    rw [hnumber, show gen.currentBlock = n from hcurrent] at hrestore
    exact absurd hrestore (h.restoreAccountTree _)
  | fail => exact h.setGenerator _ fun _ => rfl
  | @storeWitness g gen block loaded tree witness hgen hloaded hblock =>
    -- the witness is one of another block
    have hother : n.toNat ≠ block.blockNumber.toNat := by
      intro heq
      rw [(getBlock_eq_some hblock).2] at heq
      have hnone := h.unloaded gen (List.mem_of_getElem? hgen) (UInt32.toNat_inj.mp heq.symm)
      rw [hnone] at hloaded
      cases hloaded
    have hmissing : (s.witnesses.insertNew ⟨block.blockNumber.toNat, witness⟩).find n.toNat =
        none := by
      rw [Table.find_eq_none]
      intro row hrow
      rcases Table.mem_insertNew.mp hrow with hold | ⟨rfl, -⟩
      · exact Table.find_eq_none.mp h.missing row hold
      · exact hother.symm
    have hlost : Lost { s with witnesses :=
        (s.witnesses.insertNew ⟨block.blockNumber.toNat, witness⟩) } n :=
      ⟨h.fits, h.behind, h.cached, h.passed, hmissing, h.unloaded⟩
    exact hlost.setGenerator g fun _ => rfl

/-- How it comes to that: a generator caches the tree before its block and fails, and the
generator of the next block caches the tree before that one. -/
theorem exists_lost (hz : env.NoZeroSigner) (hs : GeneratorsOk env sha256 s)
    (hfit : s.kept.history.UpdatesFit) (it : HashIteration) (order : CacheIteration) {g g' : Nat}
    {gen gen' : WitnessGenerator} (hgen : s.generators[g]? = some gen)
    (hgen' : s.generators[g']? = some gen') (hcurrent : gen.currentBlock = n)
    (hcurrent' : gen'.currentBlock = n + 1) (hunloaded : ∀ gen ∈ s.generators, gen.loaded = none)
    (hbehind : 1 < n.toNat) (hlast : n.toNat + 1 ≤ s.kept.history.lastBlock)
    (hmissing : ∀ row ∈ s.witnesses.rows, row.block < n.toNat)
    (hcaches : ∀ row ∈ s.caches.rows, row.block < n.toNat - 1) :
    ∃ s', Run (GeneratorStep env sha256) s [.loadTree g, .fail g, .loadTree g'] s' ∧ Lost s' n := by
  have hnext : (n + 1).toNat = n.toNat + 1 := by
    have := hs.kept.tabled.lt
    rw [UInt32.toNat_add]
    exact Nat.mod_eq_of_lt (Nat.lt_of_le_of_lt hlast this)
  have hne : g ≠ g' := by
    rintro rfl
    rw [hgen] at hgen'
    cases hgen'
    rw [← hcurrent', hcurrent] at hnext
    omega
  -- the first generator, and its failure
  obtain ⟨tree₁, internals₁, caches₁, hrows₁, hload₁⟩ := hs.exists_loadTree hfit it order hgen
    (hunloaded gen (List.mem_of_getElem? hgen)) hcurrent hbehind (by omega)
    (Table.find_eq_none.mpr fun row hrow => (hmissing row hrow).ne)
    (Table.find_eq_none.mpr fun row hrow => (hcaches row hrow).ne)
  have hlt : g < s.generators.length := (List.getElem?_eq_some_iff.mp hgen).1
  generalize hs₁ : ({ s with caches := caches₁ } : ProverServer).setGenerator g
    { gen with loaded := some tree₁ } = s₁ at hload₁
  have hgenerators₁ : s₁.generators = s.generators.set g { gen with loaded := some tree₁ } := by
    rw [← hs₁]
    rfl
  have hheld : s₁.generators[g]? = some { gen with loaded := some tree₁ } := by
    rw [hgenerators₁, List.getElem?_set_self hlt]
  have hfail := @GeneratorStep.fail env sha256 s₁ g _ hheld
  have hok₂ := (hs.step hz hload₁).step hz hfail
  dsimp only at hfail hok₂
  generalize hs₂ : s₁.setGenerator g { gen with loaded := none } = s₂ at hfail hok₂
  have hgenerators₂ : s₂.generators = s.generators.set g { gen with loaded := none } := by
    rw [← hs₂]
    show s₁.generators.set g _ = _
    rw [hgenerators₁, List.set_set]
  obtain ⟨hkept₂, hwitnesses₂, hcaches₂⟩ : s₂.kept = s.kept ∧ s₂.witnesses = s.witnesses ∧
      s₂.caches = caches₁ := by
    rw [← hs₂, ← hs₁]
    exact ⟨rfl, rfl, rfl⟩
  -- the second one
  obtain ⟨tree₂, internals₂, caches₂, hrows₂, hload₂⟩ := hok₂.exists_loadTree (n := n + 1)
    (by rw [hkept₂]; exact hfit) it order
    (show s₂.generators[g']? = some gen' by
      rw [hgenerators₂, List.getElem?_set_ne hne]
      exact hgen')
    (hunloaded gen' (List.mem_of_getElem? hgen')) hcurrent' (by omega)
    (by rw [hkept₂]; omega)
    (by
      rw [hwitnesses₂, Table.find_eq_none]
      intro row hrow
      have := hmissing row hrow
      omega)
    (by
      rw [hcaches₂, Table.find_eq_none, hrows₁]
      intro row hrow
      rcases List.mem_append.mp hrow with hold | hnew
      · have := hcaches row hold
        omega
      · rw [List.mem_singleton.mp hnew]
        dsimp only
        omega)
  refine ⟨_, .cons hload₁ (.cons hfail (.single hload₂)), ?_⟩
  rw [hcaches₂, hrows₁, hnext] at hrows₂
  refine ⟨fun row hrow => ?_, hbehind, ?_, ?_, ?_, fun gen₃ hgen₃ hcurrent₃ => ?_⟩
  · change row ∈ caches₂.rows at hrow
    have := hs.kept.tabled.lt
    rw [hrows₂] at hrow
    show row.block < 2 ^ 32
    rcases List.mem_append.mp hrow with hold | hnew
    · rcases List.mem_append.mp hold with hold | hnew
      · have := hcaches row hold
        omega
      · rw [List.mem_singleton.mp hnew]
        dsimp only
        omega
    · rw [List.mem_singleton.mp hnew]
      dsimp only
      omega
  · refine ⟨⟨n.toNat - 1, internals₁⟩, ?_, rfl⟩
    show _ ∈ caches₂.rows
    rw [hrows₂]
    simp
  · refine ⟨⟨n.toNat + 1 - 1, internals₂⟩, ?_, show n.toNat - 1 < n.toNat + 1 - 1 by omega⟩
    show _ ∈ caches₂.rows
    rw [hrows₂]
    simp
  · show s₂.witnesses.find n.toNat = none
    rw [hwitnesses₂]
    exact Table.find_eq_none.mpr fun row hrow => (hmissing row hrow).ne
  · rcases List.mem_or_eq_of_mem_set hgen₃ with hold | rfl
    · change gen₃ ∈ s₂.generators at hold
      rw [hgenerators₂] at hold
      rcases List.mem_or_eq_of_mem_set hold with hold | rfl
      · exact hunloaded gen₃ hold
      · rfl
    · change gen'.currentBlock = n at hcurrent₃
      rw [← hcurrent', hcurrent₃] at hnext
      omega

/-- Such a block never gets a witness, whatever is done: its tree is never loaded again. -/
theorem never_witnessed (hlost : Lost s n) (hrun : Run (GeneratorStep env sha256) s calls s') :
    s'.witnesses.find n.toNat = none ∧
      ∀ (db : Db) (it : HashIteration) (order : CacheIteration)
        (loaded : CircuitAccountTree × TreeCaches),
        WitnessGenerator.loadAccountTree env.hasher it order db s'.caches (n - 1) ≠ .ok loaded := by
  have hlost' : Lost s' n :=
    hrun.invariant (I := fun s => Lost s n) (fun _ _ _ h hstep => h.step hstep) hlost
  refine ⟨hlost'.missing, fun db it order loaded hload => ?_⟩
  obtain ⟨restored, hrestore, -⟩ := Outcome.bind_eq_ok.mp hload
  exact hlost'.restoreAccountTree restored hrestore

/-- A server of two generators loses block 2: the second generator fails with the tree of
block 1, and the first one, which is at block 3, caches the tree of block 2. Starting the
generators anew does not bring it back. -/
theorem never_witnessed_second : ∃ db₀ calls s s',
    Run (GeneratorStep Env.leafOne fun _ => 0) (.start db₀ 1) calls s ∧
      s.kept.history.blocks = [depositUpdates, [], []] ∧
      Run (GeneratorStep Env.leafOne fun _ => 0) s [.runProverServer 2] s' ∧
      s'.witnesses.find 2 = none ∧
      ∀ (db : Db) (it : HashIteration) (order : CacheIteration)
        (loaded : CircuitAccountTree × TreeCaches),
        WitnessGenerator.loadAccountTree Env.leafOne.hasher it order db s'.caches 1 ≠ .ok loaded := by
  obtain ⟨db₀, calls, s, db, keeper, row, gen, gen', hgenesis, hrun, h⟩ := exists_firstWitness
  obtain ⟨it⟩ := HashIteration.exists
  obtain ⟨order⟩ := CacheIteration.exists
  have hs := generatorsOk_of_run noZeroSigner_leafOne hgenesis hrun
  have hhistory : s.kept.history = depositHistory := by rw [h.kept]
  -- two more blocks
  obtain ⟨kept₁, call₁, _, hstep₁, hbetween₁, hnext₁, -⟩ := exists_server_emptyBlock
    (fun _ => 0) rfl hs.kept h.between (by rw [hhistory]; decide)
  rw [hhistory] at hnext₁
  have hs₁ := hs.step noZeroSigner_leafOne hstep₁
  obtain ⟨kept₂, call₂, _, hstep₂, -, hnext₂, -⟩ := exists_server_emptyBlock
    (fun _ => 0) rfl hs₁.kept hbetween₁ (by
      show kept₁.history.lastBlock + 2 < 2 ^ 32
      rw [hnext₁]
      decide)
  have hnext₂ : kept₂.history =
      { kept₁.history with blocks := kept₁.history.blocks ++ [[]] } := hnext₂
  rw [hnext₁] at hnext₂
  have hs₂ := hs₁.step noZeroSigner_leafOne hstep₂
  have hfit₂ : kept₂.history.UpdatesFit := by
    rw [hnext₂]
    exact updatesFit_deposit.emptyBlock.emptyBlock
  have hgen : s.generators[0]? = some gen := by
    rw [h.generators]
    rfl
  have hgen' : s.generators[1]? = some gen' := by
    rw [h.generators]
    rfl
  obtain ⟨s₃, hrun₃, hlost⟩ := exists_lost noZeroSigner_leafOne hs₂ hfit₂ it order hgen' hgen
    h.current'.1 h.current.1
    (fun g hg => by
      change g ∈ s.generators at hg
      rw [h.generators] at hg
      rcases List.mem_cons.mp hg with rfl | hg
      · exact h.current.2
      · rw [List.mem_singleton.mp hg]
        exact h.current'.2) (by decide)
    (by
      show 3 ≤ kept₂.history.lastBlock
      rw [hnext₂]
      decide)
    (fun r hr => by
      change r ∈ s.witnesses.rows at hr
      rw [h.witnesses] at hr
      rw [List.mem_singleton.mp hr, h.block]
      decide)
    (fun r hr => by
      change r ∈ s.caches.rows at hr
      rw [h.caches] at hr
      exact absurd hr List.not_mem_nil)
  have hkept₃ : s₃.kept.history.blocks = [depositUpdates, [], []] := by
    rw [kept_of_generators hrun₃ (by simp)]
    show kept₂.history.blocks = _
    rw [hnext₂]
    rfl
  have hrestart : Run (GeneratorStep Env.leafOne fun _ => 0) s₃ [.runProverServer 2]
      (s₃.runProverServer 2) := .single .runProverServer
  exact ⟨db₀, _, s₃, _, hrun.append (.cons hstep₁ (.cons hstep₂ hrun₃)), hkept₃, hrestart,
    never_witnessed hlost hrestart⟩

end Lost

end ZkSync
