import ZkSync.Witness.Rebuilt

/-!
# The padding, and the fees of a block

What `buildBlockWitness` does after its loop. The padding reads the fee account and
changes nothing. The server adds the fees to the fee account in one go and leaves out
those that are zero; the builder writes the leaf of the fee account once for each of them
and once for nothing, and takes the root hash after every write. Both come to the same
balances (`applyFees_shows`, `credited_addFees`).
-/

namespace ZkSync

open Circuit FloatConversions Smt SparseMerkleTree

/-! ## Root hashes -/

section Root

variable {H : Hasher Fr} {n : Nat} {c : CircuitAccount} {tree : CircuitAccountTree}
  {m : AccountId → Account}

theorem CircuitAccount.Ok.leafHash (h : c.Ok H) :
    ∃ hash, SparseMerkleTree.leafHash (circuitParams H) (some c) = .ok hash := by
  obtain ⟨root, hroot⟩ := exists_balanceRoot H c.subtree.items
  have hbits : ∃ bits, c.getBitsLe H = .ok bits := by
    rw [h.getBitsLe_eq, hroot]
    exact ⟨_, rfl⟩
  obtain ⟨bits, hbits⟩ := hbits
  refine ⟨H.hashBits bits, ?_⟩
  show (c.getBitsLe H >>= fun bits => pure (H.hashBits bits)) = _
  rw [hbits]
  rfl

/-- The tree of the circuit always has a root hash, and taking it changes no leaf. -/
theorem TreeShows.rootHash (h : TreeShows H n tree m) :
    ∃ hash tree', SparseMerkleTree.rootHash (circuitParams H) tree = .ok (hash, tree') ∧
      TreeShows H n tree' m ∧ ∀ j, tree'.get j = tree.get j := by
  -- every leaf has a hash, since its account can be hashed
  have hleaves : ∀ i, ∃ hash, leafHash (circuitParams H) (tree.items.lookup i) = .ok hash := by
    intro i
    by_cases hi : i ∈ tree.items
    · have hlevel := h.ok.treeOk.inLevel_of_mem hi
      rw [h.ok.depth] at hlevel
      have hlt : i < 2 ^ 32 := by
        have := hlevel.2
        unfold accountTreeDepth at this
        omega
      have hok := h.ok.accounts (UInt32.ofNat i)
      unfold accountAt SparseMerkleTree.get at hok
      rw [UInt32.toNat_ofNat_of_lt' hlt] at hok
      rw [← leafHash_getD (circuitParams H)]
      exact hok.leafHash
    · rw [Finmap.lookup_eq_none.mpr hi, leafHash_none]
      exact ⟨_, rfl⟩
  have hroot : ∃ hash, Prod.fst <$> SparseMerkleTree.rootHash (circuitParams H) tree = .ok hash := by
    rw [rootHash_eq h.ok.treeOk h.ok.hashed]
    rcases fullRoot_cases (circuitParams H) tree.treeDepth tree.items (e := .panic "")
      (fun i => Or.inl (hleaves i)) with ⟨hok, -⟩ | ⟨-, i, -, herr⟩
    · exact hok
    · obtain ⟨hash, hhash⟩ := hleaves i
      rw [hhash] at herr
      cases herr
  obtain ⟨hash, hroot⟩ := hroot
  obtain ⟨⟨hash', tree'⟩, hroot, -⟩ := Outcome.map_eq_ok.mp hroot
  have hframe := rootHash_frame hroot
  -- hashing changes no leaf
  have hget : ∀ j, tree'.get j = tree.get j := by
    intro j
    rw [hframe]
    rfl
  have hat : ∀ id, accountAt H tree' id = accountAt H tree id := by
    intro id
    unfold accountAt
    rw [hget]
  refine ⟨hash', tree', hroot, ⟨⟨rootHash_treeOk h.ok.treeOk hroot,
    rootHash_hashOk h.ok.treeOk h.ok.hashed hroot, ?_, fun id => ?_⟩, fun id => ?_⟩, hget⟩
  · rw [hframe]
    exact h.ok.depth
  · rw [hat]
    exact h.ok.accounts id
  · rw [hat]
    exact h.accounts id

/-- The tree shows these accounts, and `hash` was taken of it. -/
structure ShowsHashed (H : Hasher Fr) (n : Nat) (tree : CircuitAccountTree) (m : AccountId → Account)
    (hash : Fr) : Prop where
  shows : TreeShows H n tree m
  taken : ∃ tree₁, TreeShows H n tree₁ m ∧
    SparseMerkleTree.rootHash (circuitParams H) tree₁ = .ok (hash, tree)

/-- It is the root hash of every state with these accounts. -/
theorem ShowsHashed.root {hash : Fr} (h : ShowsHashed H n tree m hash) {s : ZkSyncState}
    (hs : Hashed H s) (hfit : AllFit s) (hm : ∀ id, (m id).Equiv (s.content id)) :
    s.root H = .ok hash := by
  obtain ⟨tree₁, hshows, hroot⟩ := h.taken
  rw [← root_of_shows hs hfit (hshows.equiv hm), hroot]
  rfl

end Root

/-! ## Fees -/

/-- The fees, one after the other. -/
def Account.addFees (a : Account) (fees : List CollectedFee) : Account :=
  fees.foldl (fun a fee => a.addBalance fee.token fee.amount) a

theorem credited_addFees (a : Account) (fees : List CollectedFee) : Credited a fees (a.addFees fees) := by
  induction fees generalizing a with
  | nil => exact ⟨rfl, rfl, rfl, fun _ => rfl⟩
  | cons fee fees ih =>
    have hrest := ih (a.addBalance fee.token fee.amount)
    refine ⟨hrest.pubKeyHash, hrest.address, hrest.nonce, fun token => ?_⟩
    show ((a.addBalance fee.token fee.amount).addFees fees).getBalance token = _
    rw [hrest.balance, List.map_cons, List.sum_cons]
    unfold Account.addBalance CollectedFee.of
    rw [Account.getBalance_setBalance]
    by_cases ht : token = fee.token
    · rw [if_pos ht, if_pos ht.symm, ht, Nat.add_assoc]
    · rw [if_neg ht, if_neg fun he => ht he.symm, Nat.zero_add]

/-- The fees come to the same account, with nothing added first. -/
theorem Credited.equiv_addFees {a b : Account} {fees : List CollectedFee} (h : Credited a fees b)
    (token : TokenId) : (a.addFees (⟨token, 0⟩ :: fees)).Equiv b := by
  have hadded := credited_addFees a (⟨token, 0⟩ :: fees)
  refine ⟨hadded.pubKeyHash.trans h.pubKeyHash.symm, hadded.address.trans h.address.symm,
    hadded.nonce.trans h.nonce.symm, fun token' => ?_⟩
  rw [hadded.balance, h.balance, List.map_cons, List.sum_cons]
  unfold CollectedFee.of
  rw [ite_self, Nat.zero_add]

section Fees

variable {H : Hasher Fr} {n : Nat} {tree : CircuitAccountTree} {m : AccountId → Account}
  {id : AccountId}

/-- A fee is a leaf operation on an account that has to be there. -/
theorem applyFee_eq (h : CircuitTreeOk H tree) (hleaf : (tree.get id.toNat).isSome)
    (token : TokenId) (fee : Nat) : applyFee H tree id token fee = (do
      let (leaf, tree) ← applyLeafOperation H tree id token (fun acc => return acc)
        (fun bal => bal + Fr.fromNat fee)
      let (root, tree) ← SparseMerkleTree.rootHash (circuitParams H) tree
      return ((root, leaf.accountWitnessBefore), tree)) := by
  obtain ⟨t₁, -, ht₁, -⟩ := remove_insert_ok h.treeOk h.hashed (id_lt_capacity h id)
    (CircuitAccount.default H) (CircuitAccount.default H)
  obtain ⟨c, hc⟩ := Option.isSome_iff_exists.mp hleaf
  unfold applyFee applyLeafOperation
  rw [ht₁, hc]
  simp only [Outcome.ok_bind, Outcome.expect, Option.getD_some, bind_assoc, Outcome.pure_eq]

theorem applyFee_shows (h : TreeShows H n tree m) (hleaf : (tree.get id.toNat).isSome)
    {token : TokenId} (htoken : HasLeaf token) (fee : Nat) :
    ∃ applied tree', applyFee H tree id token fee = .ok (applied, tree') ∧
      ShowsHashed H n tree' (Function.update m id ((m id).addBalance token fee)) applied.1 ∧
      (tree'.get id.toNat).isSome := by
  obtain ⟨leaf, tree₁, happly, hshows, hkeep⟩ := h.balanceLeaf id htoken
    (fun bal => bal + Fr.fromNat fee) (fromNat_add _ _)
  obtain ⟨hash, tree', hroot, hshows', hget⟩ := hshows.rootHash
  refine ⟨(hash, leaf.accountWitnessBefore), tree', ?_, ⟨hshows', tree₁, hshows, hroot⟩, ?_⟩
  · rw [applyFee_eq h.ok hleaf, happly]
    simp only [Outcome.ok_bind, hroot]
    rfl
  · rw [hget]
    exact hkeep _ hleaf

/-- All fees, when the first was applied. -/
theorem applyFees_shows {fees : List CollectedFee}
    (hfees : ∀ fee ∈ fees, HasLeaf fee.token ∧ fee.amount < u128Bound)
    {applied : Fr × AccountWitness} (h : ShowsHashed H n tree m applied.1)
    (hleaf : (tree.get id.toNat).isSome) :
    ∃ applied' tree', applyFees H id applied tree fees = .ok (applied', tree') ∧
      ShowsHashed H n tree' (Function.update m id ((m id).addFees fees)) applied'.1 ∧
      (tree'.get id.toNat).isSome := by
  induction fees generalizing m tree applied with
  | nil =>
    refine ⟨applied, tree, rfl, ?_, hleaf⟩
    show ShowsHashed H n tree (Function.update m id (m id)) applied.1
    rw [Function.update_eq_self]
    exact h
  | cons fee fees ih =>
    obtain ⟨htoken, hamount⟩ := hfees fee List.mem_cons_self
    obtain ⟨applied₁, tree₁, happly, h₁, hleaf₁⟩ := applyFee_shows h.shows hleaf htoken fee.amount
    obtain ⟨applied', tree', hrest, h', hleaf'⟩ :=
      ih (fun fee hfee => hfees fee (List.mem_cons_of_mem _ hfee)) h₁ hleaf₁
    rw [Function.update_self, Function.update_idem] at h'
    refine ⟨applied', tree', ?_, h', hleaf'⟩
    unfold applyFees
    rw [unwrapU128_ok hamount]
    simp only [Outcome.ok_bind, happly]
    exact hrest

end Fees

/-! ## The builder -/

namespace Circuit.WitnessBuilder

variable {H : Hasher Fr} {n : Nat} {m : AccountId → Account} {b : WitnessBuilder}

/-- The padding adds one operation, and the bits of nine zero bytes, for each chunk. -/
theorem addNoops_ok (hleaf : (b.accountTree.get b.feeAccountId.toNat).isSome) (count : Nat) :
    ∃ operations, b.addNoops count = .ok { b with
        operations := b.operations ++ operations
        pubdata := b.pubdata ++ fromBeBytes (noopChunks count) } ∧
      operations.length = count := by
  induction count generalizing b with
  | zero =>
    refine ⟨[], ?_, rfl⟩
    have hnone : fromBeBytes (noopChunks 0) = [] := rfl
    rw [hnone, List.append_nil, List.append_nil]
    rfl
  | succ count ih =>
    obtain ⟨acc, hacc⟩ := Option.isSome_iff_exists.mp hleaf
    obtain ⟨noop, hnoop⟩ : ∃ noop, noopOperation b.accountTree b.feeAccountId = .ok noop := by
      unfold noopOperation
      rw [hacc]
      exact ⟨_, rfl⟩
    obtain ⟨operations, hrest, hlength⟩ := ih
      (b := b.addOperationWithPubdata [noop] (List.replicate CHUNK_BIT_WIDTH false)) hleaf
    refine ⟨noop :: operations, ?_, congrArg (· + 1) hlength⟩
    unfold addNoops
    rw [hnoop, Outcome.ok_bind, hrest]
    have hbits : List.replicate CHUNK_BIT_WIDTH false ++ fromBeBytes (noopChunks count) =
        fromBeBytes (noopChunks (count + 1)) := by
      unfold noopChunks
      rw [fromBeBytes_replicate, fromBeBytes_replicate, List.replicate_append_replicate]
      congr 1
      simp only [CHUNK_BIT_WIDTH, CHUNK_BYTES]
      omega
    unfold addOperationWithPubdata
    dsimp only
    rw [List.append_assoc, List.append_assoc, hbits]
    rfl

theorem extendPubdataWithNoops_ok (hleaf : (b.accountTree.get b.feeAccountId.toNat).isSome)
    {size : Nat} (hle : b.operations.length ≤ size) :
    ∃ operations, b.extendPubdataWithNoops size = .ok { b with
        operations := b.operations ++ operations
        pubdata := b.pubdata ++ fromBeBytes (noopChunks (size - b.operations.length)) } ∧
      operations.length = size - b.operations.length := by
  obtain ⟨operations, hnoops, hlength⟩ := addNoops_ok hleaf (size - b.operations.length)
  refine ⟨operations, ?_, hlength⟩
  unfold extendPubdataWithNoops
  dsimp only
  rw [Outcome.assert_ok _ hle, Outcome.ok_bind, hnoops]

/-- The fees are collected, and nothing else changes. -/
theorem collectFees_ok (h : TreeShows H n b.accountTree m)
    (hleaf : (b.accountTree.get b.feeAccountId.toNat).isSome) {fees : List CollectedFee}
    (hfees : ∀ fee ∈ fees, HasLeaf fee.token ∧ fee.amount < u128Bound) :
    ∃ b' hash, b.collectFees H fees = .ok b' ∧ b'.rootAfterFees = some hash ∧
      b'.operations = b.operations ∧ b'.pubdata = b.pubdata ∧
      b'.initialRootHash = b.initialRootHash ∧ b'.feeAccountId = b.feeAccountId ∧
      b'.blockNumber = b.blockNumber ∧
      ShowsHashed H n b'.accountTree (Function.update m b.feeAccountId
        ((m b.feeAccountId).addFees (⟨0, 0⟩ :: fees))) hash := by
  obtain ⟨hash, tree, hroot, hshows, hget⟩ := h.rootHash
  have hleaf₁ : (tree.get b.feeAccountId.toNat).isSome := by
    rw [hget]
    exact hleaf
  obtain ⟨acc, hacc⟩ := Option.isSome_iff_exists.mp hleaf₁
  have hzero : HasLeaf 0 := show (0 : TokenId).toNat < 2 ^ balanceTreeDepth by decide
  obtain ⟨applied₁, tree₁, happly, h₁, hleaf₁⟩ := applyFee_shows hshows hleaf₁ hzero 0
  obtain ⟨applied', tree', hrest, h', -⟩ := applyFees_shows hfees h₁ hleaf₁
  rw [Function.update_self, Function.update_idem] at h'
  let balances := (List.range totalTokens).map fun i => (acc.subtree.get i).getD (Fr.fromNat 0)
  let b' : WitnessBuilder := { b with
    accountTree := tree'
    rootBeforeFees := some hash
    feeAccountBalances := some balances
    rootAfterFees := some applied'.1
    feeAccountWitness := some applied'.2 }
  refine ⟨b', applied'.1, ?_, rfl, rfl, rfl, rfl, rfl, rfl, h'⟩
  unfold collectFees
  rw [hroot, Outcome.ok_bind]
  dsimp only
  rw [hacc]
  simp only [Outcome.ok_bind, Outcome.expect, happly, hrest]
  rfl

end Circuit.WitnessBuilder

end ZkSync
