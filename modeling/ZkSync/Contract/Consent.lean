import ZkSync.Contract.Effects

/-!
# The consent to key changes

A block that changes the key of an account is committed with the consent of the
account's owner: a signature in the witness of the block, or the hash of the new key
stored by the owner before. The walk pairs key changes and witnesses by two running
offsets; here the pairing is stated on the public data alone (`opTypesFrom`,
`witnessOf`), and proved of every block that is committed.

The address recovered from no valid signature is zero. A key change of the zero
address passes with any 65 bytes, and this is the only gap
(`ZeroOwnerSigned`).
-/

namespace ZkSync.Contract

open Bytes (ofBytesBE slice)

/-! ## Ideal hashes and signatures -/

/-- Whose signature `v`, `r`, `s` is for a hash, if it is a valid one. -/
abbrev Signer := Bytes32 → UInt8 → Bytes32 → Bytes32 → Option Address

/-- No collisions among the hashes of public key hashes, and with the empty slot;
`ecrecover` returns the signer, or else zero. -/
structure Ideal (ext : Externals) (signer : Signer) : Prop where
  keccak_inj : ∀ a b : Bytes, a.length = PUBKEY_HASH_BYTES → b.length = PUBKEY_HASH_BYTES →
    ext.keccak256 a = ext.keccak256 b → a = b
  keccak_ne_zero : ∀ a : Bytes, a.length = PUBKEY_HASH_BYTES → ext.keccak256 a ≠ 0
  recover : ∀ hash v r s, ext.ecrecover hash v r s = (signer hash v r s).getD 0

/-- The bytes are a signature of the address over the message of the key change. -/
def SignedBy (ext : Externals) (signer : Signer) (address : Address) (op : ChangePubKey)
    (signature : Bytes) : Prop :=
  signature.length = 65 ∧ ∃ message,
    changePubkeySignedMessage op.pubKeyHash op.nonce op.accountId = .ok message ∧
      signer (ext.keccak256 message) (signature.getD 64 0)
        (BitVec.ofNat 256 (ofBytesBE (slice signature 0 32)))
        (BitVec.ofNat 256 (ofBytesBE (slice signature 32 32))) = some address

/-! ## Key changes in public data -/

/-- The types of the operations from an offset on. -/
def opTypesFrom (publicData : Bytes) (offset : Nat) : List OpType :=
  if offset < publicData.length then
    match opTypeAt publicData offset with
    | some opType =>
      if 0 < opType.bytes then opType :: opTypesFrom publicData (offset + opType.bytes) else []
    | none => []
  else []
  termination_by publicData.length - offset

/-- A key change behind operations of the types `front`. -/
structure KeyChangeAt (block : CommitData) (front : List OpType) (op : ChangePubKey) : Prop where
  layout : ∃ rest, opTypesFrom block.publicData 0 = front ++ .ChangePubKey :: rest
  fields : readChangePubKeyPubdata block.publicData ((front.map OpType.bytes).sum + 1) = .ok op

/-- The bytes of the witness that belong to the key change behind `front`: each key
change has a size, and the bytes follow each other. -/
def witnessOf (block : CommitData) (front : List OpType) : Bytes :=
  let index := front.count .ChangePubKey
  slice block.ethWitness ((block.ethWitnessSizes.take index).map UInt32.toNat).sum
    (block.ethWitnessSizes.getD index 0).toNat

/-! ## The walk finds them -/

section Walk

variable {ext : Externals} {s : Storage} {block : CommitData} {w w' : Walk}
  {tr : List (OpType × Walk)}

/-- The rounds of a walk that comes to the end are the operations of the data. -/
theorem opTypesFrom_eq (hrun : Run (VisitStep ext s block) w tr w')
    (hend : w'.offset = block.publicData.length) :
    opTypesFrom block.publicData w.offset = tr.map (·.1) := by
  induction hrun with
  | nil w => rw [opTypesFrom, if_neg (by omega), List.map_nil]
  | cons hstep _ ih =>
    obtain ⟨hin, -, hopType, hop⟩ := hstep
    obtain ⟨hoffset, hpos⟩ := visitOp_offset hop
    rw [opTypesFrom, if_pos hin, hopType]
    dsimp only
    rw [if_pos hpos, ← hoffset, ih hend, List.map_cons]

theorem run_offset (hrun : Run (VisitStep ext s block) w tr w') :
    w'.offset = w.offset + ((tr.map (·.1)).map OpType.bytes).sum := by
  rw [List.map_map]
  exact hrun.sum Walk.offset (fun e => e.1.bytes) fun _ _ _ hstep =>
    (visitOp_offset hstep.2.2.2).1

/-- The walk has used the first witnesses, and stands behind their bytes. -/
structure WitnessesUsed (block : CommitData) (n : Nat) (w : Walk) : Prop where
  processed : w.processedOperationsRequiringEthWitness.toNat = n
  le : n ≤ block.ethWitnessSizes.length
  offset : w.ethWitnessOffset.toNat = ((block.ethWitnessSizes.take n).map UInt32.toNat).sum

theorem sum_sizes_le (sizes : List UInt32) :
    (sizes.map UInt32.toNat).sum ≤ sizes.length * 2 ^ 32 := by
  induction sizes with
  | nil => exact Nat.le_refl _
  | cons size sizes ih =>
    have := size.toNat_lt
    rw [List.map_cons, List.sum_cons, List.length_cons]
    omega

/-- Neither of the two counters wraps, as there are less than `2 ^ 16` sizes. -/
theorem WitnessesUsed.next {n : Nat} (h : WitnessesUsed block n w)
    (hsizes : block.ethWitnessSizes.length < 2 ^ 16) {opType : OpType}
    (hop : visitOp ext s block opType w = .ok w') :
    WitnessesUsed block (n + if opType = .ChangePubKey then 1 else 0) w' := by
  have hwitness := visitOp_witness hop
  split at hwitness
  next hchange =>
    obtain ⟨hindex, hoffset, hprocessed⟩ := hwitness
    rw [h.processed] at hindex hoffset
    have hone : (1 : UInt16).toNat = 1 := rfl
    have hget : block.ethWitnessSizes.getD n 0 = block.ethWitnessSizes[n] := by
      rw [List.getD_eq_getElem?_getD, List.getElem?_eq_getElem hindex, Option.getD_some]
    have htake : ((block.ethWitnessSizes.take (n + 1)).map UInt32.toNat).sum =
        ((block.ethWitnessSizes.take n).map UInt32.toNat).sum + block.ethWitnessSizes[n].toNat := by
      rw [List.take_succ_eq_append_getElem hindex, List.map_append, List.sum_append]
      simp
    have hbound := sum_sizes_le (block.ethWitnessSizes.take (n + 1))
    rw [List.length_take, Nat.min_eq_left hindex] at hbound
    rw [if_pos hchange]
    refine ⟨?_, hindex, ?_⟩
    · rw [hprocessed, UInt16.toNat_add, h.processed, hone]
      omega
    · rw [hoffset, hget, UInt64.toNat_add, h.offset, UInt32.toNat_toUInt64, ← htake]
      omega
  next hother =>
    rw [if_neg hother, Nat.add_zero]
    exact ⟨hwitness.2 ▸ h.processed, h.le, hwitness.1 ▸ h.offset⟩

theorem WitnessesUsed.run (hsizes : block.ethWitnessSizes.length < 2 ^ 16)
    (hrun : Run (VisitStep ext s block) w tr w') {n : Nat} (h : WitnessesUsed block n w) :
    WitnessesUsed block (n + (tr.map (·.1)).count .ChangePubKey) w' := by
  induction hrun generalizing n with
  | nil => exact h
  | @cons _ _ _ e _ hstep _ ih =>
    have hcount : ((e.1 == OpType.ChangePubKey) = true) ↔ e.1 = .ChangePubKey := beq_iff_eq
    have := ih (h.next hsizes hstep.2.2.2)
    rw [List.map_cons, List.count_cons]
    simp only [hcount]
    rwa [Nat.add_comm (List.count _ _), ← Nat.add_assoc]

/-- A key change of a block that is accepted has been checked, with its own witness. -/
theorem Collected.checked (h : Collected ext s block tr w) {front : List OpType}
    {op : ChangePubKey} (hat : KeyChangeAt block front op) :
    ∃ w₁ : Walk, slice block.ethWitness w₁.ethWitnessOffset.toNat
        (block.ethWitnessSizes.getD (front.count .ChangePubKey) 0).toNat = witnessOf block front ∧
      checkConsent ext s block w₁ op
        (block.ethWitnessSizes.getD (front.count .ChangePubKey) 0) = .ok () := by
  obtain ⟨⟨rest, hlayout⟩, hfields⟩ := hat
  have htypes : tr.map (·.1) = front ++ .ChangePubKey :: rest :=
    (opTypesFrom_eq h.run h.offset).symm.trans hlayout
  obtain ⟨tr₁, tr', rfl, hfront, htail⟩ := List.map_eq_append_iff.mp htypes
  obtain ⟨⟨opType, w₀⟩, tr₂, rfl, hopType, -⟩ := List.map_eq_cons_iff.mp htail
  obtain rfl : opType = .ChangePubKey := hopType
  obtain ⟨w₁, hrun₁, hrun₂⟩ := h.run.of_append
  have hsizes : block.ethWitnessSizes.length < 2 ^ 16 :=
    h.sizes ▸ w.processedOperationsRequiringEthWitness.toNat_lt
  have hused : WitnessesUsed block (0 + (tr₁.map (·.1)).count .ChangePubKey) w₁ :=
    .run hsizes hrun₁ ⟨rfl, Nat.zero_le _, rfl⟩
  have hoffset := run_offset hrun₁
  rw [hfront] at hused hoffset
  rw [Nat.zero_add] at hused
  have hstart : w₁.offset = (front.map OpType.bytes).sum := hoffset.trans (Nat.zero_add _)
  cases hrun₂ with
  | cons hstep _ =>
    obtain ⟨-, -, -, hop⟩ := hstep
    obtain ⟨_, -, hop⟩ := Outcome.bind_eq_ok.mp hop
    obtain ⟨op', hread, hop⟩ := Outcome.bind_eq_ok.mp hop
    obtain ⟨_, hcheck, -⟩ := Outcome.bind_eq_ok.mp hop
    rw [hstart, hfields] at hread
    cases hread
    rw [hused.processed] at hcheck
    exact ⟨w₁, by rw [hused.offset, witnessOf], hcheck⟩

end Walk

/-! ## The checks -/

section Checks

variable {ext : Externals} {signer : Signer}

theorem verifyChangePubkeySignature_spec {signature : Bytes} {op : ChangePubKey}
    (h : verifyChangePubkeySignature ext signature op.pubKeyHash op.nonce op.owner op.accountId =
      .ok true) :
    signature.length = 65 ∧ ∃ message,
      changePubkeySignedMessage op.pubKeyHash op.nonce op.accountId = .ok message ∧
      ext.ecrecover (ext.keccak256 message) (signature.getD 64 0)
        (BitVec.ofNat 256 (ofBytesBE (slice signature 0 32)))
        (BitVec.ofNat 256 (ofBytesBE (slice signature 32 32))) = op.owner := by
  unfold verifyChangePubkeySignature at h
  obtain ⟨message, hmessage, h⟩ := Outcome.bind_eq_ok.mp h
  obtain ⟨recovered, hrecover, h⟩ := Outcome.bind_eq_ok.mp h
  unfold recoverAddressFromEthSignature at hrecover
  obtain ⟨_, hlength, hrecover⟩ := Outcome.bind_eq_ok.mp hrecover
  have hlength := require_eq_ok.mp hlength
  have hr : readBytes32 signature 0 =
      .ok (32, BitVec.ofNat 256 (ofBytesBE (slice signature 0 32))) := by
    rw [readBytes32, bytesToBytes32_eq (by omega)]
    rfl
  have hs : readBytes32 signature 32 =
      .ok (64, BitVec.ofNat 256 (ofBytesBE (slice signature 32 32))) := by
    rw [readBytes32, bytesToBytes32_eq (by omega)]
    rfl
  simp only [hr, hs, Outcome.ok_bind] at hrecover
  cases hrecover
  exact ⟨hlength, message, hmessage, of_decide_eq_true (Except.ok.inj h)⟩

/-- Where the owner is the zero address, a witness that is there is somebody's signature. -/
def ZeroOwnerSigned (ext : Externals) (signer : Signer) (block : CommitData) : Prop :=
  ∀ front op, KeyChangeAt block front op → op.owner = 0 → witnessOf block front ≠ [] →
    ∃ address, SignedBy ext signer address op (witnessOf block front)

/-- What a check that passes says: the owner has signed, or has stored the hash of the key. -/
theorem checkConsent_spec (hideal : Ideal ext signer) {s : Storage} {block : CommitData}
    (hzero : ZeroOwnerSigned ext signer block) {tr : List (OpType × Walk)} {w : Walk}
    (h : Collected ext s block tr w) {front : List OpType} {op : ChangePubKey}
    (hat : KeyChangeAt block front op) :
    SignedBy ext signer op.owner op (witnessOf block front) ∨
      s.authFacts op.owner op.nonce = ext.keccak256 (addressBytes op.pubKeyHash) := by
  obtain ⟨w₁, hwitness, hcheck⟩ := h.checked hat
  unfold checkConsent at hcheck
  split at hcheck
  next hsize =>
    left
    obtain ⟨signature, hslice, hcheck⟩ := Outcome.bind_eq_ok.mp hcheck
    obtain ⟨valid, hvalid, hcheck⟩ := Outcome.bind_eq_ok.mp hcheck
    obtain ⟨_, -, hslice⟩ := Outcome.bind_eq_ok.mp hslice
    obtain rfl : valid = true := require_eq_ok.mp hcheck
    obtain rfl : witnessOf block front = signature := hwitness.symm.trans (Except.ok.inj hslice)
    obtain ⟨hlength, message, hmessage, hrecover⟩ := verifyChangePubkeySignature_spec hvalid
    rw [hideal.recover] at hrecover
    refine ⟨hlength, message, hmessage, ?_⟩
    -- Nobody's signature recovers to zero, as does one of the zero address.
    cases hsigner : signer (ext.keccak256 message) ((witnessOf block front).getD 64 0)
      (BitVec.ofNat 256 (ofBytesBE (slice (witnessOf block front) 0 32)))
      (BitVec.ofNat 256 (ofBytesBE (slice (witnessOf block front) 32 32))) with
    | some address =>
      rw [hsigner, Option.getD_some] at hrecover
      rw [hrecover]
    | none =>
      rw [hsigner, Option.getD_none] at hrecover
      have hne : witnessOf block front ≠ [] := List.ne_nil_of_length_pos (by omega)
      obtain ⟨address, -, message', hmessage', hsigned⟩ := hzero front op hat hrecover.symm hne
      obtain rfl : message = message' := Except.ok.inj (hmessage.symm.trans hmessage')
      rw [hsigner] at hsigned
      cases hsigned
  next => exact .inr (require_eq_ok.mp hcheck)

end Checks

/-! ## Runs -/

section Runs

variable {ext : Externals} {signer : Signer}

/-- A call stores the fact for its sender, where there was none, and no other call
touches the facts. -/
theorem authFacts_step {s s' : Storage} {e : Event} (h : CallStep ext s e s') :
    ((∀ hash nonce, e.call ≠ .setAuthPubkeyHash hash nonce) ∧ s'.authFacts = s.authFacts) ∨
      ∃ hash nonce, e.call = .setAuthPubkeyHash hash nonce ∧
        hash.length = PUBKEY_HASH_BYTES ∧ s.authFacts e.msg.sender nonce = 0 ∧
        s'.authFacts = Function.update s.authFacts e.msg.sender
          (Function.update (s.authFacts e.msg.sender) nonce (ext.keccak256 hash)) := by
  obtain ⟨governance, msg, call, receipt⟩ := e
  cases call with
  | setAuthPubkeyHash hash nonce =>
    -- the only call that stores a fact
    obtain ⟨s₁, hset, h⟩ := Outcome.bind_eq_ok.mp h
    cases h
    obtain ⟨hlength, hempty, rfl⟩ := setAuthPubkeyHash_spec hset
    exact .inr ⟨hash, nonce, rfl, hlength, hempty, rfl⟩
  | register call =>
    obtain ⟨⟨s₁, event⟩, hregister, h⟩ := Outcome.bind_eq_ok.mp h
    cases h
    obtain ⟨balances, rfl, -⟩ := (register_spec hregister).storage
    exact .inl ⟨nofun, rfl⟩
  | commitBlock blockNumber feeAccount newBlockInfo block =>
    -- a commit reads the facts, and stores the block
    obtain ⟨s₁, hcommit, h⟩ := Outcome.bind_eq_ok.mp h
    cases h
    obtain ⟨-, -, tr, w, stored, -, -, -, rfl⟩ := commitBlock_spec hcommit
    exact .inl ⟨nofun, rfl⟩
  | verifyBlock blockNumber proof withdrawalsData =>
    obtain ⟨s₁, hverify, h⟩ := Outcome.bind_eq_ok.mp h
    cases h
    obtain ⟨-, -, -, -, -, p, -, rfl⟩ := verifyBlock_spec hverify
    exact .inl ⟨nofun, rfl⟩
  | revertBlocks maxBlocksToRevert =>
    obtain ⟨s₁, hrevert, h⟩ := Outcome.bind_eq_ok.mp h
    cases h
    obtain ⟨-, -, n, r, -, -, rfl⟩ := revertBlocks_spec hrevert
    exact .inl ⟨nofun, rfl⟩
  | triggerExodusIfNeeded =>
    rw [(callStep_triggerExodusIfNeeded h).1, (triggerExodusIfNeeded_spec msg s).1]
    exact .inl ⟨nofun, rfl⟩
  | cancelOutstandingDepositsForExodusMode n =>
    obtain ⟨s₁, hcancel, h⟩ := Outcome.bind_eq_ok.mp h
    cases h
    obtain ⟨-, toProcess, s₁, -, -, rfl⟩ := cancelOutstandingDepositsForExodusMode_spec hcancel
    exact .inl ⟨nofun, rfl⟩
  | exit accountId tokenId amount proof =>
    obtain ⟨s₁, hexit, h⟩ := Outcome.bind_eq_ok.mp h
    cases h
    obtain ⟨balance, exited, -, rfl⟩ := exit_spec hexit
    exact .inl ⟨nofun, rfl⟩
  | completeWithdrawals n sends =>
    rw [(callStep_completeWithdrawals h).1, completeWithdrawals_frame]
    exact .inl ⟨nofun, rfl⟩
  | withdrawETH amount success =>
    obtain ⟨⟨s₁, payments⟩, hwithdraw, h⟩ := Outcome.bind_eq_ok.mp h
    cases h
    obtain ⟨-, rfl⟩ := registerWithdrawal_spec (withdrawETH_spec hwithdraw).1
    exact .inl ⟨nofun, rfl⟩
  | withdrawERC20 token transfer =>
    obtain ⟨⟨s₁, payments⟩, hwithdraw, h⟩ := Outcome.bind_eq_ok.mp h
    cases h
    obtain ⟨tokenId, amount, hregister, -⟩ := withdrawERC20_spec hwithdraw
    obtain ⟨-, rfl⟩ := registerWithdrawal_spec hregister
    exact .inl ⟨nofun, rfl⟩

/-- The facts stored are those of the calls made. -/
structure FactsOf (ext : Externals) (tr : List Event) (s : Storage) : Prop where
  stored : ∀ owner nonce, s.authFacts owner nonce ≠ 0 → ∃ e ∈ tr, ∃ hash,
    e.msg.sender = owner ∧ e.call = .setAuthPubkeyHash hash nonce ∧
      hash.length = PUBKEY_HASH_BYTES ∧ s.authFacts owner nonce = ext.keccak256 hash
  kept : ∀ e ∈ tr, ∀ hash nonce, e.call = .setAuthPubkeyHash hash nonce →
    hash.length = PUBKEY_HASH_BYTES ∧ s.authFacts e.msg.sender nonce = ext.keccak256 hash

theorem factsOf_initialize (ext : Externals) (genesisRoot : Bytes32) :
    FactsOf ext [] (.initialized genesisRoot) where
  stored _ _ h := absurd rfl h
  kept _ he := absurd he List.not_mem_nil

theorem FactsOf.next (hideal : Ideal ext signer) {tr : List Event} {s s' : Storage} {e : Event}
    (h : FactsOf ext tr s) (hstep : CallStep ext s e s') : FactsOf ext (tr ++ [e]) s' := by
  -- either the facts are as they were, or the call has just stored this one
  rcases authFacts_step hstep with ⟨hother, hfacts⟩ | ⟨hash, nonce, hcall, hlength, hempty, hfacts⟩
  · constructor
    · intro owner n hne
      rw [hfacts] at hne ⊢
      obtain ⟨e₀, he₀, hstored⟩ := h.stored owner n hne
      exact ⟨e₀, List.mem_append_left _ he₀, hstored⟩
    · intro e₀ he₀ hash nonce hcall
      rw [hfacts]
      rcases List.mem_append.mp he₀ with he₀ | he₀
      · exact h.kept e₀ he₀ hash nonce hcall
      · rw [List.mem_singleton.mp he₀] at hcall
        exact absurd hcall (hother hash nonce)
  · have hnew : s'.authFacts e.msg.sender nonce = ext.keccak256 hash := by
      rw [hfacts, Function.update_self, Function.update_self]
    have hold : ∀ owner n, s.authFacts owner n ≠ 0 → s'.authFacts owner n = s.authFacts owner n := by
      intro owner n hne
      rw [hfacts]
      by_cases howner : owner = e.msg.sender
      · subst howner
        have hn : n ≠ nonce := fun hn => hne (hn ▸ hempty)
        rw [Function.update_self, Function.update_of_ne hn]
      · rw [Function.update_of_ne howner]
    constructor
    · intro owner n hne
      by_cases hsame : owner = e.msg.sender ∧ n = nonce
      · obtain ⟨rfl, rfl⟩ := hsame
        exact ⟨e, List.mem_append_right _ (List.mem_singleton_self e), hash, rfl, hcall, hlength,
          hnew⟩
      · have hs : s'.authFacts owner n = s.authFacts owner n := by
          rw [hfacts]
          by_cases howner : owner = e.msg.sender
          · subst howner
            rw [Function.update_self, Function.update_of_ne fun hn => hsame ⟨rfl, hn⟩]
          · rw [Function.update_of_ne howner]
        rw [hs] at hne ⊢
        obtain ⟨e₀, he₀, hstored⟩ := h.stored owner n hne
        exact ⟨e₀, List.mem_append_left _ he₀, hstored⟩
    · intro e₀ he₀ hash₀ nonce₀ hcall₀
      rcases List.mem_append.mp he₀ with he₀ | he₀
      · obtain ⟨hlength₀, hfact⟩ := h.kept e₀ he₀ hash₀ nonce₀ hcall₀
        rw [hold _ _ (hfact ▸ hideal.keccak_ne_zero _ hlength₀)]
        exact ⟨hlength₀, hfact⟩
      · obtain rfl := List.mem_singleton.mp he₀
        obtain ⟨rfl, rfl⟩ := Call.setAuthPubkeyHash.inj (hcall.symm.trans hcall₀)
        exact ⟨hlength, hnew⟩

theorem factsOf_run (hideal : Ideal ext signer) {s s' : Storage} {tr before : List Event}
    (hrun : Run (CallStep ext) s tr s') (h : FactsOf ext before s) :
    FactsOf ext (before ++ tr) s' := by
  induction hrun generalizing before with
  | nil => rwa [List.append_nil]
  | cons hstep _ ih =>
    have := ih (h.next hideal hstep)
    rwa [List.append_assoc] at this

/-- The key change has the owner's signature, or the owner has stored its hash before. -/
def Backed (ext : Externals) (signer : Signer) (before : List Event) (block : CommitData)
    (front : List OpType) (op : ChangePubKey) : Prop :=
  SignedBy ext signer op.owner op (witnessOf block front) ∨
    ∃ e ∈ before, e.msg.sender = op.owner ∧
      e.call = .setAuthPubkeyHash (addressBytes op.pubKeyHash) op.nonce

/-- Every key change of every block committed in the run is backed, and every fact
stored in it is still there. -/
structure ConsentKept (ext : Externals) (signer : Signer) (tr : List Event) (s' : Storage) :
    Prop where
  backed : ∀ before e after blockNumber feeAccount newBlockInfo block, tr = before ++ e :: after →
    e.call = .commitBlock blockNumber feeAccount newBlockInfo block →
      ∀ front op, KeyChangeAt block front op → Backed ext signer before block front op
  kept : ∀ e ∈ tr, ∀ hash nonce, e.call = .setAuthPubkeyHash hash nonce →
    s'.authFacts e.msg.sender nonce = ext.keccak256 hash

theorem keyChanges_consent (hideal : Ideal ext signer) {genesisRoot : Bytes32} {tr : List Event}
    {s' : Storage} (hrun : Run (CallStep ext) (.initialized genesisRoot) tr s')
    (hzero : ∀ e ∈ tr, ∀ blockNumber feeAccount newBlockInfo block,
      e.call = .commitBlock blockNumber feeAccount newBlockInfo block →
        ZeroOwnerSigned ext signer block) :
    ConsentKept ext signer tr s' := by
  have hinit := factsOf_initialize ext genesisRoot
  constructor
  · rintro before ⟨governance, msg, call, receipt⟩ after blockNumber feeAccount newBlockInfo block
      rfl rfl front op hat
    obtain ⟨s₁, hbefore, hrest⟩ := hrun.of_append
    have hfacts : FactsOf ext before s₁ := factsOf_run hideal hbefore hinit
    cases hrest with
    | cons hstep _ =>
      obtain ⟨s₂, hcommit, -⟩ := Outcome.bind_eq_ok.mp hstep
      obtain ⟨-, -, walk, w, stored, hcollected, -⟩ := commitBlock_spec hcommit
      have hsigned := hzero _ (List.mem_append_right _ List.mem_cons_self) _ _ _ _ rfl
      refine (checkConsent_spec hideal hsigned hcollected hat).imp_right fun hfact => ?_
      have hkey : (addressBytes op.pubKeyHash).length = PUBKEY_HASH_BYTES := length_addressBytes _
      have hne : s₁.authFacts op.owner op.nonce ≠ 0 := hfact ▸ hideal.keccak_ne_zero _ hkey
      obtain ⟨e, he, hash, hsender, hcall, hlength, hstored⟩ := hfacts.stored _ _ hne
      have hhash := hideal.keccak_inj _ _ hlength hkey (hstored.symm.trans hfact)
      exact ⟨e, he, hsender, hhash ▸ hcall⟩
  · intro e he hash nonce hcall
    exact ((factsOf_run hideal hrun hinit).kept e he hash nonce hcall).2

end Runs

/-! ## A block of one key change -/

section OneKeyChange

/-- The public data of one key change, for account 0 and nonce 0. -/
def keyChangeData (pubKeyHash owner : BitVec 160) : Bytes :=
  OpType.ChangePubKey.code :: (u32Bytes 0 ++ (addressBytes pubKeyHash ++ (addressBytes owner ++
    (u32Bytes 0 ++ List.replicate 5 0))))

variable (pubKeyHash owner : BitVec 160)

theorem length_keyChangeData : (keyChangeData pubKeyHash owner).length = 54 := by
  simp [keyChangeData]

theorem readChangePubKeyPubdata_keyChangeData :
    readChangePubKeyPubdata (keyChangeData pubKeyHash owner) 1 = .ok ⟨0, pubKeyHash, owner, 0⟩ :=
  readChangePubKeyPubdata_eq ⟨[OpType.ChangePubKey.code], [], (List.append_nil _).symm, rfl⟩

theorem opTypesFrom_keyChangeData :
    opTypesFrom (keyChangeData pubKeyHash owner) 0 = [.ChangePubKey] := by
  have hin : 0 < (keyChangeData pubKeyHash owner).length := by
    rw [length_keyChangeData]
    decide
  have hout : ¬0 + OpType.ChangePubKey.bytes < (keyChangeData pubKeyHash owner).length := by
    rw [length_keyChangeData]
    decide
  have hopType : opTypeAt (keyChangeData pubKeyHash owner) 0 = some .ChangePubKey := rfl
  rw [opTypesFrom, if_pos hin, hopType]
  dsimp only
  rw [if_pos (by decide), opTypesFrom, if_neg hout]

theorem keyChangeAt_keyChangeData {ethWitness : Bytes} {sizes : List UInt32} {front : List OpType}
    {op : ChangePubKey} :
    KeyChangeAt ⟨keyChangeData pubKeyHash owner, ethWitness, sizes⟩ front op ↔
      front = [] ∧ op = ⟨0, pubKeyHash, owner, 0⟩ := by
  have hread := readChangePubKeyPubdata_keyChangeData pubKeyHash owner
  have htypes := opTypesFrom_keyChangeData pubKeyHash owner
  constructor
  · rintro ⟨⟨rest, hlayout⟩, hfields⟩
    obtain rfl : front = [] := by
      cases front with
      | nil => rfl
      | cons opType front =>
        rw [htypes] at hlayout
        have := congrArg List.length hlayout
        simp at this
    exact ⟨rfl, Except.ok.inj (hfields.symm.trans hread)⟩
  · rintro ⟨rfl, rfl⟩
    exact ⟨⟨[], htypes⟩, hread⟩

/-- It is committed wherever the consent is there. -/
theorem commitBlock_keyChangeData {ext : Externals} (governance : Governance) (msg : Msg)
    {s : Storage} {ethWitness : Bytes} {size : UInt32} (hactive : s.exodusMode = false)
    (hvalidator : governance.validators msg.sender) (hsupported : isBlockSizeSupported ext 6)
    (hcounters : s.totalCommittedPriorityRequests = s.totalOpenPriorityRequests)
    (hsize : size.toNat = ethWitness.length)
    (hconsent : checkConsent ext s ⟨keyChangeData pubKeyHash owner, ethWitness, [size]⟩
      (Walk.start s) ⟨0, pubKeyHash, owner, 0⟩ size = .ok ()) :
    ∃ s', commitBlock ext governance msg s (s.totalBlocksCommitted + 1) 0 [0]
      ⟨keyChangeData pubKeyHash owner, ethWitness, [size]⟩ = .ok s' ∧
      s'.exodusMode = s.exodusMode ∧ s'.totalBlocksCommitted = s.totalBlocksCommitted + 1 ∧
      s'.totalCommittedPriorityRequests = s'.totalOpenPriorityRequests := by
  have hlen := length_keyChangeData pubKeyHash owner
  have hopType : opTypeAt (keyChangeData pubKeyHash owner) 0 = some .ChangePubKey := rfl
  -- the one operation is visited, and finds the consent that was assumed
  have hvisit : visitOp ext s ⟨keyChangeData pubKeyHash owner, ethWitness, [size]⟩ .ChangePubKey
      (Walk.start s) = .ok (((Walk.start s).nextWitness size).advance CHANGE_PUBKEY_BYTES) := by
    show (require (0 < 1) "fcs13" >>= fun _ =>
      readChangePubKeyPubdata (keyChangeData pubKeyHash owner) 1 >>= fun op =>
        checkConsent ext s _ (Walk.start s) op size >>= fun _ => _) = _
    rw [readChangePubKeyPubdata_keyChangeData]
    show (checkConsent _ _ _ _ _ _ >>= _) = _
    rw [hconsent]
    rfl
  have hcollected : ∃ tr w, Collected ext s ⟨keyChangeData pubKeyHash owner, ethWitness, [size]⟩ tr w ∧
      w.currentPriorityRequestId = s.firstPriorityRequestId + s.totalCommittedPriorityRequests := by
    refine ⟨[(.ChangePubKey, Walk.start s)], _, ⟨.single ⟨?_, rfl, hopType, hvisit⟩, ?_, ?_, rfl⟩, rfl⟩
    · show 0 < (keyChangeData pubKeyHash owner).length
      rw [hlen]
      decide
    · exact hlen.symm
    · show (0 + size.toUInt64).toNat = ethWitness.length
      rw [UInt64.zero_add, UInt32.toNat_toUInt64, hsize]
  obtain ⟨tr, w, hcollected, hrequest⟩ := hcollected
  -- no request was matched, so the counters stay in order
  have hopen : w.currentPriorityRequestId ≤
      s.firstPriorityRequestId + s.totalOpenPriorityRequests := by
    rw [hrequest, hcounters]
    exact UInt64.le_refl _
  have hlength : ethWitness.length < 2 ^ 64 := by
    have := size.toNat_lt
    omega
  obtain ⟨stored, hcommit, -⟩ := commitBlock_of governance msg 0 0 hlength hactive
    hvalidator hcollected hopen (by rw [hlen]; rfl) (by rw [hlen]; exact hsupported)
  refine ⟨_, hcommit, rfl, rfl, ?_⟩
  show w.currentPriorityRequestId - s.firstPriorityRequestId = s.totalOpenPriorityRequests
  rw [hrequest, hcounters, UInt64.add_comm, UInt64.add_sub_cancel]

end OneKeyChange

/-! ## Nobody's signature -/

/-- The hash of a string is its number plus one, and no signature is valid. -/
def hashByNumber : Externals :=
  { Externals.sample with keccak256 := fun bytes => BitVec.ofNat 256 (ofBytesBE bytes + 1) }

def nobody : Signer := fun _ _ _ _ => none

/-- Somebody else signs everything. -/
def signedBySeven : Externals := { hashByNumber with ecrecover := fun _ _ _ _ => 7 }

def seven : Signer := fun _ _ _ _ => some 7

theorem ideal_hashByNumber : Ideal hashByNumber nobody := by
  have hpow : (256 : Nat) ^ PUBKEY_HASH_BYTES + 1 < 2 ^ 256 := by decide
  have hnumber : ∀ a : Bytes, a.length = PUBKEY_HASH_BYTES →
      (hashByNumber.keccak256 a).toNat = ofBytesBE a + 1 := by
    intro a hlength
    have hlt := Bytes.ofBytesBE_lt a
    rw [hlength] at hlt
    exact (BitVec.toNat_ofNat _ _).trans (Nat.mod_eq_of_lt (by omega))
  constructor
  · intro a b ha hb heq
    have hab := congrArg BitVec.toNat heq
    rw [hnumber a ha, hnumber b hb] at hab
    have hle : ofBytesBE a = ofBytesBE b := Nat.succ.inj hab
    rw [← Bytes.toBytesBE_ofBytesBE a, ← Bytes.toBytesBE_ofBytesBE b, ha, hb, hle]
  · intro a ha heq
    have hzero := congrArg BitVec.toNat heq
    rw [hnumber a ha] at hzero
    cases hzero
  · intro hash v r s
    rfl

/-- 65 zero bytes pass for the signature of whom the precompile answers, which is the zero
address where it finds no signature. -/
theorem verifyChangePubkeySignature_zeros {ext : Externals} {owner : Address}
    (hrecover : ∀ hash v r s, ext.ecrecover hash v r s = owner) (pubKeyHash : BitVec 160)
    (nonce accountId : UInt32) :
    verifyChangePubkeySignature ext (List.replicate 65 0) pubKeyHash nonce owner accountId =
      .ok true := by
  obtain ⟨v, signR, signS, hrecovered⟩ := recoverAddressFromEthSignature_eq ext
    (List.length_replicate : (List.replicate 65 (0 : UInt8)).length = 65)
    (ethSignedMessagePrefix 152 ++ Bytes.utf8 (changePubkeyText pubKeyHash nonce accountId))
  unfold verifyChangePubkeySignature
  rw [changePubkeySignedMessage_eq, Outcome.ok_bind, hrecovered, Outcome.ok_bind, hrecover,
    decide_eq_true rfl]
  rfl

/-- So they are consent to any key. -/
theorem checkConsent_zeros (ext : Externals) {owner : Address}
    (hrecover : ∀ hash v r s, ext.ecrecover hash v r s = owner) (pubKeyHash : BitVec 160)
    (s : Storage) :
    checkConsent ext s ⟨keyChangeData pubKeyHash owner, List.replicate 65 0, [65]⟩ (Walk.start s)
      ⟨0, pubKeyHash, owner, 0⟩ 65 = .ok () := by
  have hslice : bytesSlice (List.replicate 65 0) 0 65 = .ok (List.replicate 65 (0 : UInt8)) :=
    bytesSlice_eq (by decide)
  rw [checkConsent, if_pos (by decide)]
  show (bytesSlice (List.replicate 65 0) 0 65 >>= _) = _
  rw [hslice, Outcome.ok_bind, verifyChangePubkeySignature_zeros hrecover]
  rfl

/-- One key change with the auth fact that was stored before, without a signature, and one
to another key with a signature. -/
theorem keyChanges_consent_both : ∃ tr s',
    Run (CallStep signedBySeven) (.initialized 0) tr s' ∧ tr.map Event.call =
      [.setAuthPubkeyHash (addressBytes 5) 0,
        .commitBlock 1 0 [0] ⟨keyChangeData 5 7, [], [0]⟩,
        .commitBlock 2 0 [0] ⟨keyChangeData 6 7, List.replicate 65 0, [65]⟩] ∧
      ConsentKept signedBySeven seven tr s' := by
  have hideal : Ideal signedBySeven seven :=
    ⟨ideal_hashByNumber.keccak_inj, ideal_hashByNumber.keccak_ne_zero, fun _ _ _ _ => rfl⟩
  obtain ⟨s₁, hset, hauth, hs₁⟩ : ∃ s₁,
      setAuthPubkeyHash signedBySeven .sample (.initialized 0) (addressBytes 5) 0 = .ok s₁ ∧
        s₁.authFacts 7 0 = signedBySeven.keccak256 (addressBytes 5) ∧
        s₁ = { Storage.initialized 0 with authFacts := s₁.authFacts } := by
    refine ⟨_, rfl, ?_, rfl⟩
    dsimp only
    rw [show Msg.sample.sender = 7 from rfl, Function.update_self, Function.update_self]
  have hconsent : checkConsent signedBySeven s₁ ⟨keyChangeData 5 7, [], [0]⟩ (Walk.start s₁)
      ⟨0, 5, 7, 0⟩ 0 = .ok () := by
    rw [checkConsent, if_neg (by decide)]
    exact require_of hauth _
  obtain ⟨s₂, hcommit₁, hactive, hnext, hcounters⟩ := commitBlock_keyChangeData 5 7 .sample .sample
    (by rw [hs₁]; rfl) rfl rfl (by rw [hs₁]; rfl) rfl hconsent
  have hcommitted₁ : s₁.totalBlocksCommitted + 1 = 1 := by
    rw [hs₁]
    rfl
  have hcommitted₂ : s₂.totalBlocksCommitted + 1 = 2 := by
    rw [hnext, hcommitted₁]
    rfl
  obtain ⟨s₃, hcommit₂, -⟩ := commitBlock_keyChangeData 6 7 .sample .sample
    (by rw [hactive, hs₁]; rfl) rfl rfl hcounters rfl
    (checkConsent_zeros signedBySeven (fun _ _ _ _ => rfl) 6 s₂)
  rw [hcommitted₁] at hcommit₁
  rw [hcommitted₂] at hcommit₂
  have hrun : Run (CallStep signedBySeven) (.initialized 0)
      [⟨.sample, .sample, .setAuthPubkeyHash (addressBytes 5) 0, {}⟩,
        ⟨.sample, .sample, .commitBlock 1 0 [0] ⟨keyChangeData 5 7, [], [0]⟩, {}⟩,
        ⟨.sample, .sample, .commitBlock 2 0 [0]
          ⟨keyChangeData 6 7, List.replicate 65 0, [65]⟩, {}⟩] s₃ :=
    .cons (Outcome.bind_eq_ok.mpr ⟨s₁, hset, rfl⟩)
      (.cons (Outcome.bind_eq_ok.mpr ⟨s₂, hcommit₁, rfl⟩)
        (.single (Outcome.bind_eq_ok.mpr ⟨s₃, hcommit₂, rfl⟩)))
  refine ⟨_, s₃, hrun, rfl, keyChanges_consent hideal hrun ?_⟩
  -- no key of the zero address is changed
  have hnone : ∀ (pubKeyHash : BitVec 160) (ethWitness : Bytes) (sizes : List UInt32),
      ZeroOwnerSigned signedBySeven seven ⟨keyChangeData pubKeyHash 7, ethWitness, sizes⟩ := by
    intro pubKeyHash ethWitness sizes front op hat hzero
    obtain ⟨-, rfl⟩ := (keyChangeAt_keyChangeData pubKeyHash 7).mp hat
    exact absurd (show (7 : Address) = 0 from hzero) (by decide)
  intro e he blockNumber feeAccount newBlockInfo block hcall
  rcases List.mem_cons.mp he with rfl | he
  · cases hcall
  rcases List.mem_cons.mp he with rfl | he
  · cases hcall
    exact hnone 5 _ _
  · obtain rfl := List.mem_singleton.mp he
    cases hcall
    exact hnone 6 _ _

/-- A block that sets the key of the zero address is committed without any consent. -/
theorem keyChanges_without_consent :
    ¬∀ (ext : Externals) (signer : Signer), Ideal ext signer →
      ∀ (genesisRoot : Bytes32) (tr : List Event) (s' : Storage),
        Run (CallStep ext) (.initialized genesisRoot) tr s' → ConsentKept ext signer tr s' := by
  intro hclaim
  obtain ⟨s', hcommit, -⟩ := commitBlock_keyChangeData 5 0 .sample .sample (s := .initialized 0)
    rfl rfl rfl rfl rfl (checkConsent_zeros hashByNumber (fun _ _ _ _ => rfl) 5 _)
  have hstep : CallStep hashByNumber (.initialized 0) ⟨.sample, .sample, .commitBlock 1 0
      [0] ⟨keyChangeData 5 0, List.replicate 65 0, [65]⟩, {}⟩ s' :=
    Outcome.bind_eq_ok.mpr ⟨s', hcommit, rfl⟩
  have hkept := hclaim _ _ ideal_hashByNumber 0 _ _ (.single hstep)
  rcases hkept.backed [] _ [] _ _ _ _ rfl rfl [] ⟨0, 5, 0, 0⟩
    ((keyChangeAt_keyChangeData 5 0).mpr ⟨rfl, rfl⟩) with ⟨-, message, -, hsigned⟩ | ⟨e, he, -⟩
  · cases hsigned
  · exact absurd he List.not_mem_nil

end ZkSync.Contract
