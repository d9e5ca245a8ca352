import ZkSync.Contract.Effects

/-!
# The counters of the priority queue

Requests get their ids in order, and blocks are matched with them in order: the first
ids belong to verified blocks or have been cancelled (`firstPriorityRequestId` of
them), the next ones to blocks that are committed (`totalCommittedPriorityRequests`),
and `totalOpenPriorityRequests` are left in all. What the requests and the matches
are is not in the storage: a `QueueHistory` records them beside a run.

The counters are unchecked. Within `WithinBounds` they do not wrap, and then nothing
that is subtracted in the contract underflows (`NoUnderflow`).
-/

namespace ZkSync.Contract

/-! ## Loops over ids -/

/-- Writing one value at many keys. -/
theorem foldl_update {κ β : Type} [DecidableEq κ] (keys : List κ) (b : β) (f : κ → β) (k : κ) :
    keys.foldl (fun f i => Function.update f i b) f k = if k ∈ keys then b else f k := by
  induction keys generalizing f with
  | nil => rw [if_neg List.not_mem_nil, List.foldl_nil]
  | cons key keys ih =>
    rw [List.foldl_cons, ih]
    by_cases hmem : k ∈ keys
    · rw [if_pos hmem, if_pos (List.mem_cons_of_mem _ hmem)]
    · rw [if_neg hmem]
      by_cases hkey : k = key
      · rw [hkey, Function.update_self, if_pos List.mem_cons_self]
      · rw [Function.update_of_ne hkey, if_neg fun h => (List.mem_cons.mp h).elim hkey hmem]

/-- The ids from the first on, without the last. -/
theorem mem_idsBetween {start stop id : UInt64} :
    id ∈ idsBetween start stop ↔ start.toNat ≤ id.toNat ∧ id.toNat < stop.toNat := by
  have hstop := stop.toNat_lt
  rw [idsBetween, List.mem_map]
  constructor
  · rintro ⟨n, hn, rfl⟩
    rw [List.mem_range'_1] at hn
    have hsize : n < UInt64.size := Nat.lt_trans (by omega) hstop
    rw [UInt64.toNat_ofNat_of_lt' hsize]
    omega
  · rintro ⟨hle, hlt⟩
    exact ⟨id.toNat, List.mem_range'_1.mpr ⟨hle, by omega⟩, UInt64.ofNat_toNat⟩

/-- They are consecutive. -/
theorem map_toNat_idsBetween (start stop : UInt64) :
    (idsBetween start stop).map UInt64.toNat =
      List.range' start.toNat (stop.toNat - start.toNat) := by
  have hstop := stop.toNat_lt
  rw [idsBetween, List.map_map]
  refine (List.map_congr_left fun n hn => ?_).trans (List.map_id _)
  rw [List.mem_range'_1] at hn
  have hsize : n < UInt64.size := Nat.lt_trans (by omega) hstop
  exact UInt64.toNat_ofNat_of_lt' hsize

theorem mem_indicesBetween {start stop i : UInt32} :
    i ∈ indicesBetween start stop ↔ start.toNat ≤ i.toNat ∧ i.toNat < stop.toNat := by
  have hstop := stop.toNat_lt
  rw [indicesBetween, List.mem_map]
  constructor
  · rintro ⟨n, hn, rfl⟩
    rw [List.mem_range'_1] at hn
    have hsize : n < UInt32.size := Nat.lt_trans (by omega) hstop
    rw [UInt32.toNat_ofNat_of_lt' hsize]
    omega
  · rintro ⟨hle, hlt⟩
    exact ⟨i.toNat, List.mem_range'_1.mpr ⟨hle, by omega⟩, UInt32.ofNat_toNat⟩

theorem nodup_indicesBetween (start stop : UInt32) : (indicesBetween start stop).Nodup := by
  have hstop := stop.toNat_lt
  refine List.Nodup.map_on ?_ List.nodup_range'
  intro a ha b hb heq
  rw [List.mem_range'_1] at ha hb
  have hsize : ∀ n, n < stop.toNat → (UInt32.ofNat n).toNat = n := fun n hn =>
    UInt32.toNat_ofNat_of_lt' (Nat.lt_trans hn hstop)
  rw [← hsize a (by omega), ← hsize b (by omega), heq]

/-- The smaller of two counters. -/
theorem toNat_minU64 (a b : UInt64) : (minU64 a b).toNat = min a.toNat b.toNat := by
  unfold minU64
  split
  next h => exact (Nat.min_eq_left (Nat.le_of_lt (UInt64.lt_iff_toNat_lt.mp h))).symm
  next h => exact (Nat.min_eq_right (Nat.le_of_not_lt (UInt64.lt_iff_toNat_lt.not.mp h))).symm

theorem toNat_minU32 (a b : UInt32) : (minU32 a b).toNat = min a.toNat b.toNat := by
  unfold minU32
  split
  next h => exact (Nat.min_eq_left (Nat.le_of_lt (UInt32.lt_iff_toNat_lt.mp h))).symm
  next h => exact (Nat.min_eq_right (Nat.le_of_not_lt (UInt32.lt_iff_toNat_lt.not.mp h))).symm

/-- The loop over reverted blocks sums up what they say, and deletes them. -/
theorem foldlM_revertBlock {is : List UInt32} (hnodup : is.Nodup)
    {r r' : UInt64 × (UInt32 → StoredBlock)} (hloop : is.foldlM revertBlock r = .ok r')
    (hsum : r.1.toNat + (is.map fun i => (r.2 i).priorityOperations.toNat).sum < 2 ^ 64) :
    r'.1.toNat = r.1.toNat + (is.map fun i => (r.2 i).priorityOperations.toNat).sum ∧
      r'.2 = is.foldl (fun blocks i => Function.update blocks i {}) r.2 := by
  induction is generalizing r with
  | nil =>
    cases hloop
    exact ⟨rfl, rfl⟩
  | cons i is ih =>
    rw [List.foldlM_cons] at hloop
    obtain ⟨r₁, hrevert, hloop⟩ := Outcome.bind_eq_ok.mp hloop
    obtain ⟨_, -, hrevert⟩ := Outcome.bind_eq_ok.mp hrevert
    obtain rfl : (r.1 + (r.2 i).priorityOperations, Function.update r.2 i {}) = r₁ :=
      Except.ok.inj hrevert
    obtain ⟨hi, hnodup⟩ := List.nodup_cons.mp hnodup
    have hrest : (is.map fun j => (Function.update r.2 i {} j).priorityOperations.toNat) =
        is.map fun j => (r.2 j).priorityOperations.toNat := by
      apply List.map_congr_left
      intro j hj
      have hne : j ≠ i := fun hji => hi (hji ▸ hj)
      rw [Function.update_of_ne hne]
    rw [List.map_cons, List.sum_cons] at hsum ⊢
    have hadd : (r.1 + (r.2 i).priorityOperations).toNat =
        r.1.toNat + (r.2 i).priorityOperations.toNat := by
      rw [UInt64.toNat_add]
      exact Nat.mod_eq_of_lt (by omega)
    obtain ⟨hfst, hsnd⟩ := ih hnodup hloop (by
      dsimp only
      rw [hrest, hadd]
      omega)
    dsimp only at hfst hsnd
    rw [hrest, hadd] at hfst
    exact ⟨by omega, hsnd⟩

/-- Cancelling deletes the requests and nothing else of the queue. -/
theorem foldlM_cancelRequest_requests {ids : List UInt64} {s s' : Storage}
    (hloop : ids.foldlM cancelRequest s = .ok s') :
    s'.priorityRequests =
      ids.foldl (fun requests i => Function.update requests i {}) s.priorityRequests := by
  induction ids generalizing s with
  | nil => cases hloop; rfl
  | cons id ids ih =>
    rw [List.foldlM_cons] at hloop
    obtain ⟨s₁, hcancel, hloop⟩ := Outcome.bind_eq_ok.mp hloop
    obtain ⟨s₂, hrefund, hcancel⟩ := Outcome.bind_eq_ok.mp hcancel
    rw [ih hloop, ← Except.ok.inj hcancel, List.foldl_cons]
    unfold refund at hrefund
    split at hrefund
    · obtain ⟨op, -, hrefund⟩ := Outcome.bind_eq_ok.mp hrefund
      cases hrefund
      rfl
    · cases hrefund
      rfl

/-! ## What is recorded -/

/-- The ids the rounds of a walk have compared with operations of the block. -/
def matchedIds (tr : List (OpType × Walk)) : List UInt64 :=
  tr.filterMap fun e =>
    if e.1 = .Deposit ∨ e.1 = .FullExit then some e.2.currentPriorityRequestId else none

/-- The requests made so far, the ids matched by each block that has not been reverted,
and the ids of the requests that have been cancelled. -/
structure QueueHistory where
  requests : List NewPriorityRequest := []
  matched : List (List UInt64) := []
  cancelled : List UInt64 := []

/-- What a call adds to the history: the requests it announces, the ids its walk over a
block compares, the ids its loop cancels. -/
def QueueHistory.Next (ext : Externals) (s : Storage) (h : QueueHistory) (e : Event) (s' : Storage)
    (h' : QueueHistory) : Prop :=
  match e.call with
  | .register _ => h' = { h with requests := h.requests ++ e.receipt.requests }
  | .commitBlock _ _ _ block =>
    ∃ tr w, Collected ext s block tr w ∧ h' = { h with matched := h.matched ++ [matchedIds tr] }
  | .revertBlocks _ =>
    h' = { h with matched := h.matched.take s'.totalBlocksCommitted.toNat }
  | .cancelOutstandingDepositsForExodusMode n => h' = { h with
      cancelled := h.cancelled ++ idsBetween s.firstPriorityRequestId
        (s.firstPriorityRequestId + minU64 s.totalOpenPriorityRequests n) }
  | _ => h' = h

/-- A call, with its record. -/
def QueueStep (ext : Externals) (p : Storage × QueueHistory) (e : Event)
    (p' : Storage × QueueHistory) : Prop :=
  CallStep ext p.1 e p'.1 ∧ p.2.Next ext p.1 e p'.1 p'.2

/-! ## What is claimed -/

/-- How many priority operations the committed blocks have that are not verified. -/
def unverifiedOperations (s : Storage) : Nat :=
  ((List.range' (s.totalBlocksVerified.toNat + 1)
    (s.totalBlocksCommitted.toNat - s.totalBlocksVerified.toNat)).map
      fun n => (s.blocks (UInt32.ofNat n)).priorityOperations.toNat).sum

/-- The open requests are those that were made, and neither executed in a verified block nor
cancelled. -/
structure QueueOk (s : Storage) (h : QueueHistory) : Prop where
  verified_le : s.totalBlocksVerified ≤ s.totalBlocksCommitted
  committed_eq : s.totalCommittedPriorityRequests.toNat = unverifiedOperations s
  committed_le : h.cancelled = [] → s.totalCommittedPriorityRequests ≤ s.totalOpenPriorityRequests
  /-- The requests made have the ids from 0 on. -/
  serials : h.requests.map (·.serialId.toNat) = List.range h.requests.length
  /-- The ids before the first open one are those that verified blocks have matched, and
  behind these the cancelled ones: all of them, in order, and none twice. -/
  served : ((h.matched.take s.totalBlocksVerified.toNat).flatten ++ h.cancelled).map UInt64.toNat =
    List.range s.firstPriorityRequestId.toNat
  /-- Open are the requests that no verified block has matched and that are not cancelled. -/
  open_iff : ∀ i < h.requests.length, s.firstPriorityRequestId.toNat ≤ i ↔
    UInt64.ofNat i ∉ (h.matched.take s.totalBlocksVerified.toNat).flatten ∧
      UInt64.ofNat i ∉ h.cancelled
  open_eq : s.firstPriorityRequestId.toNat + s.totalOpenPriorityRequests.toNat = h.requests.length
  open_stored : ∀ i (hi : i < h.requests.length), s.firstPriorityRequestId.toNat ≤ i →
    s.priorityRequests (UInt64.ofNat i) =
      ⟨h.requests[i].opType, h.requests[i].pubData, h.requests[i].expirationBlock⟩
  none_beyond : ∀ id : UInt64, h.requests.length ≤ id.toNat → s.priorityRequests id = {}
  /-- A surviving block has matched as many requests as it says. -/
  blocks : h.matched.length = s.totalBlocksCommitted.toNat ∧
    ∀ i (hi : i < h.matched.length),
      (s.blocks (UInt32.ofNat (i + 1))).priorityOperations.toNat = h.matched[i].length
  /-- In order over all surviving blocks, and none twice. -/
  matched : h.matched.flatten.Pairwise (· < ·) ∧
    ∀ id ∈ h.matched.flatten, id.toNat < h.requests.length
  /-- And none left out. -/
  matched_range : h.matched.flatten.map UInt64.toNat = List.range h.matched.flatten.length

/-- What is subtracted in a call that does not revert is not more than it is subtracted
from. -/
def NoUnderflow (ext : Externals) (s : Storage) : Call → Prop
  | .commitBlock blockNumber _ _ block => 1 ≤ blockNumber ∧ ∀ tr w, Collected ext s block tr w →
      s.firstPriorityRequestId ≤ w.currentPriorityRequestId ∧
        s.totalCommittedPriorityRequests ≤ w.currentPriorityRequestId - s.firstPriorityRequestId
  | .verifyBlock blockNumber _ _ =>
    (s.blocks blockNumber).priorityOperations ≤ s.totalOpenPriorityRequests ∧
      (s.blocks blockNumber).priorityOperations ≤ s.totalCommittedPriorityRequests
  | .revertBlocks maxBlocksToRevert =>
    let blocksToRevert := minU32 maxBlocksToRevert (s.totalBlocksCommitted - s.totalBlocksVerified)
    s.totalBlocksVerified ≤ s.totalBlocksCommitted ∧ blocksToRevert ≤ s.totalBlocksCommitted ∧
      ∀ r, (indicesBetween (s.totalBlocksCommitted - blocksToRevert + 1)
          (s.totalBlocksCommitted + 1)).foldlM revertBlock (0, s.blocks) = .ok r →
        r.1 ≤ s.totalCommittedPriorityRequests
  | .cancelOutstandingDepositsForExodusMode n =>
    minU64 s.totalOpenPriorityRequests n ≤ s.totalOpenPriorityRequests
  | _ => True

/-- The ids and the block numbers of the call are in the range of their types. -/
def WithinBounds (s : Storage) : Call → Prop
  | .register _ =>
    s.firstPriorityRequestId.toNat + s.totalOpenPriorityRequests.toNat + 1 < 2 ^ 64
  | .commitBlock _ _ _ _ => s.totalBlocksCommitted.toNat + 1 < 2 ^ 32
  | _ => True

/-! ## The invariant -/

/-- What holds between two calls. The matched ids are all ids from 0 on, up to the
last one that has been committed. -/
structure QueueInv (s : Storage) (h : QueueHistory) : Prop where
  serials : h.requests.map (·.serialId.toNat) = List.range h.requests.length
  total : s.firstPriorityRequestId.toNat + s.totalOpenPriorityRequests.toNat = h.requests.length
  small : h.requests.length < 2 ^ 64
  stored : ∀ i (hi : i < h.requests.length), s.firstPriorityRequestId.toNat ≤ i →
    s.priorityRequests (UInt64.ofNat i) =
      ⟨h.requests[i].opType, h.requests[i].pubData, h.requests[i].expirationBlock⟩
  fresh : ∀ id : UInt64, h.requests.length ≤ id.toNat → s.priorityRequests id = {}
  length : h.matched.length = s.totalBlocksCommitted.toNat
  blocks : ∀ i (hi : i < h.matched.length),
    (s.blocks (UInt32.ofNat (i + 1))).priorityOperations.toNat = h.matched[i].length
  rest : ∀ n : UInt32, n = 0 ∨ s.totalBlocksCommitted < n → (s.blocks n).chunks = 0
  matched : h.matched.flatten.map UInt64.toNat = List.range h.matched.flatten.length
  bound : h.matched.flatten.length ≤ h.requests.length
  verified : s.totalBlocksVerified.toNat ≤ s.totalBlocksCommitted.toNat
  served : ((h.matched.take s.totalBlocksVerified.toNat).flatten ++ h.cancelled).map UInt64.toNat =
    List.range s.firstPriorityRequestId.toNat
  committed : s.totalCommittedPriorityRequests.toNat =
    (h.matched.drop s.totalBlocksVerified.toNat).flatten.length
  active : s.exodusMode = false → h.cancelled = []

namespace QueueInv

variable {ext : Externals} {s s' : Storage} {h h' : QueueHistory}

/-- Matched are the requests of verified blocks and those of committed ones. -/
theorem matched_length (h : QueueHistory) (n : Nat) :
    h.matched.flatten.length =
      (h.matched.take n).flatten.length + (h.matched.drop n).flatten.length := by
  rw [← List.length_append, ← List.flatten_append, List.take_append_drop]

/-- The first ids of the matched ones, up to a block. -/
theorem map_take (hinv : QueueInv s h) (n : Nat) :
    (h.matched.take n).flatten.map UInt64.toNat = List.range (h.matched.take n).flatten.length := by
  have hlength := matched_length h n
  have htake : (h.matched.take n).flatten =
      h.matched.flatten.take (h.matched.take n).flatten.length := by
    conv_rhs => rw [← List.take_append_drop n h.matched, List.flatten_append]
    rw [List.take_append_drop, List.take_left]
  rw [htake, List.map_take, hinv.matched, List.length_take, List.take_range]

/-- So many ids have been given up, matched by verified blocks or cancelled. -/
theorem first (hinv : QueueInv s h) : s.firstPriorityRequestId.toNat =
    (h.matched.take s.totalBlocksVerified.toNat).flatten.length + h.cancelled.length := by
  have hlength := congrArg List.length hinv.served
  rwa [List.length_map, List.length_append, List.length_range, eq_comm] at hlength

/-- As long as nothing can be cancelled, these are the requests of the verified blocks. -/
theorem first_active (hinv : QueueInv s h) (hactive : s.exodusMode = false) :
    s.firstPriorityRequestId.toNat =
      (h.matched.take s.totalBlocksVerified.toNat).flatten.length := by
  rw [hinv.first, hinv.active hactive, List.length_nil, Nat.add_zero]

/-- At the start nobody has asked for anything. -/
theorem start (genesisRoot : Bytes32) : QueueInv (.initialized genesisRoot) {} where
  serials := rfl
  total := rfl
  small := by decide
  stored _ hi := absurd hi (Nat.not_lt_zero _)
  fresh _ _ := rfl
  length := rfl
  blocks _ hi := absurd hi (Nat.not_lt_zero _)
  rest n _ := by
    show (Function.update (fun _ => ({} : StoredBlock)) 0 { stateRoot := genesisRoot } n).chunks = 0
    by_cases hn : n = 0
    · rw [hn, Function.update_self]
    · rw [Function.update_of_ne hn]
  matched := rfl
  bound := Nat.le_refl _
  verified := Nat.le_refl _
  served := rfl
  committed := rfl
  active _ := rfl

/-- The rest of the storage does not matter. -/
theorem frame (hinv : QueueInv s h) (hs : s' = { s with
    balancesToWithdraw := s'.balancesToWithdraw
    pendingWithdrawals := s'.pendingWithdrawals
    firstPendingWithdrawalIndex := s'.firstPendingWithdrawalIndex
    numberOfPendingWithdrawals := s'.numberOfPendingWithdrawals
    exited := s'.exited
    authFacts := s'.authFacts }) : QueueInv s' h := by
  rw [hs]
  exact ⟨hinv.serials, hinv.total, hinv.small, hinv.stored, hinv.fresh, hinv.length, hinv.blocks, hinv.rest,
    hinv.matched, hinv.bound, hinv.verified, hinv.served, hinv.committed, hinv.active⟩

/-- A new request goes behind all others. -/
theorem register (hinv : QueueInv s h) {msg : Msg} {request : ZkSyncPriorityOp}
    {event : NewPriorityRequest} (hregister : Registered msg request s s' event)
    (hbound : s.firstPriorityRequestId.toNat + s.totalOpenPriorityRequests.toNat + 1 < 2 ^ 64) :
    QueueInv s' { h with requests := h.requests ++ [event] } := by
  obtain ⟨balances, rfl, -⟩ := hregister.storage
  have htotal := hinv.total
  -- the serial id is the number of requests before, since nobody deletes from the history
  have hserial : event.serialId.toNat = h.requests.length := by
    rw [hregister.serialId, UInt64.toNat_add, htotal]
    exact Nat.mod_eq_of_lt (by omega)
  have hopen : (s.totalOpenPriorityRequests + 1).toNat = s.totalOpenPriorityRequests.toNat + 1 := by
    rw [UInt64.toNat_add]
    exact Nat.mod_eq_of_lt (show s.totalOpenPriorityRequests.toNat + 1 < 2 ^ 64 by omega)
  have hlength : (h.requests ++ [event]).length = h.requests.length + 1 := List.length_append
  refine ⟨?_, ?_, ?_, ?_, ?_, hinv.length, hinv.blocks, hinv.rest, hinv.matched, ?_,
    hinv.verified, hinv.served, hinv.committed, hinv.active⟩
  · rw [List.map_append, hinv.serials, List.map_singleton, hserial, hlength, List.range_succ]
  · show s.firstPriorityRequestId.toNat + (s.totalOpenPriorityRequests + 1).toNat = _
    rw [hopen, hlength]
    omega
  · rw [hlength]
    omega
  · intro i hi hfirst
    show Function.update _ _ _ _ = _
    rcases Nat.lt_or_ge i h.requests.length with hlt | hge
    · have hne : UInt64.ofNat i ≠ event.serialId := by
        intro heq
        have hi := congrArg UInt64.toNat heq
        rw [hserial, UInt64.toNat_ofNat_of_lt' (show i < 2 ^ 64 by omega)] at hi
        omega
      rw [Function.update_of_ne hne, hinv.stored i hlt hfirst]
      simp only [List.getElem_append_left hlt]
    · have hi : i < (h.requests ++ [event]).length := hi
      obtain rfl : i = h.requests.length := by omega
      rw [show UInt64.ofNat h.requests.length = event.serialId by
        rw [← hserial, UInt64.ofNat_toNat], Function.update_self]
      simp only [List.getElem_concat_length]
  · intro id hid
    rw [hlength] at hid
    have hne : id ≠ event.serialId := by
      rintro rfl
      omega
    show Function.update _ _ _ _ = _
    rw [Function.update_of_ne hne, hinv.fresh id (by omega)]
  · rw [hlength]
    exact Nat.le_succ_of_le hinv.bound

/-- The rounds of a walk have compared a request each, one after the other, and none
that has not been made. -/
theorem walk (hinv : QueueInv s h) {block : CommitData} {tr : List (OpType × Walk)} {w w' : Walk}
    (hrun : Run (VisitStep ext s block) w tr w')
    (hw : w.currentPriorityRequestId.toNat ≤ h.requests.length) :
    (matchedIds tr).map UInt64.toNat =
        List.range' w.currentPriorityRequestId.toNat (matchedIds tr).length ∧
      w'.currentPriorityRequestId.toNat =
        w.currentPriorityRequestId.toNat + (matchedIds tr).length ∧
      w'.currentPriorityRequestId.toNat ≤ h.requests.length := by
  induction hrun with
  | nil => exact ⟨rfl, rfl, hw⟩
  | @cons w w₁ w' e tr hstep _ ih =>
    obtain ⟨-, hbefore, -, hop⟩ := hstep
    have hrequest := visitOp_request hop
    split at hrequest
    next hpriority =>
      obtain ⟨hstored, hnext⟩ := hrequest
      -- A slot beyond the requests is empty, and an empty slot matches nothing.
      have hlt : w.currentPriorityRequestId.toNat < h.requests.length := by
        by_contra hge
        rw [hinv.fresh _ (Nat.le_of_not_lt hge)] at hstored
        rw [← hstored] at hpriority
        rcases hpriority with hnoop | hnoop <;> cases hnoop
      have hsmall := hinv.small
      have hnext' : w₁.currentPriorityRequestId.toNat = w.currentPriorityRequestId.toNat + 1 := by
        rw [hnext, UInt64.toNat_add]
        exact Nat.mod_eq_of_lt (show w.currentPriorityRequestId.toNat + 1 < 2 ^ 64 by omega)
      obtain ⟨hids, hend, hle⟩ := ih (by omega)
      have hcons : matchedIds (e :: tr) = w.currentPriorityRequestId :: matchedIds tr := by
        rw [matchedIds, List.filterMap_cons, if_pos hpriority, hbefore]
        rfl
      rw [hcons, List.map_cons, hids, List.length_cons, List.range'_succ, hnext']
      refine ⟨rfl, ?_, hle⟩
      rw [hend, hnext']
      omega
    next hother =>
      rw [← hrequest]
      have hcons : matchedIds (e :: tr) = matchedIds tr := by
        rw [matchedIds, List.filterMap_cons, if_neg hother]
        rfl
      rw [hcons]
      exact ih (hrequest ▸ hw)

/-- What the walk over a block that is accepted has matched: the next requests. -/
theorem collected (hinv : QueueInv s h) (hactive : s.exodusMode = false) {block : CommitData}
    {tr : List (OpType × Walk)} {w : Walk} (hcollected : Collected ext s block tr w) :
    (matchedIds tr).map UInt64.toNat =
        List.range' h.matched.flatten.length (matchedIds tr).length ∧
      h.matched.flatten.length + (matchedIds tr).length ≤ h.requests.length ∧
      s.firstPriorityRequestId ≤ w.currentPriorityRequestId ∧
      (w.currentPriorityRequestId - s.firstPriorityRequestId).toNat =
        s.totalCommittedPriorityRequests.toNat + (matchedIds tr).length := by
  have hsplit := matched_length h s.totalBlocksVerified.toNat
  have hfirst := hinv.first_active hactive
  have hcommitted := hinv.committed
  have hbound := hinv.bound
  have hsmall := hinv.small
  have hstart : (Walk.start s).currentPriorityRequestId.toNat = h.matched.flatten.length := by
    show (s.firstPriorityRequestId + s.totalCommittedPriorityRequests).toNat = _
    rw [UInt64.toNat_add, hsplit, hfirst, hcommitted]
    exact Nat.mod_eq_of_lt (by omega)
  obtain ⟨hids, hend, hle⟩ := hinv.walk hcollected.run (hstart ▸ hbound)
  rw [hstart] at hids hend
  have hge : s.firstPriorityRequestId ≤ w.currentPriorityRequestId :=
    UInt64.le_iff_toNat_le.mpr (by omega)
  refine ⟨hids, by omega, hge, ?_⟩
  rw [UInt64.toNat_sub_of_le _ _ hge]
  omega

/-- The requests of the next block are those behind the matched ones. -/
theorem matched_append {ids : List UInt64}
    (hmatched : h.matched.flatten.map UInt64.toNat = List.range h.matched.flatten.length)
    (hids : ids.map UInt64.toNat = List.range' h.matched.flatten.length ids.length) :
    (h.matched ++ [ids]).flatten.map UInt64.toNat =
      List.range (h.matched ++ [ids]).flatten.length := by
  have happend : List.range' 0 h.matched.flatten.length ++
      List.range' (0 + h.matched.flatten.length) ids.length =
        List.range' 0 (h.matched.flatten.length + ids.length) := List.range'_append_1
  rw [Nat.zero_add] at happend
  rw [List.flatten_append, List.flatten_singleton, List.map_append, hmatched, hids,
    List.length_append, List.range_eq_range', List.range_eq_range', happend]

/-- A block is committed behind all others, with the ids it has matched. -/
theorem commit (hinv : QueueInv s h) (hactive : s.exodusMode = false)
    (hbound : s.totalBlocksCommitted.toNat + 1 < 2 ^ 32) {block : CommitData}
    {tr : List (OpType × Walk)} {w : Walk} {stored : StoredBlock}
    (hcollected : Collected ext s block tr w)
    (hoperations : stored.priorityOperations = w.currentPriorityRequestId -
      s.firstPriorityRequestId - s.totalCommittedPriorityRequests)
    (hs : s' = { s with
      totalCommittedPriorityRequests := w.currentPriorityRequestId - s.firstPriorityRequestId
      blocks := Function.update s.blocks (s.totalBlocksCommitted + 1) stored
      totalBlocksCommitted := s.totalBlocksCommitted + 1 }) :
    QueueInv s' { h with matched := h.matched ++ [matchedIds tr] } := by
  subst hs
  obtain ⟨hids, hle, -, hcounted⟩ := hinv.collected hactive hcollected
  -- the committed blocks have matched the first ids, and the new one matches those behind them
  have hlength := hinv.length
  have hverified := hinv.verified
  have hnumber : (s.totalBlocksCommitted + 1).toNat = s.totalBlocksCommitted.toNat + 1 := by
    rw [UInt32.toNat_add]
    exact Nat.mod_eq_of_lt hbound
  have hstored : stored.priorityOperations.toNat = (matchedIds tr).length := by
    have hge : s.totalCommittedPriorityRequests ≤
        w.currentPriorityRequestId - s.firstPriorityRequestId :=
      UInt64.le_iff_toNat_le.mpr (by omega)
    rw [hoperations, UInt64.toNat_sub_of_le _ _ hge]
    omega
  have hmatched : (h.matched ++ [matchedIds tr]).length = h.matched.length + 1 :=
    List.length_append
  have hverified' : s.totalBlocksVerified.toNat ≤ h.matched.length := hlength ▸ hverified
  refine ⟨hinv.serials, hinv.total, hinv.small, hinv.stored, hinv.fresh, ?_, ?_, ?_,
    matched_append hinv.matched hids, ?_, ?_, ?_, ?_, hinv.active⟩
  · rw [hmatched, hnumber, hlength]
  -- for a stored block: the new one, or one of those before
  · intro i hi
    show (Function.update s.blocks _ stored _).priorityOperations.toNat = _
    rcases Nat.lt_or_ge i h.matched.length with hlt | hge
    · have hne : UInt32.ofNat (i + 1) ≠ s.totalBlocksCommitted + 1 := by
        intro heq
        have hi := congrArg UInt32.toNat heq
        rw [hnumber, UInt32.toNat_ofNat_of_lt' (show i + 1 < 2 ^ 32 by omega)] at hi
        omega
      rw [Function.update_of_ne hne, hinv.blocks i hlt]
      simp only [List.getElem_append_left hlt]
    · have hi : i < (h.matched ++ [matchedIds tr]).length := hi
      obtain rfl : i = h.matched.length := by omega
      have heq : UInt32.ofNat (h.matched.length + 1) = s.totalBlocksCommitted + 1 := by
        rw [hlength, ← hnumber, UInt32.ofNat_toNat]
      rw [heq, Function.update_self, hstored]
      simp only [List.getElem_concat_length]
  · intro n hn
    have hn' : n = 0 ∨ s.totalBlocksCommitted.toNat + 1 < n.toNat :=
      hn.imp_right fun hlt => hnumber ▸ UInt32.lt_iff_toNat_lt.mp hlt
    have hne : n ≠ s.totalBlocksCommitted + 1 := by
      intro heq
      have hn := congrArg UInt32.toNat heq
      rw [hnumber] at hn
      rcases hn' with rfl | hlt
      · cases hn
      · omega
    show (Function.update s.blocks _ stored _).chunks = 0
    rw [Function.update_of_ne hne]
    exact hinv.rest n (hn'.imp_right fun hlt => UInt32.lt_iff_toNat_lt.mpr (by omega))
  · rw [List.flatten_append, List.flatten_singleton, List.length_append]
    exact hle
  · show s.totalBlocksVerified.toNat ≤ (s.totalBlocksCommitted + 1).toNat
    omega
  · dsimp only
    rw [List.take_append_of_le_length hverified']
    exact hinv.served
  · show (w.currentPriorityRequestId - s.firstPriorityRequestId).toNat = _
    rw [List.drop_append_of_le_length hverified', List.flatten_append, List.flatten_singleton,
      List.length_append, hcounted, hinv.committed]

/-- Only a committed block can be verified, as any other has no chunks. -/
theorem verified_lt (hinv : QueueInv s h)
    (hsupported : isBlockSizeSupported ext (s.blocks (s.totalBlocksVerified + 1)).chunks) :
    s.totalBlocksVerified.toNat + 1 ≤ s.totalBlocksCommitted.toNat ∧
      (s.totalBlocksVerified + 1).toNat = s.totalBlocksVerified.toNat + 1 := by
  have hcommitted := s.totalBlocksCommitted.toNat_lt
  have hnot : ¬(s.totalBlocksVerified + 1 = 0 ∨
      s.totalBlocksCommitted < s.totalBlocksVerified + 1) := by
    intro hrest
    rw [hinv.rest _ hrest] at hsupported
    exact ext.blockSizes_pos (List.contains_iff_mem.mp hsupported)
  rcases Nat.lt_or_ge (s.totalBlocksVerified.toNat + 1) (2 ^ 32) with hlt | hge
  · have hnumber : (s.totalBlocksVerified + 1).toNat = s.totalBlocksVerified.toNat + 1 := by
      rw [UInt32.toNat_add]
      exact Nat.mod_eq_of_lt hlt
    have hle : ¬s.totalBlocksCommitted.toNat < (s.totalBlocksVerified + 1).toNat :=
      fun h => hnot (.inr (UInt32.lt_iff_toNat_lt.mpr h))
    omega
  · have hverified := s.totalBlocksVerified.toNat_lt
    have hzero : s.totalBlocksVerified + 1 = 0 := by
      apply UInt32.toNat_inj.mp
      rw [UInt32.toNat_add, show (1 : UInt32).toNat = 1 from rfl,
        show s.totalBlocksVerified.toNat + 1 = 2 ^ 32 by omega]
      rfl
    exact absurd (.inl hzero) hnot

/-- The next block to verify has matched the first of the committed requests. -/
theorem next_block (hinv : QueueInv s h)
    (hsupported : isBlockSizeSupported ext (s.blocks (s.totalBlocksVerified + 1)).chunks) :
    (h.matched.take (s.totalBlocksVerified.toNat + 1)).flatten.length =
        (h.matched.take s.totalBlocksVerified.toNat).flatten.length +
          (s.blocks (s.totalBlocksVerified + 1)).priorityOperations.toNat ∧
      (h.matched.drop s.totalBlocksVerified.toNat).flatten.length =
        (s.blocks (s.totalBlocksVerified + 1)).priorityOperations.toNat +
          (h.matched.drop (s.totalBlocksVerified.toNat + 1)).flatten.length := by
  obtain ⟨hle, hnumber⟩ := hinv.verified_lt hsupported
  have hlt : s.totalBlocksVerified.toNat < h.matched.length := hinv.length ▸ hle
  have hblock := hinv.blocks _ hlt
  rw [← hnumber, UInt32.ofNat_toNat] at hblock
  rw [List.take_succ_eq_append_getElem hlt, List.drop_eq_getElem_cons hlt, List.flatten_append,
    List.flatten_singleton, List.length_append, List.flatten_cons, List.length_append, hblock]
  exact ⟨rfl, rfl⟩

/-- A range of requests at the front is given up: whatever is cleared in it, the
requests behind it and the slots beyond them are as before. -/
theorem cleared (hinv : QueueInv s h) {first stop : UInt64} {requests : UInt64 → PriorityOperation}
    (hrequests : ∀ id, requests id =
      if id ∈ idsBetween s.firstPriorityRequestId stop then {} else s.priorityRequests id)
    (hstop : stop.toNat ≤ first.toNat) (hfirst : s.firstPriorityRequestId.toNat ≤ first.toNat) :
    (∀ i (hi : i < h.requests.length), first.toNat ≤ i → requests (UInt64.ofNat i) =
      ⟨h.requests[i].opType, h.requests[i].pubData, h.requests[i].expirationBlock⟩) ∧
    ∀ id : UInt64, h.requests.length ≤ id.toNat → requests id = {} := by
  constructor
  · intro i hi hle
    have hsmall := hinv.small
    have htoNat : (UInt64.ofNat i).toNat = i :=
      UInt64.toNat_ofNat_of_lt' (show i < 2 ^ 64 by omega)
    have hout : UInt64.ofNat i ∉ idsBetween s.firstPriorityRequestId stop := by
      rw [mem_idsBetween, htoNat]
      omega
    rw [hrequests, if_neg hout, hinv.stored i hi (by omega)]
  · intro id hid
    rw [hrequests, hinv.fresh id hid]
    exact ite_self _

/-- Verifying a block deletes its requests. -/
theorem verify (hinv : QueueInv s h) (hactive : s.exodusMode = false)
    (hsupported : isBlockSizeSupported ext (s.blocks (s.totalBlocksVerified + 1)).chunks)
    (hopen : (s.blocks (s.totalBlocksVerified + 1)).priorityOperations ≤
      s.totalOpenPriorityRequests)
    (hs : s' = { s with
      balancesToWithdraw := s'.balancesToWithdraw
      pendingWithdrawals := s'.pendingWithdrawals
      numberOfPendingWithdrawals := s'.numberOfPendingWithdrawals
      priorityRequests := (idsBetween s.firstPriorityRequestId (s.firstPriorityRequestId +
          minU64 (s.blocks (s.totalBlocksVerified + 1)).priorityOperations
            MAX_PRIORITY_REQUESTS_TO_DELETE_IN_VERIFY)).foldl
        (fun requests i => Function.update requests i {}) s.priorityRequests
      totalOpenPriorityRequests := s.totalOpenPriorityRequests -
        (s.blocks (s.totalBlocksVerified + 1)).priorityOperations
      firstPriorityRequestId := s.firstPriorityRequestId +
        (s.blocks (s.totalBlocksVerified + 1)).priorityOperations
      totalCommittedPriorityRequests := s.totalCommittedPriorityRequests -
        (s.blocks (s.totalBlocksVerified + 1)).priorityOperations
      totalBlocksVerified := s.totalBlocksVerified + 1 }) : QueueInv s' h := by
  obtain ⟨hle, hnumber⟩ := hinv.verified_lt hsupported
  obtain ⟨htake, hdrop⟩ := hinv.next_block hsupported
  have htotal := hinv.total
  have hsmall := hinv.small
  have hcommitted := hinv.committed
  have hopen' := UInt64.le_iff_toNat_le.mp hopen
  generalize hn : (s.blocks (s.totalBlocksVerified + 1)).priorityOperations = n at *
  -- the ids do not wrap: there were fewer requests than 2^64
  have hfirst : (s.firstPriorityRequestId + n).toNat = s.firstPriorityRequestId.toNat + n.toNat := by
    rw [UInt64.toNat_add]
    exact Nat.mod_eq_of_lt (by omega)
  have hmin := toNat_minU64 n MAX_PRIORITY_REQUESTS_TO_DELETE_IN_VERIFY
  have hstop : (s.firstPriorityRequestId +
      minU64 n MAX_PRIORITY_REQUESTS_TO_DELETE_IN_VERIFY).toNat ≤
        (s.firstPriorityRequestId + n).toNat := by
    rw [hfirst, UInt64.toNat_add, hmin]
    refine Nat.le_trans (Nat.mod_le _ _) (Nat.add_le_add_left (Nat.min_le_left _ _) _)
  obtain ⟨hstored, hfresh⟩ := hinv.cleared (fun id => foldl_update _ _ _ id) hstop (by omega)
  rw [hs]
  refine ⟨hinv.serials, ?_, hsmall, hstored, hfresh, hinv.length, hinv.blocks, hinv.rest,
    hinv.matched, hinv.bound, ?_, ?_, ?_, hinv.active⟩
  · show (s.firstPriorityRequestId + n).toNat + (s.totalOpenPriorityRequests - n).toNat = _
    rw [hfirst, UInt64.toNat_sub_of_le _ _ hopen]
    omega
  · exact hnumber.trans_le hle
  · dsimp only
    rw [hinv.active hactive, List.append_nil, hinv.map_take, hnumber, htake, hfirst,
      hinv.first_active hactive]
  · have hge : n ≤ s.totalCommittedPriorityRequests := UInt64.le_iff_toNat_le.mpr (by omega)
    show (s.totalCommittedPriorityRequests - n).toNat = _
    rw [UInt64.toNat_sub_of_le _ _ hge, hnumber]
    omega

/-- The operations of the committed blocks from one on. -/
theorem operations_from (hinv : QueueInv s h) {a : Nat} (ha : a ≤ h.matched.length) :
    (List.range' (a + 1) (h.matched.length - a)).map
        (fun n => (s.blocks (UInt32.ofNat n)).priorityOperations.toNat) =
      (h.matched.drop a).map List.length := by
  apply List.ext_getElem
  · rw [List.length_map, List.length_range', List.length_map, List.length_drop]
  · intro i hi _
    rw [List.length_map, List.length_range'] at hi
    have hlt : a + i < h.matched.length := by omega
    rw [List.getElem_map, List.getElem_range', List.getElem_map, List.getElem_drop,
      ← hinv.blocks _ hlt]
    congr 4
    omega

/-- What the loop of `revertBlocks` comes to: the requests of the last blocks. -/
theorem reverted (hinv : QueueInv s h) (hends : s.totalBlocksCommitted ≠ 2 ^ 32 - 1) {n : UInt32}
    (hn : n.toNat ≤ s.totalBlocksCommitted.toNat - s.totalBlocksVerified.toNat)
    {r : UInt64 × (UInt32 → StoredBlock)}
    (hloop : (indicesBetween (s.totalBlocksCommitted - n + 1) (s.totalBlocksCommitted + 1)).foldlM
      revertBlock (0, s.blocks) = .ok r) :
    (s.totalBlocksCommitted - n).toNat = s.totalBlocksCommitted.toNat - n.toNat ∧
      r.1.toNat = (h.matched.drop (s.totalBlocksCommitted.toNat - n.toNat)).flatten.length ∧
      ∀ i, r.2 i = if s.totalBlocksCommitted.toNat - n.toNat < i.toNat ∧
        i.toNat ≤ s.totalBlocksCommitted.toNat then {} else s.blocks i := by
  have hcommitted := s.totalBlocksCommitted.toNat_lt
  have hne : s.totalBlocksCommitted.toNat ≠ 2 ^ 32 - 1 := fun heq =>
    hends (UInt32.toNat_inj.mp heq)
  have hone : (1 : UInt32).toNat = 1 := rfl
  have hsub : (s.totalBlocksCommitted - n).toNat = s.totalBlocksCommitted.toNat - n.toNat :=
    UInt32.toNat_sub_of_le _ _ (UInt32.le_iff_toNat_le.mpr (by omega))
  have hstart : (s.totalBlocksCommitted - n + 1).toNat =
      s.totalBlocksCommitted.toNat - n.toNat + 1 := by
    rw [UInt32.toNat_add, hsub, hone]
    exact Nat.mod_eq_of_lt (by omega)
  have hstop : (s.totalBlocksCommitted + 1).toNat = s.totalBlocksCommitted.toNat + 1 := by
    rw [UInt32.toNat_add, hone]
    exact Nat.mod_eq_of_lt (by omega)
  -- the reverted blocks are the last ones
  have hlist : indicesBetween (s.totalBlocksCommitted - n + 1) (s.totalBlocksCommitted + 1) =
      (List.range' (s.totalBlocksCommitted.toNat - n.toNat + 1)
        (h.matched.length - (s.totalBlocksCommitted.toNat - n.toNat))).map UInt32.ofNat := by
    rw [indicesBetween, hstart, hstop, hinv.length, Nat.add_sub_add_right]
  have hoperations := hinv.operations_from
    (show s.totalBlocksCommitted.toNat - n.toNat ≤ h.matched.length by
      rw [hinv.length]
      exact Nat.sub_le _ _)
  have hsum : ((indicesBetween (s.totalBlocksCommitted - n + 1) (s.totalBlocksCommitted + 1)).map
      fun i => (s.blocks i).priorityOperations.toNat).sum =
        (h.matched.drop (s.totalBlocksCommitted.toNat - n.toNat)).flatten.length := by
    rw [hlist, List.map_map, List.length_flatten, ← hoperations]
    rfl
  have hsplit := matched_length h (s.totalBlocksCommitted.toNat - n.toNat)
  have hbound := hinv.bound
  have hsmall := hinv.small
  obtain ⟨hfst, hsnd⟩ := foldlM_revertBlock (nodup_indicesBetween _ _) hloop (by
    show (0 : UInt64).toNat + _ < _
    rw [hsum, UInt64.toNat_zero]
    omega)
  refine ⟨hsub, ?_, ?_⟩
  · rw [hfst]
    show (0 : UInt64).toNat + _ = _
    rw [hsum, UInt64.toNat_zero, Nat.zero_add]
  · intro i
    rw [hsnd, foldl_update]
    simp only [mem_indicesBetween, hstart, hstop, Nat.lt_succ_iff, Nat.succ_le_iff]

/-- The last blocks give their requests back. -/
theorem revert (hinv : QueueInv s h) (hends : s.totalBlocksCommitted ≠ 2 ^ 32 - 1) {n : UInt32}
    (hn : n.toNat ≤ s.totalBlocksCommitted.toNat - s.totalBlocksVerified.toNat)
    {r : UInt64 × (UInt32 → StoredBlock)}
    (hloop : (indicesBetween (s.totalBlocksCommitted - n + 1) (s.totalBlocksCommitted + 1)).foldlM
      revertBlock (0, s.blocks) = .ok r)
    (hs : s' = { s with
      blocks := r.2
      totalBlocksCommitted := s.totalBlocksCommitted - n
      totalCommittedPriorityRequests := s.totalCommittedPriorityRequests - r.1 }) :
    QueueInv s' { h with matched := h.matched.take s'.totalBlocksCommitted.toNat } ∧
      r.1 ≤ s.totalCommittedPriorityRequests := by
  subst hs
  obtain ⟨hsub, hsum, hblocks⟩ := hinv.reverted hends hn hloop
  have hlength := hinv.length
  have hverified := hinv.verified
  have hcommitted := hinv.committed
  have hbound := hinv.bound
  generalize hkept : s.totalBlocksCommitted.toNat - n.toNat = kept at *
  -- what is kept of the matched ids are the lists of the blocks that stay
  have hle : kept ≤ h.matched.length := by omega
  have hsplit := matched_length h kept
  have hflat : h.matched.flatten = (h.matched.take kept).flatten ++ (h.matched.drop kept).flatten := by
    rw [← List.flatten_append, List.take_append_drop]
  -- the requests of the reverted blocks are committed no more, so the counter does not go below
  -- zero
  have hdrop : (h.matched.drop s.totalBlocksVerified.toNat).flatten.length =
      ((h.matched.take kept).drop s.totalBlocksVerified.toNat).flatten.length +
        (h.matched.drop kept).flatten.length := by
    rw [← List.length_append, ← List.flatten_append,
      ← List.drop_append_of_le_length (by rw [List.length_take]; omega), List.take_append_drop]
  have hge : r.1 ≤ s.totalCommittedPriorityRequests := UInt64.le_iff_toNat_le.mpr (by omega)
  refine ⟨?_, hge⟩
  dsimp only
  rw [hsub]
  refine ⟨hinv.serials, hinv.total, hinv.small, hinv.stored, hinv.fresh, ?_, ?_, ?_, ?_, ?_, ?_, ?_,
    ?_, hinv.active⟩
  · rw [List.length_take, Nat.min_eq_left hle, hsub]
  · intro i hi
    rw [List.length_take] at hi
    have htoNat : (UInt32.ofNat (i + 1)).toNat = i + 1 :=
      UInt32.toNat_ofNat_of_lt' (Nat.lt_of_le_of_lt (by omega) s.totalBlocksCommitted.toNat_lt)
    show (r.2 (UInt32.ofNat (i + 1))).priorityOperations.toNat = _
    rw [hblocks, if_neg (by omega), hinv.blocks i (by omega), List.getElem_take]
  · intro m hm
    show (r.2 m).chunks = 0
    have hm' : m = 0 ∨ kept < m.toNat :=
      hm.imp_right fun hlt => hsub ▸ UInt32.lt_iff_toNat_lt.mp hlt
    rw [hblocks]
    split
    next => rfl
    next hout =>
      refine hinv.rest m (hm'.imp_right fun hlt => UInt32.lt_iff_toNat_lt.mpr ?_)
      omega
  · exact hinv.map_take kept
  · show (h.matched.take kept).flatten.length ≤ h.requests.length
    omega
  · show s.totalBlocksVerified.toNat ≤ (s.totalBlocksCommitted - n).toNat
    omega
  · have hmin : min s.totalBlocksVerified.toNat kept = s.totalBlocksVerified.toNat := by omega
    dsimp only
    rw [List.take_take, hmin]
    exact hinv.served
  · show (s.totalCommittedPriorityRequests - r.1).toNat =
      ((h.matched.take kept).drop s.totalBlocksVerified.toNat).flatten.length
    rw [UInt64.toNat_sub_of_le _ _ hge]
    omega

/-- In exodus mode, requests are given up at the front, whether matched or not. -/
theorem cancel (hinv : QueueInv s h) {n toProcess : UInt64} {s₁ : Storage}
    (hexodus : s.exodusMode) (htoProcess : toProcess = minU64 s.totalOpenPriorityRequests n)
    (hloop : (idsBetween s.firstPriorityRequestId (s.firstPriorityRequestId + toProcess)).foldlM
      cancelRequest s = .ok s₁)
    (hs : s' = { s with
      balancesToWithdraw := s₁.balancesToWithdraw
      priorityRequests := s₁.priorityRequests
      firstPriorityRequestId := s.firstPriorityRequestId + toProcess
      totalOpenPriorityRequests := s.totalOpenPriorityRequests - toProcess }) :
    QueueInv s' { h with
      cancelled := h.cancelled ++
        idsBetween s.firstPriorityRequestId (s.firstPriorityRequestId + toProcess) } := by
  subst hs
  have htotal := hinv.total
  have hsmall := hinv.small
  have hle : toProcess.toNat ≤ s.totalOpenPriorityRequests.toNat := by
    rw [htoProcess, toNat_minU64]
    exact Nat.min_le_left _ _
  have hfirst : (s.firstPriorityRequestId + toProcess).toNat =
      s.firstPriorityRequestId.toNat + toProcess.toNat := by
    rw [UInt64.toNat_add]
    exact Nat.mod_eq_of_lt (by omega)
  -- the loop has emptied the slots of the cancelled ids
  have hrequests : ∀ id, s₁.priorityRequests id =
      if id ∈ idsBetween s.firstPriorityRequestId (s.firstPriorityRequestId + toProcess) then {}
      else s.priorityRequests id :=
    fun id => by rw [foldlM_cancelRequest_requests hloop, foldl_update]
  obtain ⟨hstored, hfresh⟩ := hinv.cleared hrequests
    (Nat.le_refl (s.firstPriorityRequestId + toProcess).toNat) (by omega)
  refine ⟨hinv.serials, ?_, hsmall, hstored, hfresh, hinv.length, hinv.blocks, hinv.rest,
    hinv.matched, hinv.bound, hinv.verified, ?_, hinv.committed, fun hactive => ?_⟩
  · show (s.firstPriorityRequestId + toProcess).toNat +
      (s.totalOpenPriorityRequests - toProcess).toNat = h.requests.length
    rw [hfirst, UInt64.toNat_sub_of_le _ _ (UInt64.le_iff_toNat_le.mpr hle)]
    omega
  · dsimp only
    rw [← List.append_assoc, List.map_append, hinv.served, map_toNat_idsBetween, hfirst,
      Nat.add_sub_cancel_left, List.range_eq_range', List.range_eq_range']
    have happend := List.range'_append_1 (s := 0) (m := s.firstPriorityRequestId.toNat)
      (n := toProcess.toNat)
    rwa [Nat.zero_add] at happend
  · rw [show s.exodusMode = false from hactive] at hexodus
    cases hexodus

/-! ### Steps -/

/-- A call that does not revert keeps the invariant, and underflows nowhere. -/
theorem step (hinv : QueueInv s h) {e : Event} (hcall : CallStep ext s e s')
    (hnext : h.Next ext s e s' h') (hbounds : WithinBounds s e.call) :
    QueueInv s' h' ∧ NoUnderflow ext s e.call := by
  obtain ⟨governance, msg, call, receipt⟩ := e
  cases call with
  | register call =>
    obtain ⟨⟨s₁, event⟩, hregister, hcall⟩ := Outcome.bind_eq_ok.mp hcall
    cases hcall
    obtain rfl : h' = { h with requests := h.requests ++ [event] } := hnext
    exact ⟨hinv.register (register_spec hregister) hbounds, trivial⟩
  | commitBlock blockNumber feeAccount newBlockInfo block =>
    -- the walk over the data has matched the next ids
    obtain ⟨s₁, hcommit, hcall⟩ := Outcome.bind_eq_ok.mp hcall
    cases hcall
    obtain ⟨hactive, hnumber, tr, w, stored, hcollected, hoperations, -, hs⟩ :=
      commitBlock_spec hcommit
    obtain ⟨tr', w', hcollected', rfl⟩ := hnext
    obtain ⟨htr, hw⟩ := hcollected.unique hcollected'
    rw [← htr]
    refine ⟨hinv.commit hactive hbounds hcollected hoperations (hnumber ▸ hs), ?_, ?_⟩
    · rw [hnumber, UInt32.le_iff_toNat_le, UInt32.toNat_add]
      show 1 ≤ (s.totalBlocksCommitted.toNat + 1) % 2 ^ 32
      rw [Nat.mod_eq_of_lt hbounds]
      exact Nat.succ_pos _
    · intro tr₂ w₂ hcollected₂
      obtain ⟨-, -, hge, hcounted⟩ := hinv.collected hactive hcollected₂
      exact ⟨hge, UInt64.le_iff_toNat_le.mpr (by omega)⟩
  | verifyBlock blockNumber proof withdrawalsData =>
    -- a verified block takes its requests from the front
    obtain ⟨s₁, hverify, hcall⟩ := Outcome.bind_eq_ok.mp hcall
    cases hcall
    obtain rfl : h' = h := hnext
    obtain ⟨hactive, rfl, hsupported, hopen, -, p, -, hs⟩ := verifyBlock_spec hverify
    have hdrop := (hinv.next_block hsupported).2
    have hcommitted := hinv.committed
    refine ⟨hinv.verify hactive hsupported hopen (by rw [hs]), hopen, UInt64.le_iff_toNat_le.mpr ?_⟩
    omega
  | revertBlocks maxBlocksToRevert =>
    -- the blocks are gone, and their requests are open again
    obtain ⟨s₁, hrevert, hcall⟩ := Outcome.bind_eq_ok.mp hcall
    cases hcall
    obtain rfl := hnext
    obtain ⟨hlt, hends, n, r, hn, hloop, hs⟩ := revertBlocks_spec hrevert
    have hle : s.totalBlocksVerified ≤ s.totalBlocksCommitted :=
      UInt32.le_of_lt hlt
    have hn' : n.toNat ≤ s.totalBlocksCommitted.toNat - s.totalBlocksVerified.toNat := by
      rw [hn, toNat_minU32, UInt32.toNat_sub_of_le _ _ hle]
      exact Nat.min_le_right _ _
    refine ⟨(hinv.revert hends hn' hloop hs).1, hle, ?_, ?_⟩
    · rw [← hn]
      exact UInt32.le_iff_toNat_le.mpr (by omega)
    · intro r' hloop'
      rw [← hn] at hloop'
      exact (hinv.revert hends hn' hloop' rfl).2
  | cancelOutstandingDepositsForExodusMode n =>
    -- the loop deletes the first requests, which are the cancelled ones
    obtain ⟨s₁, hcancel, hcall⟩ := Outcome.bind_eq_ok.mp hcall
    cases hcall
    obtain rfl := hnext
    obtain ⟨hexodus, _, s₁, rfl, hloop, hs⟩ := cancelOutstandingDepositsForExodusMode_spec hcancel
    refine ⟨hinv.cancel hexodus rfl hloop hs, ?_⟩
    show minU64 _ _ ≤ _
    rw [UInt64.le_iff_toNat_le, toNat_minU64]
    exact Nat.min_le_left _ _
  | triggerExodusIfNeeded =>
    -- only the flag changes
    obtain rfl : h' = h := hnext
    obtain ⟨hexodus, honly⟩ := triggerExodusIfNeeded_spec msg s
    rw [(callStep_triggerExodusIfNeeded hcall).1, hexodus]
    refine ⟨⟨hinv.serials, hinv.total, hinv.small, hinv.stored, hinv.fresh, hinv.length,
      hinv.blocks, hinv.rest, hinv.matched, hinv.bound, hinv.verified, hinv.served,
      hinv.committed, fun hactive => hinv.active ?_⟩, trivial⟩
    exact Bool.eq_false_iff.mpr fun h => Bool.eq_false_iff.mp hactive (honly h)
  | exit accountId tokenId amount proof =>
    obtain ⟨s₁, hexit, hcall⟩ := Outcome.bind_eq_ok.mp hcall
    cases hcall
    obtain rfl : h' = h := hnext
    obtain ⟨balance, exited, -, rfl⟩ := exit_spec hexit
    exact ⟨hinv.frame rfl, trivial⟩
  | completeWithdrawals n sends =>
    obtain rfl : h' = h := hnext
    have hs := (callStep_completeWithdrawals hcall).1
    rw [completeWithdrawals_frame] at hs
    exact ⟨hinv.frame (by rw [hs]), trivial⟩
  | withdrawETH amount success =>
    obtain ⟨⟨s₁, payments⟩, hwithdraw, hcall⟩ := Outcome.bind_eq_ok.mp hcall
    cases hcall
    obtain rfl : h' = h := hnext
    obtain ⟨-, rfl⟩ := registerWithdrawal_spec (withdrawETH_spec hwithdraw).1
    exact ⟨hinv.frame rfl, trivial⟩
  | withdrawERC20 token transfer =>
    obtain ⟨⟨s₁, payments⟩, hwithdraw, hcall⟩ := Outcome.bind_eq_ok.mp hcall
    cases hcall
    obtain rfl : h' = h := hnext
    obtain ⟨tokenId, amount, hregister, -⟩ := withdrawERC20_spec hwithdraw
    obtain ⟨-, rfl⟩ := registerWithdrawal_spec hregister
    exact ⟨hinv.frame rfl, trivial⟩
  | setAuthPubkeyHash hash nonce =>
    obtain ⟨s₁, hset, hcall⟩ := Outcome.bind_eq_ok.mp hcall
    cases hcall
    obtain rfl : h' = h := hnext
    obtain ⟨-, -, rfl⟩ := setAuthPubkeyHash_spec hset
    exact ⟨hinv.frame rfl, trivial⟩

/-- What the invariant says of the queue. -/
theorem ok (hinv : QueueInv s h) : QueueOk s h := by
  have hsplit := matched_length h s.totalBlocksVerified.toNat
  have hverified : s.totalBlocksVerified.toNat ≤ h.matched.length :=
    hinv.length ▸ hinv.verified
  have htotal := hinv.total
  have hbound := hinv.bound
  have hfirst := hinv.first
  have hcommitted := hinv.committed
  refine ⟨UInt32.le_iff_toNat_le.mpr hinv.verified, ?_, ?_, hinv.serials, hinv.served,
    fun i hi => ?_, htotal, hinv.stored, hinv.fresh, ⟨hinv.length, hinv.blocks⟩, ⟨?_, ?_⟩,
    hinv.matched⟩
  · rw [unverifiedOperations, ← hinv.length, hinv.operations_from hverified, hcommitted,
      List.length_flatten]
  · intro hnone
    rw [hnone, List.length_nil] at hfirst
    exact UInt64.le_iff_toNat_le.mpr (by omega)
  · have hsmall := hinv.small
    have htoNat : (UInt64.ofNat i).toNat = i :=
      UInt64.toNat_ofNat_of_lt' (show i < 2 ^ 64 by omega)
    have hgiven : UInt64.ofNat i ∈ (h.matched.take s.totalBlocksVerified.toNat).flatten ++
        h.cancelled ↔ i < s.firstPriorityRequestId.toNat := by
      rw [← List.mem_range, ← hinv.served]
      constructor
      · intro hmem
        exact List.mem_map.mpr ⟨_, hmem, htoNat⟩
      · intro hmem
        obtain ⟨id, hid, rfl⟩ := List.mem_map.mp hmem
        rwa [UInt64.ofNat_toNat]
    rw [← not_or, ← List.mem_append, hgiven, Nat.not_lt]
  · have hsorted : (h.matched.flatten.map UInt64.toNat).Pairwise (· < ·) := by
      rw [hinv.matched]
      exact List.pairwise_lt_range
    exact (List.pairwise_map.mp hsorted).imp fun hlt => UInt64.lt_iff_toNat_lt.mpr hlt
  · intro id hid
    have hmem := List.mem_map_of_mem (f := UInt64.toNat) hid
    rw [hinv.matched, List.mem_range] at hmem
    omega

end QueueInv

/-- Whatever a call does, it can be recorded. -/
theorem QueueHistory.exists_next {ext : Externals} {s s' : Storage} {e : Event} (h : QueueHistory)
    (hcall : CallStep ext s e s') : ∃ h', h.Next ext s e s' h' := by
  obtain ⟨governance, msg, call, receipt⟩ := e
  cases call with
  | commitBlock blockNumber feeAccount newBlockInfo block =>
    obtain ⟨s₁, hcommit, -⟩ := Outcome.bind_eq_ok.mp hcall
    obtain ⟨-, -, tr, w, stored, hcollected, -⟩ := commitBlock_spec hcommit
    exact ⟨_, tr, w, hcollected, rfl⟩
  | _ => exact ⟨_, rfl⟩

/-! ## Runs -/

section Runs

variable {s : Storage}

/-- A block of six noops. -/
def noops : CommitData where
  publicData := List.replicate 54 0
  ethWitness := []
  ethWitnessSizes := []

/-- A block of padding asks for no request. -/
theorem collected_noops (ext : Externals) (s : Storage) :
    ∃ tr w, Collected ext s noops tr w ∧ matchedIds tr = [] ∧
      w.currentPriorityRequestId = (Walk.start s).currentPriorityRequestId ∧
      w.withdrawalsDataHash = EMPTY_STRING_KECCAK := by
  have hrounds : ∀ n ≤ 6, ∃ tr, Run (VisitStep ext s noops) (Walk.start s) tr
      ((Walk.start s).advance (9 * n)) ∧ matchedIds tr = [] := by
    intro n
    induction n with
    | zero => exact fun _ => ⟨[], .nil _, rfl⟩
    | succ n ih =>
      intro hn
      obtain ⟨tr, hrun, hids⟩ := ih (Nat.le_of_succ_le hn)
      have hlt : 0 + 9 * n < 54 := by omega
      have hopType : opTypeAt noops.publicData (0 + 9 * n) = some .Noop := by
        rw [opTypeAt, noops, List.getElem?_replicate, if_pos hlt]
        rfl
      have hstep : VisitStep ext s noops ((Walk.start s).advance (9 * n))
          (.Noop, (Walk.start s).advance (9 * n)) ((Walk.start s).advance (9 * (n + 1))) :=
        ⟨List.length_replicate ▸ hlt, rfl, hopType, rfl⟩
      refine ⟨_, hrun.append (.single hstep), ?_⟩
      rw [matchedIds, List.filterMap_append]
      exact congrArg (· ++ _) hids
  obtain ⟨tr, hrun, hids⟩ := hrounds 6 (Nat.le_refl 6)
  exact ⟨tr, _, ⟨hrun, rfl, rfl, rfl⟩, hids, rfl, rfl⟩

/-- Nothing is in the queue, and exodus mode is off. -/
structure Quiet (s : Storage) : Prop where
  active : s.exodusMode = false
  first : s.firstPriorityRequestId = 0
  open_eq : s.totalOpenPriorityRequests = 0
  committed : s.totalCommittedPriorityRequests = 0

/-- So it can be committed at any time. -/
theorem commit_noops (hquiet : Quiet s) (h : QueueHistory) :
    ∃ e s' h' stored, QueueStep .sample (s, h) e (s', h') ∧
      (s.totalBlocksCommitted.toNat + 1 < 2 ^ 32 → WithinBounds s e.call) ∧ Quiet s' ∧
      s'.totalBlocksVerified = s.totalBlocksVerified ∧
      s'.totalBlocksCommitted = s.totalBlocksCommitted + 1 ∧
      s'.blocks = Function.update s.blocks (s.totalBlocksCommitted + 1) stored ∧
      stored.priorityOperations = 0 ∧ stored.chunks = 6 ∧
      stored.withdrawalsDataHash = EMPTY_STRING_KECCAK := by
  obtain ⟨tr, w, hcollected, -, hrequest, hhash⟩ := collected_noops .sample s
  obtain ⟨hactive, hfirst, hopen, hcommitted⟩ := hquiet
  have hcurrent : w.currentPriorityRequestId = 0 := by
    rw [hrequest]
    show s.firstPriorityRequestId + s.totalCommittedPriorityRequests = 0
    rw [hfirst, hcommitted]
    rfl
  obtain ⟨stored, hcommit, hoperations, hchunks, hstored⟩ := commitBlock_of .sample .sample 0 0
    (by decide) hactive rfl hcollected (by rw [hcurrent, hfirst, hopen]; decide) rfl rfl
  rw [hcurrent, hfirst, hcommitted] at hoperations
  exact ⟨⟨.sample, .sample, .commitBlock (s.totalBlocksCommitted + 1) 0 [0] noops, {}⟩, _, _, stored,
    ⟨Outcome.bind_eq_ok.mpr ⟨_, hcommit, rfl⟩, tr, w, hcollected, rfl⟩, id,
    ⟨hactive, hfirst, hopen, by dsimp only; rw [hcurrent, hfirst]; rfl⟩, rfl, rfl, rfl, hoperations,
    hchunks, hstored.trans hhash⟩

/-- Block after block of noops is committed. -/
theorem commits_noops (hquiet : Quiet s) (h : QueueHistory) (n : Nat) :
    ∃ tr s' h', Run (QueueStep .sample) (s, h) tr (s', h') ∧ Quiet s' ∧
      s'.totalBlocksVerified = s.totalBlocksVerified ∧
      s'.totalBlocksCommitted = s.totalBlocksCommitted + UInt32.ofNat n := by
  induction n with
  | zero => exact ⟨[], s, h, .nil _, hquiet, rfl, (UInt32.add_zero _).symm⟩
  | succ n ih =>
    obtain ⟨tr, s₁, h₁, hrun, hquiet₁, hverified, hcommitted⟩ := ih
    obtain ⟨e, s₂, h₂, -, hstep, -, hquiet₂, hverified₂, hcommitted₂, -⟩ := commit_noops hquiet₁ h₁
    refine ⟨_, s₂, h₂, hrun.append (.single hstep), hquiet₂, hverified₂.trans hverified, ?_⟩
    rw [hcommitted₂, hcommitted, UInt32.ofNat_add, UInt32.add_assoc]
    rfl

/-- A committed block without operations is verified. -/
theorem verify_noops (hquiet : Quiet s) (h : QueueHistory)
    (hoperations : (s.blocks (s.totalBlocksVerified + 1)).priorityOperations = 0)
    (hchunks : (s.blocks (s.totalBlocksVerified + 1)).chunks = 6)
    (hhash : (s.blocks (s.totalBlocksVerified + 1)).withdrawalsDataHash = EMPTY_STRING_KECCAK) :
    ∃ e s', QueueStep .sample (s, h) e (s', h) ∧ WithinBounds s e.call ∧ Quiet s' ∧
      s'.totalBlocksVerified = s.totalBlocksVerified + 1 ∧
      s'.totalBlocksCommitted = s.totalBlocksCommitted := by
  obtain ⟨hactive, hfirst, hopen, hcommitted⟩ := hquiet
  have hrequire : requireActive s = .ok () := requireActive_eq_ok.mpr hactive
  have hproof : ∀ commitment, verifyBlockProof .sample [] commitment 6 = .ok true := fun _ => rfl
  -- a block of padding pays nobody and deletes no request
  have hprocess : processOnchainWithdrawals .sample s [] EMPTY_STRING_KECCAK = .ok s := by
    have hloop : processLoop .sample [] 0 ⟨s, s.numberOfPendingWithdrawals, EMPTY_STRING_KECCAK⟩ =
        .ok ⟨s, s.numberOfPendingWithdrawals, EMPTY_STRING_KECCAK⟩ := by
      rw [processLoop, List.length_nil, if_neg (Nat.lt_irrefl 0)]
    unfold processOnchainWithdrawals
    rw [List.length_nil, require_of (Nat.zero_mod _), Outcome.ok_bind, hloop, Outcome.ok_bind,
      require_of rfl]
    rfl
  have hdelete : ∃ s', deleteRequests s 0 = .ok s' := by
    unfold deleteRequests
    rw [hopen, require_of (UInt64.le_refl 0)]
    exact ⟨_, rfl⟩
  obtain ⟨s₁, hdelete⟩ := hdelete
  have hvalidator : Governance.sample.validators Msg.sample.sender = true := rfl
  have hverify : ∃ s', verifyBlock .sample .sample .sample s (s.totalBlocksVerified + 1) [] [] =
      .ok s' := by
    unfold verifyBlock Governance.requireActiveValidator
    dsimp only
    rw [hrequire, Outcome.ok_bind, require_of rfl, Outcome.ok_bind, require_of hvalidator,
      Outcome.ok_bind, hchunks, hproof, Outcome.ok_bind, require_of rfl, Outcome.ok_bind, hhash,
      hprocess, Outcome.ok_bind, hoperations, hdelete]
    exact ⟨_, rfl⟩
  obtain ⟨s', hverify⟩ := hverify
  obtain ⟨-, -, -, -, -, p, -, hs⟩ := verifyBlock_spec hverify
  rw [hoperations] at hs
  refine ⟨⟨.sample, .sample, .verifyBlock (s.totalBlocksVerified + 1) [] [], {}⟩, s',
    ⟨Outcome.bind_eq_ok.mpr ⟨s', hverify, rfl⟩, rfl⟩, trivial, ?_, ?_, ?_⟩
  · rw [hs]
    exact ⟨hactive, by dsimp only; rw [hfirst]; rfl, by dsimp only; rw [hopen]; rfl,
      by dsimp only; rw [hcommitted]; rfl⟩
  · rw [hs]
  · rw [hs]

/-- Deposits of nothing are made, one after the other. -/
theorem deposits (hactive : s.exodusMode = false) (h : QueueHistory) (n : Nat) :
    ∃ tr s' h', Run (QueueStep .sample) (s, h) tr (s', h') ∧ s'.exodusMode = false ∧
      s'.firstPriorityRequestId = s.firstPriorityRequestId ∧
      s'.totalOpenPriorityRequests = s.totalOpenPriorityRequests + UInt64.ofNat n ∧
      h'.requests.length = h.requests.length + n := by
  induction n with
  | zero => exact ⟨[], s, h, .nil _, hactive, rfl, (UInt64.add_zero _).symm, rfl⟩
  | succ n ih =>
    obtain ⟨tr, s₁, h₁, hrun, hactive₁, hfirst, hopen, hlength⟩ := ih
    have hrequire : requireActive s₁ = .ok () := requireActive_eq_ok.mpr hactive₁
    have hregister : ∃ r, register .sample .sample s₁ (.depositETH 5) = .ok r := by
      show ∃ r, depositETH .sample s₁ 5 = .ok r
      unfold depositETH toUint128
      rw [hrequire, Outcome.ok_bind, require_of (show Msg.sample.value < u128Bound by decide)]
      exact ⟨_, rfl⟩
    obtain ⟨⟨s₂, event⟩, hregister⟩ := hregister
    obtain ⟨balances, hs₂, -⟩ := (register_spec hregister).storage
    have hstep : QueueStep .sample (s₁, h₁)
        ⟨.sample, .sample, .register (.depositETH 5), { requests := [event] }⟩
        (s₂, { h₁ with requests := h₁.requests ++ [event] }) :=
      ⟨Outcome.bind_eq_ok.mpr ⟨(s₂, event), hregister, rfl⟩, rfl⟩
    refine ⟨_, s₂, _, hrun.append (.single hstep), ?_, ?_, ?_, ?_⟩
    · rw [hs₂]
      exact hactive₁
    · rw [hs₂]
      exact hfirst
    · rw [hs₂]
      dsimp only
      rw [hopen, UInt64.ofNat_add, UInt64.add_assoc]
      rfl
    · rw [List.length_append, hlength]
      rfl

theorem quiet_initialized (genesisRoot : Bytes32) : Quiet (.initialized genesisRoot) :=
  ⟨rfl, rfl, rfl, rfl⟩

/-- One block is committed and verified. -/
theorem verified_noops : ∃ tr s h,
    Run (fun p e p' => WithinBounds p.1 e.call ∧ QueueStep .sample p e p') (.initialized 0, {}) tr
      (s, h) ∧
    Quiet s ∧ s.totalBlocksVerified = 1 ∧ s.totalBlocksCommitted = 1 := by
  obtain ⟨e₁, s₁, h₁, stored, hstep₁, hbounds₁, hquiet₁, hverified₁, hcommitted₁, hblocks, hoperations, hchunks,
    hhash⟩ := commit_noops (quiet_initialized 0) {}
  have hblock : s₁.blocks (s₁.totalBlocksVerified + 1) = stored := by
    rw [hblocks, hverified₁]
    exact Function.update_self _ _ _
  obtain ⟨e₂, s₂, hstep₂, hbounds₂, hquiet₂, hverified₂, hcommitted₂⟩ := verify_noops hquiet₁ h₁
    (hblock ▸ hoperations) (hblock ▸ hchunks) (hblock ▸ hhash)
  refine ⟨_, s₂, h₁, .cons ⟨hbounds₁ (by decide), hstep₁⟩ (.single ⟨hbounds₂, hstep₂⟩), hquiet₂,
    ?_, ?_⟩
  · rw [hverified₂, hverified₁]
    rfl
  · rw [hcommitted₂, hcommitted₁]
    rfl

/-- The queue is right after any calls within the bounds, and no counter goes below zero. -/
theorem priorityQueue_ok {ext : Externals} {genesisRoot : Bytes32} {tr : List Event}
    {p : Storage × QueueHistory}
    (hrun : Run (fun p e p' => WithinBounds p.1 e.call ∧ QueueStep ext p e p')
      (.initialized genesisRoot, {}) tr p) :
    QueueOk p.1 p.2 ∧
      ∀ e s', CallStep ext p.1 e s' → WithinBounds p.1 e.call → NoUnderflow ext p.1 e.call := by
  have hinv : QueueInv p.1 p.2 := by
    refine hrun.invariant (I := fun p => QueueInv p.1 p.2) ?_ (QueueInv.start genesisRoot)
    rintro ⟨s, h⟩ e ⟨s', h'⟩ hinv ⟨hbounds, hcall, hnext⟩
    exact (QueueInv.step hinv hcall hnext hbounds).1
  refine ⟨hinv.ok, fun e s' hcall hbounds => ?_⟩
  obtain ⟨h', hnext⟩ := p.2.exists_next hcall
  exact (hinv.step hcall hnext hbounds).2

theorem priorityQueue_ok_noops : ∃ s h, QueueOk s h ∧ s.totalBlocksVerified = 1 ∧
    ∀ e s', CallStep .sample s e s' → WithinBounds s e.call → NoUnderflow .sample s e.call := by
  obtain ⟨tr, s, h, hrun, -, hverified, -⟩ := verified_noops
  obtain ⟨hok, hunderflow⟩ := priorityQueue_ok hrun
  exact ⟨s, h, hok, hverified, hunderflow⟩

/-- After `2 ^ 32` blocks more blocks are verified than committed, and after `2 ^ 64`
requests none is open. -/
theorem priorityQueue_wraps :
    (∃ tr s h, Run (QueueStep .sample) (.initialized 0, {}) tr (s, h) ∧
      ¬s.totalBlocksVerified ≤ s.totalBlocksCommitted) ∧
    ∃ tr s h, Run (QueueStep .sample) (.initialized 0, {}) tr (s, h) ∧
      s.firstPriorityRequestId.toNat + s.totalOpenPriorityRequests.toNat ≠ h.requests.length := by
  constructor
  · obtain ⟨tr₁, s₁, h₁, hrun₁, hquiet₁, hverified₁, hcommitted₁⟩ := verified_noops
    obtain ⟨tr₂, s₂, h₂, hrun₂, -, hverified₂, hcommitted₂⟩ :=
      commits_noops hquiet₁ h₁ (2 ^ 32 - 1)
    have hrun₁ : Run (QueueStep .sample) _ tr₁ _ :=
      hrun₁.mono (I := fun _ => True) (fun _ _ _ _ _ => trivial) (fun _ _ _ _ h => h.2) trivial
    refine ⟨_, s₂, h₂, hrun₁.append hrun₂, ?_⟩
    rw [hverified₂, hcommitted₂, hverified₁, hcommitted₁]
    decide
  · obtain ⟨tr, s, h, hrun, -, hfirst, hopen, hlength⟩ :=
      deposits (quiet_initialized 0).active {} (2 ^ 64)
    refine ⟨tr, s, h, hrun, ?_⟩
    rw [hfirst, hopen, hlength]
    decide

end Runs

end ZkSync.Contract
