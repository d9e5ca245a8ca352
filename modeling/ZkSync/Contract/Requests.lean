import ZkSync.Contract.PriorityQueue
import ZkSync.State.Effects
import ZkSync.Types.PriorityOps

/-!
# Requests from the contract to the server and back

A request passes through three codecs. The contract writes and emits it, the server
reads it out of the event (`parseFromPriorityQueueLogs`), executes it and writes the
executed operation into the public data of a block, and the contract reads it there
and compares it with what it stored. `request_roundTrip` follows every request a
caller can make.
-/

namespace ZkSync.Contract

open Bytes (ofBytesBE toBytesBE slice)

/-- The operations that execute a request: with some account id, or some amount. -/
inductive ExecutesFor : ZkSyncPriorityOp → ZkSyncOp → Prop
  | deposit (op : ZkSync.Deposit) (accountId : AccountId) :
      ExecutesFor (.Deposit op) (.Deposit ⟨op, accountId⟩)
  | fullExit (op : ZkSync.FullExit) (withdrawAmount : Option Nat) :
      ExecutesFor (.FullExit op) (.FullExit ⟨op, withdrawAmount⟩)

/-- What the server executes for a request is one of them. -/
theorem executePriorityOp_executesFor {s s' : ZkSyncState} {op : ZkSyncPriorityOp}
    {r : OpSuccess} (h : s.executePriorityOp op = .ok (r, s')) : ExecutesFor op r.executedOp := by
  cases executePriorityOp_effect h with
  | deposit => exact .deposit _ _
  | depositToNew => exact .deposit _ _
  | fullExit => exact .fullExit _ _
  | fullExitRefused => exact .fullExit _ _

/-- The contract's reader gives the fields of the operation. -/
def ReadsAs (pubData : Bytes) : ZkSyncOp → Prop
  | .Deposit op => ∃ amount, amount.toNat = op.priorityOp.amount ∧ readDepositPubdata pubData =
      .ok ⟨op.accountId, op.priorityOp.token, amount, op.priorityOp.toAddress⟩
  | .FullExit op => ∃ amount, amount.toNat = op.withdrawAmount.getD 0 ∧
      readFullExitPubdata pubData =
        .ok ⟨op.priorityOp.accountId, op.priorityOp.ethAddress, op.priorityOp.token, amount⟩
  | _ => False

/-- The fields stand behind the opcode. -/
theorem at_fields {code : UInt8} {fields publicData : Bytes} {offset : Nat}
    (hlen : fields.length ≤ 53)
    (h : Bytes.At publicData offset (resize ([code] ++ fields) (6 * CHUNK_BYTES))) :
    Bytes.At publicData (offset + 1) (fields ++ List.replicate (53 - fields.length) 0) := by
  have hfields : ([code] ++ fields).length ≤ 6 * CHUNK_BYTES := by
    rw [List.length_append, List.length_singleton]
    exact Nat.add_le_add_left hlen 1
  have hpad : 6 * CHUNK_BYTES - ([code] ++ fields).length = 53 - fields.length := by
    rw [List.length_append, List.length_singleton]
    show 54 - (1 + fields.length) = _
    omega
  rw [resize_eq hfields, hpad, List.append_assoc] at h
  exact (h.append List.length_singleton).2

/-- The slice behind the opcode, as `collectOnchainOps` takes it. -/
theorem bytesSlice_publicData {code : UInt8} {fields publicData : Bytes} {offset : Nat}
    (hlen : fields.length ≤ 53)
    (h : Bytes.At publicData offset (resize ([code] ++ fields) (6 * CHUNK_BYTES))) :
    ∃ pubData, bytesSlice publicData (offset + 1) 53 = .ok pubData ∧ Bytes.At pubData 0 fields := by
  have hat := at_fields hlen h
  have hpad : (fields ++ List.replicate (53 - fields.length) (0 : UInt8)).length = 53 := by
    rw [List.length_append, List.length_replicate]
    omega
  have hle := hat.le
  rw [hpad] at hle
  refine ⟨_, bytesSlice_eq hle, ?_⟩
  rw [hat.slice_eq hpad]
  exact ⟨[], _, rfl, rfl⟩

section RoundTrip

variable {ext : Externals} {governance : Governance} {msg : Msg} {s s' t : Storage}
  {event : NewPriorityRequest}

/-- The server reads the request the caller made. -/
theorem Registered.parse {request : ZkSyncPriorityOp} (h : Registered msg request s s' event)
    (hsender : ∀ op, request = .Deposit op → op.fromAddress = msg.sender) :
    ZkSyncPriorityOp.parseFromPriorityQueueLogs event.pubData event.opType.code event.sender =
      .ok request := by
  obtain ⟨hopType, hpubData⟩ := Prod.mk.inj h.written
  cases request with
  | Deposit op =>
    have hparse := ZkSyncPriorityOp.parse_deposit op.token op.toAddress
      (Bytes.length_toBytesBE 4 0) (h.amount op rfl) event.sender
    rw [hopType, hpubData]
    refine hparse.trans ?_
    rw [h.sender, ← hsender op rfl]
  | FullExit op =>
    rw [hopType, hpubData]
    exact ZkSyncPriorityOp.parse_fullExit (Bytes.length_toBytesBE 16 0) event.sender

variable (ext) in
/-- The executed operation, anywhere in a block, is read and accepted where its
request is stored. -/
theorem accepted {request : ZkSyncPriorityOp} {executed : ZkSyncOp} {data publicData : Bytes}
    {offset : Nat} {id : UInt64} (hexec : ExecutesFor request executed)
    (hdata : executed.publicData = .ok data) (hat : Bytes.At publicData offset data)
    (hstored : ((s.priorityRequests id).opType, (s.priorityRequests id).pubData) =
      requestPubdata request) :
    ∃ pubData, bytesSlice publicData (offset + 1) 53 = .ok pubData ∧ ReadsAs pubData executed ∧
      commitNextPriorityOperation ext s ⟨(requestPubdata request).1, pubData⟩ id = .ok () := by
  obtain ⟨hopType, hpubData⟩ := Prod.mk.inj hstored
  cases hexec with
  | deposit op accountId =>
    have hamount : op.amount < u128Bound := by
      obtain ⟨bytes, hbytes, -⟩ := Outcome.bind_eq_ok.mp hdata
      exact (u128Bytes_eq_ok hbytes).1
    rw [ZkSyncOp.publicData, DepositOp.getPublicData_eq hamount] at hdata
    cases hdata
    have hlen : (u32Bytes accountId ++ (u16Bytes op.token ++ (toBytesBE 16 op.amount ++
        addressBytes op.toAddress))).length ≤ 53 := by simp
    obtain ⟨pubData, hslice, hfields⟩ := bytesSlice_publicData hlen hat
    have hread := readDepositPubdata_eq hamount hfields
    -- Behind the account id, which the contract wrote as zero, the fields are the same.
    have hrequest : Bytes.At (s.priorityRequests id).pubData 0 (toBytesBE 4 0 ++
        (u16Bytes op.token ++ (toBytesBE 16 op.amount ++ addressBytes op.toAddress))) :=
      hpubData ▸ Bytes.At.all _
    have hmatch := depositPubdataMatch_eq ext.keccak256 (by simp)
      (hrequest.append (Bytes.length_toBytesBE 4 0)).2 (hfields.append (length_u32Bytes accountId)).2
    refine ⟨pubData, hslice, ⟨_, toNat_ofNat_of_lt hamount, hread⟩, ?_⟩
    simp only [commitNextPriorityOperation, hopType, requestPubdata, hmatch, require_of,
      Outcome.ok_bind]
  | fullExit op withdrawAmount =>
    have hamount : withdrawAmount.getD 0 < u128Bound := by
      obtain ⟨bytes, hbytes, -⟩ := Outcome.bind_eq_ok.mp hdata
      exact (u128Bytes_eq_ok hbytes).1
    rw [ZkSyncOp.publicData, FullExitOp.getPublicData_eq hamount] at hdata
    cases hdata
    have hlen : (u32Bytes op.accountId ++ (addressBytes op.ethAddress ++ (u16Bytes op.token ++
        toBytesBE 16 (withdrawAmount.getD 0)))).length ≤ 53 := by simp
    obtain ⟨pubData, hslice, hfields⟩ := bytesSlice_publicData hlen hat
    have hread := readFullExitPubdata_eq hamount hfields
    -- In front of the amount, which the contract wrote as zero, the fields are the same.
    have hrequest : Bytes.At (s.priorityRequests id).pubData 0 (u32Bytes op.accountId ++
        (addressBytes op.ethAddress ++ (u16Bytes op.token ++ toBytesBE 16 0))) :=
      hpubData ▸ Bytes.At.all _
    have hsplit : ∀ amount : Bytes, u32Bytes op.accountId ++ (addressBytes op.ethAddress ++
        (u16Bytes op.token ++ amount)) = (u32Bytes op.accountId ++ (addressBytes op.ethAddress ++
        u16Bytes op.token)) ++ amount := fun amount => by simp only [List.append_assoc]
    rw [hsplit] at hrequest hfields
    have hmatch := fullExitPubdataMatch_eq (by simp) (hrequest.append rfl).1 (hfields.append rfl).1
    refine ⟨pubData, hslice, ⟨_, toNat_ofNat_of_lt hamount, hread⟩, ?_⟩
    simp only [commitNextPriorityOperation, hopType, requestPubdata, hmatch, require_of,
      Outcome.ok_bind]

/-- What was registered is stored, as long as nobody writes to its id. -/
theorem Registered.stored {request : ZkSyncPriorityOp} (h : Registered msg request s s' event)
    (hsame : t.priorityRequests event.serialId = s'.priorityRequests event.serialId) :
    ((t.priorityRequests event.serialId).opType, (t.priorityRequests event.serialId).pubData) =
      requestPubdata request := by
  obtain ⟨balances, rfl, -⟩ := h.storage
  dsimp only at hsame
  rw [hsame, Function.update_self]
  exact h.written

/-- The server can write what it executed, unless an exit amount exceeds its type. -/
theorem Registered.publicData {request : ZkSyncPriorityOp} {executed : ZkSyncOp}
    (h : Registered msg request s s' event) (hexec : ExecutesFor request executed) :
    (∃ data, executed.publicData = .ok data) ∨
      ∃ op, executed = .FullExit op ∧ u128Bound ≤ op.withdrawAmount.getD 0 := by
  cases hexec with
  | deposit op accountId => exact .inl ⟨_, DepositOp.getPublicData_eq (h.amount op rfl)⟩
  | fullExit op withdrawAmount =>
    rcases Nat.lt_or_ge (withdrawAmount.getD 0) u128Bound with hlt | hge
    · exact .inl ⟨_, FullExitOp.getPublicData_eq hlt⟩
    · exact .inr ⟨_, rfl, hge⟩

end RoundTrip

theorem Register.request_fromAddress {governance : Governance} {msg : Msg} {call : Register}
    {op : ZkSync.Deposit} (h : call.request governance msg = .Deposit op) :
    op.fromAddress = msg.sender := by
  cases call <;> cases h <;> rfl

/-- Every request a caller can make comes back: the server reads it out of the event
as it was made; what the server executes for it can be written, unless its exit
amount exceeds 128 bits; and wherever that stands in the public data of a block, the
contract's reader gives its fields and the comparison with the stored request
accepts it, for as long as the request is stored. -/
theorem request_roundTrip (ext : Externals) (governance : Governance) (msg : Msg)
    (s s' : Storage) (event : NewPriorityRequest) (call : Register)
    (h : register governance msg s call = .ok (s', event)) :
    ZkSyncPriorityOp.parseFromPriorityQueueLogs event.pubData event.opType.code event.sender =
        .ok (call.request governance msg) ∧
      ∀ executed, ExecutesFor (call.request governance msg) executed →
        ((∃ data, executed.publicData = .ok data) ∨
          ∃ op, executed = .FullExit op ∧ u128Bound ≤ op.withdrawAmount.getD 0) ∧
        ∀ data, executed.publicData = .ok data → ∀ publicData offset,
          Bytes.At publicData offset data → ∀ t : Storage,
          t.priorityRequests event.serialId = s'.priorityRequests event.serialId →
            ∃ pubData, bytesSlice publicData (offset + 1) 53 = .ok pubData ∧
              ReadsAs pubData executed ∧
              commitNextPriorityOperation ext t ⟨event.opType, pubData⟩ event.serialId =
                .ok () := by
  have hspec := register_spec h
  refine ⟨hspec.parse fun op hop => Register.request_fromAddress hop, ?_⟩
  intro executed hexec
  refine ⟨hspec.publicData hexec, ?_⟩
  intro data hdata publicData offset hat t hstored
  have haccepted := accepted ext hexec hdata hat (hspec.stored hstored)
  rwa [← hspec.written] at haccepted

/-- A deposit of three wei by 5 for 7, from the contract's first state. It is read as what it
is, a server without accounts opens the first one for it, and the block with that operation is
accepted by the comparison. -/
theorem request_roundTrip_deposit : ∃ (event : NewPriorityRequest) (s' : Storage)
    (data pubData : Bytes) (H : Hasher Fr) (r : OpSuccess) (state : ZkSyncState),
    ZkSyncPriorityOp.parseFromPriorityQueueLogs event.pubData event.opType.code event.sender =
      .ok (.Deposit ⟨5, 0, 3, 7⟩) ∧
    (ZkSyncState.fromAccMap H ∅ 0).executePriorityOp (.Deposit ⟨5, 0, 3, 7⟩) = .ok (r, state) ∧
    r.executedOp = .Deposit ⟨⟨5, 0, 3, 7⟩, 0⟩ ∧ ZkSyncOp.publicData r.executedOp = .ok data ∧
    bytesSlice data 1 53 = .ok pubData ∧ ReadsAs pubData r.executedOp ∧
    commitNextPriorityOperation .sample s' ⟨event.opType, pubData⟩ event.serialId = .ok () := by
  let governance : Governance := ⟨fun _ => false, fun _ => 0, fun _ => 0⟩
  let registered := registerDeposit ⟨5, 3, 100⟩ (.initialized 0) 0 (BitVec.ofNat 128 3) 7
  have hregister : register governance ⟨5, 3, 100⟩ (.initialized 0) (.depositETH 7) =
      .ok registered := rfl
  obtain ⟨hparse, hexecuted⟩ := request_roundTrip .sample governance ⟨5, 3, 100⟩ (.initialized 0)
    registered.1 registered.2 (.depositETH 7) hregister
  -- what the server executes for it
  let H : Hasher Fr := ⟨fun _ => 0, fun _ => 0, fun _ _ _ => 0⟩
  obtain ⟨r, state, hexecute, hop⟩ : ∃ r state,
      (ZkSyncState.fromAccMap H ∅ 0).executePriorityOp (.Deposit ⟨5, 0, 3, 7⟩) = .ok (r, state) ∧
        r.executedOp = .Deposit ⟨⟨5, 0, 3, 7⟩, 0⟩ := ⟨_, _, rfl, rfl⟩
  obtain ⟨data, hdata⟩ : ∃ data, ZkSyncOp.publicData r.executedOp = .ok data := by
    rw [hop]
    exact ⟨_, rfl⟩
  obtain ⟨pubData, hslice, hreads, haccepted⟩ := (hexecuted r.executedOp
    (executePriorityOp_executesFor hexecute)).2 data hdata data 0
      ⟨[], [], by rw [List.nil_append, List.append_nil], rfl⟩ registered.1 rfl
  exact ⟨registered.2, registered.1, data, pubData, H, r, state, hparse, hexecute, hop, hdata,
    hslice, hreads, haccepted⟩

end ZkSync.Contract
