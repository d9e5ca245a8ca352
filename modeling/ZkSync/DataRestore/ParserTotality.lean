import ZkSync.DataRestore.RollupOps

/-!
# Data that no block was written with

The restorer parses what it finds in calldata. The parsers of the operations check
the length of what they are given before they slice it, so they return an error for
whatever is malformed (`fromPublicData_noPanic`). The loop in front of them takes the
length of the next operation from its opcode and slices that much off the data
without asking whether it is there: data that ends inside an operation makes it panic,
and nothing else does (`parsing_returns_iff`).
-/

namespace ZkSync

open Bytes (slice)
open Outcome (NoPanic noPanic_ok noPanic_ensure noPanic_okOrElse noPanic_map
  noPanic_bind)

/-! ## The parsers of the operations -/

section Reads

variable {α β : Type} {bytes : Bytes} {start len : Nat} {message : String}

theorem noPanic_getRange (h : start + len ≤ bytes.length) : NoPanic (getRange bytes start len) := by
  rw [getRange_eq h]
  exact noPanic_ok _

/-- A field that lies within the bytes is read, or an error is returned. -/
theorem noPanic_read {read : Bytes → Option α} {next : α → Outcome β}
    (h : start + len ≤ bytes.length) (hnext : ∀ a, NoPanic (next a)) :
    NoPanic (getRange bytes start len >>= fun field =>
      Outcome.okOrElse (read field) message >>= next) := by
  refine noPanic_bind (noPanic_getRange h) fun field _ => ?_
  exact noPanic_bind (noPanic_okOrElse _ _) fun a _ => hnext a

/-- An address of twenty bytes is read. -/
theorem noPanic_readAddress {next : Address → Outcome β} (h : start + 20 ≤ bytes.length)
    (hnext : ∀ address, NoPanic (next address)) :
    NoPanic (getRange bytes start 20 >>= fun field => addressFromSlice field >>= next) := by
  rw [getRange_eq h, Outcome.ok_bind]
  refine noPanic_bind ?_ fun address _ => hnext address
  unfold addressFromSlice
  rw [Outcome.assert_ok _ (Bytes.length_slice h)]
  exact noPanic_ok _

/-- A key hash is read, or an error is returned. -/
theorem noPanic_readPubKeyHash {next : PubKeyHash → Outcome β} (h : start + len ≤ bytes.length)
    (hnext : ∀ hash, NoPanic (next hash)) :
    NoPanic (getRange bytes start len >>= fun field => pubKeyHashFromBytes field >>= next) := by
  refine noPanic_bind (noPanic_getRange h) fun field _ => ?_
  refine noPanic_bind ?_ fun hash _ => hnext hash
  exact noPanic_bind (noPanic_ensure _ _) fun _ _ => noPanic_ok _

end Reads

theorem DepositOp.fromPublicData_noPanic (bytes : Bytes) : NoPanic (fromPublicData bytes) := by
  refine noPanic_bind (noPanic_ensure _ _) fun _ hlen => ?_
  have hlen : bytes.length = 54 := Outcome.ensure_eq_ok.mp hlen
  refine noPanic_read (by simp [hlen]) fun accountId => ?_
  refine noPanic_read (by simp [hlen]) fun token => ?_
  refine noPanic_read (by simp [hlen]) fun amount => ?_
  exact noPanic_readAddress (by simp [hlen]) fun toAddress => noPanic_ok _

theorem TransferToNewOp.fromPublicData_noPanic (bytes : Bytes) :
    NoPanic (fromPublicData bytes) := by
  refine noPanic_bind (noPanic_ensure _ _) fun _ hlen => ?_
  have hlen : bytes.length = 54 := Outcome.ensure_eq_ok.mp hlen
  refine noPanic_read (by simp [hlen]) fun fromId => ?_
  refine noPanic_read (by simp [hlen]) fun toId => ?_
  refine noPanic_readAddress (by simp [hlen]) fun toAddress => ?_
  refine noPanic_read (by simp [hlen]) fun token => ?_
  refine noPanic_read (by simp [hlen]) fun amount => ?_
  exact noPanic_read (by simp [hlen]) fun fee => noPanic_ok _

theorem WithdrawOp.fromPublicData_noPanic (bytes : Bytes) : NoPanic (fromPublicData bytes) := by
  refine noPanic_bind (noPanic_ensure _ _) fun _ hlen => ?_
  have hlen : bytes.length = 54 := Outcome.ensure_eq_ok.mp hlen
  refine noPanic_read (by simp [hlen]) fun accountId => ?_
  refine noPanic_read (by simp [hlen]) fun token => ?_
  refine noPanic_readAddress (by simp [hlen]) fun toAddress => ?_
  refine noPanic_read (by simp [hlen]) fun amount => ?_
  exact noPanic_read (by simp [hlen]) fun fee => noPanic_ok _

theorem CloseOp.fromPublicData_noPanic (bytes : Bytes) : NoPanic (fromPublicData bytes) := by
  refine noPanic_bind (noPanic_ensure _ _) fun _ hlen => ?_
  have hlen : bytes.length = 9 := Outcome.ensure_eq_ok.mp hlen
  exact noPanic_read (by simp [hlen]) fun accountId => noPanic_ok _

theorem TransferOp.fromPublicData_noPanic (bytes : Bytes) : NoPanic (fromPublicData bytes) := by
  refine noPanic_bind (noPanic_ensure _ _) fun _ hlen => ?_
  have hlen : bytes.length = 18 := Outcome.ensure_eq_ok.mp hlen
  refine noPanic_read (by simp [hlen]) fun token => ?_
  refine noPanic_read (by simp [hlen]) fun amount => ?_
  refine noPanic_read (by simp [hlen]) fun fee => ?_
  refine noPanic_read (by simp [hlen]) fun fromId => ?_
  exact noPanic_read (by simp [hlen]) fun toId => noPanic_ok _

theorem FullExitOp.fromPublicData_noPanic (bytes : Bytes) : NoPanic (fromPublicData bytes) := by
  refine noPanic_bind (noPanic_ensure _ _) fun _ hlen => ?_
  have hlen : bytes.length = 54 := Outcome.ensure_eq_ok.mp hlen
  refine noPanic_read (by simp [hlen]) fun accountId => ?_
  refine noPanic_readAddress (by simp [hlen]) fun ethAddress => ?_
  refine noPanic_read (by simp [hlen]) fun token => ?_
  exact noPanic_read (by simp [hlen]) fun amount => noPanic_ok _

theorem ChangePubKeyOp.fromPublicData_noPanic (bytes : Bytes) :
    NoPanic (fromPublicData bytes) := by
  refine noPanic_bind (noPanic_ensure _ _) fun _ hlen => ?_
  have hlen : bytes.length ≥ 53 := Outcome.ensure_eq_ok.mp hlen
  refine noPanic_read (by simp; omega) fun accountId => ?_
  refine noPanic_readPubKeyHash (by simp; omega) fun newPkHash => ?_
  refine noPanic_readAddress (by simp; omega) fun account => ?_
  refine noPanic_read (by simp; omega) fun nonce => ?_
  refine noPanic_read (by simp; omega) fun feeToken => ?_
  exact noPanic_read (by simp; omega) fun fee => noPanic_ok _

theorem ForcedExitOp.fromPublicData_noPanic (bytes : Bytes) : NoPanic (fromPublicData bytes) := by
  refine noPanic_bind (noPanic_ensure _ _) fun _ hlen => ?_
  have hlen : bytes.length = 54 := Outcome.ensure_eq_ok.mp hlen
  refine noPanic_read (by simp [hlen]) fun initiatorAccountId => ?_
  refine noPanic_read (by simp [hlen]) fun targetAccountId => ?_
  refine noPanic_read (by simp [hlen]) fun token => ?_
  refine noPanic_read (by simp [hlen]) fun amount => ?_
  refine noPanic_read (by simp [hlen]) fun fee => ?_
  exact noPanic_readAddress (by simp [hlen]) fun target => noPanic_ok _

/-- Whatever it is given, the parser of operations returns one or an error. -/
theorem ZkSyncOp.fromPublicData_noPanic (bytes : Bytes) : NoPanic (fromPublicData bytes) := by
  refine noPanic_bind (noPanic_okOrElse _ _) fun opType _ => ?_
  split
  next => exact noPanic_map (noPanic_ensure _ _)
  split
  next => exact noPanic_map (DepositOp.fromPublicData_noPanic bytes)
  split
  next => exact noPanic_map (TransferToNewOp.fromPublicData_noPanic bytes)
  split
  next => exact noPanic_map (WithdrawOp.fromPublicData_noPanic bytes)
  split
  next => exact noPanic_map (CloseOp.fromPublicData_noPanic bytes)
  split
  next => exact noPanic_map (TransferOp.fromPublicData_noPanic bytes)
  split
  next => exact noPanic_map (FullExitOp.fromPublicData_noPanic bytes)
  split
  next => exact noPanic_map (ChangePubKeyOp.fromPublicData_noPanic bytes)
  split
  next => exact noPanic_map (ForcedExitOp.fromPublicData_noPanic bytes)
  next => exact fun _ h => by cases h

theorem ZkSyncOp.publicDataLength_noPanic (opType : UInt8) : NoPanic (publicDataLength opType) := by
  refine noPanic_map ?_
  repeat' split
  all_goals exact fun _ h => by cases h

/-! ## The loop -/

/-- The data is the operations, each as long as its opcode says, and nothing else. -/
inductive Covers : Bytes → List ZkSyncOp → Prop
  | nil : Covers [] []
  | cons {piece rest : Bytes} {opType : UInt8} {op : ZkSyncOp} {ops : List ZkSyncOp} :
      piece.head? = some opType → ZkSyncOp.publicDataLength opType = .ok piece.length →
      ZkSyncOp.fromPublicData piece = .ok op → Covers rest ops → Covers (piece ++ rest) (op :: ops)

/-- The data starts with an opcode whose operation is longer than the data. -/
def TooShort (data : Bytes) : Prop :=
  ∃ opType size, data.head? = some opType ∧ ZkSyncOp.publicDataLength opType = .ok size ∧
    data.length < size

/-- Behind some operations, the data ends inside the next one. -/
def CutShort (data : Bytes) : Prop :=
  ∃ front ops rest, data = front ++ rest ∧ Covers front ops ∧ TooShort rest

section Loop

variable {front rest : Bytes} {opType : UInt8} {size : Nat}

/-- A round of the loop reads the opcode. -/
theorem rollupOpsLoop_length_error {e : Failure} (hhead : rest.head? = some opType)
    (hsize : ZkSyncOp.publicDataLength opType = .error e) :
    rollupOpsLoop (front ++ rest) front.length = .error e := by
  cases rest with
  | nil => cases hhead
  | cons first tail =>
    obtain rfl : first = opType := Option.some.inj hhead
    have hin : front.length < (front ++ first :: tail).length := by
      rw [List.length_append, List.length_cons]
      omega
    have hfirst : (front ++ first :: tail)[front.length] = first := by
      rw [List.getElem_append_right (Nat.le_refl _)]
      simp
    rw [rollupOpsLoop, dif_pos hin]
    dsimp only
    rw [hfirst]
    split
    next e' h =>
      rw [hsize] at h
      rw [Except.error.inj h]
    next size h =>
      rw [hsize] at h
      cases h

/-- It slices the operation off the data, and goes on behind it. -/
theorem rollupOpsLoop_length_ok (hhead : rest.head? = some opType)
    (hsize : ZkSyncOp.publicDataLength opType = .ok size) :
    rollupOpsLoop (front ++ rest) front.length = (do
      Outcome.assert (front.length + size ≤ (front ++ rest).length)
        "range end index out of range for slice"
      let op ← ZkSyncOp.fromPublicData (rest.take size)
      let ops ← rollupOpsLoop (front ++ rest) (front.length + size)
      return op :: ops) := by
  cases rest with
  | nil => cases hhead
  | cons first tail =>
    obtain rfl : first = opType := Option.some.inj hhead
    have hin : front.length < (front ++ first :: tail).length := by
      rw [List.length_append, List.length_cons]
      omega
    have hslice : slice (front ++ first :: tail) front.length size = (first :: tail).take size := by
      rw [Bytes.slice_append_skip (Nat.le_refl _), Nat.sub_self, slice, List.drop_zero]
    have hfirst : (front ++ first :: tail)[front.length] = first := by
      rw [List.getElem_append_right (Nat.le_refl _)]
      simp
    rw [rollupOpsLoop, dif_pos hin]
    dsimp only
    rw [hfirst]
    split
    next e h =>
      rw [hsize] at h
      cases h
    next size' h =>
      rw [hsize] at h
      obtain rfl := Except.ok.inj h
      rw [hslice]

/-- The data of the operation is in front of the pointer afterwards. -/
theorem rollupOpsLoop_behind (hle : size ≤ rest.length) :
    rollupOpsLoop (front ++ rest) (front.length + size) =
      rollupOpsLoop ((front ++ rest.take size) ++ rest.drop size)
        (front ++ rest.take size).length := by
  rw [List.append_assoc, List.take_append_drop, List.length_append, List.length_take,
    Nat.min_eq_left hle]

end Loop

/-- What the loop returns covers the data behind the pointer; it panics only if that is cut
short. -/
theorem rollupOpsLoop_spec (front rest : Bytes) :
    (∀ ops, rollupOpsLoop (front ++ rest) front.length = .ok ops → Covers rest ops) ∧
      (∀ message, rollupOpsLoop (front ++ rest) front.length = .error (.panic message) →
        CutShort rest) := by
  -- induction on what is left: every round takes one chunk at least
  induction hlen : rest.length using Nat.strong_induction_on generalizing front rest with
  | _ len ih =>
  subst hlen
  rcases hhead : rest.head? with _ | opType
  · obtain rfl := List.head?_eq_none_iff.mp hhead
    rw [List.append_nil, rollupOpsLoop_end]
    exact ⟨fun ops h => (by cases h; exact .nil), fun message h => (by cases h)⟩
  -- the opcode is unknown, or says how long the operation is
  · rcases hsize : ZkSyncOp.publicDataLength opType with e | size
    · rw [rollupOpsLoop_length_error hhead hsize]
      refine ⟨fun ops h => (by cases h), fun message h => ?_⟩
      obtain rfl := Except.error.inj h
      exact absurd hsize (ZkSyncOp.publicDataLength_noPanic opType message)
    · by_cases hle : size ≤ rest.length
      · have hpos := publicDataLength_pos hsize
        have hin : front.length + size ≤ (front ++ rest).length := by
          rw [List.length_append]
          omega
        have hpiece : (rest.take size).length = size := by
          rw [List.length_take, Nat.min_eq_left hle]
        have hheadPiece : (rest.take size).head? = some opType := by
          rw [← hhead, List.head?_take, if_neg (by omega)]
        have hdrop : (rest.drop size).length < rest.length := by
          rw [List.length_drop]
          omega
        obtain ⟨hok, hpanic⟩ := ih _ hdrop (front ++ rest.take size) (rest.drop size) rfl
        rw [rollupOpsLoop_length_ok hhead hsize, Outcome.assert_ok _ hin, Outcome.ok_bind,
          rollupOpsLoop_behind hle]
        constructor
        · intro ops h
          obtain ⟨op, hop, h⟩ := Outcome.bind_eq_ok.mp h
          obtain ⟨ops', hops', h⟩ := Outcome.bind_eq_ok.mp h
          obtain rfl := Except.ok.inj h
          have hcovers := Covers.cons hheadPiece (by rw [hpiece, hsize]) hop (hok ops' hops')
          rwa [List.take_append_drop] at hcovers
        · intro message h
          rcases Outcome.bind_eq_error.mp h with h | ⟨op, hop, h⟩
          · exact absurd h (ZkSyncOp.fromPublicData_noPanic _ message)
          rcases Outcome.bind_eq_error.mp h with h | ⟨ops', -, h⟩
          · obtain ⟨front', ops, rest', hsplit, hcovers, hshort⟩ := hpanic message h
            refine ⟨rest.take size ++ front', op :: ops, rest', ?_, ?_, hshort⟩
            · rw [List.append_assoc, ← hsplit, List.take_append_drop]
            · exact .cons hheadPiece (by rw [hpiece, hsize]) hop hcovers
          · cases h
      · -- The slice goes past the end.
        have hout : ¬ front.length + size ≤ (front ++ rest).length := by
          rw [List.length_append]
          omega
        refine ⟨fun ops h => ?_, fun message _ => ?_⟩
        · rw [rollupOpsLoop_length_ok hhead hsize] at h
          obtain ⟨u, hu, -⟩ := Outcome.bind_eq_ok.mp h
          exact absurd (Outcome.assert_eq_ok.mp hu) hout
        · exact ⟨[], [], rest, rfl, .nil, opType, size, hhead, hsize, Nat.lt_of_not_le hle⟩

/-- Behind operations that parse, the loop panics where the data ends inside the next. -/
theorem rollupOpsLoop_panic {data rest : Bytes} {ops : List ZkSyncOp} (h : Covers data ops)
    (hshort : TooShort rest) (front : Bytes) :
    ∃ message, rollupOpsLoop (front ++ (data ++ rest)) front.length = .error (.panic message) := by
  induction h generalizing front with
  | nil =>
    obtain ⟨opType, size, hhead, hsize, hlt⟩ := hshort
    have hout : ¬ front.length + size ≤ (front ++ rest).length := by
      rw [List.length_append]
      omega
    refine ⟨"range end index out of range for slice", ?_⟩
    rw [List.nil_append, rollupOpsLoop_length_ok hhead hsize, Outcome.assert, if_neg hout]
    rfl
  | @cons piece data opType op ops hhead hsize hop _ ih =>
    have hheadAll : (piece ++ data ++ rest).head? = some opType := by
      rw [List.append_assoc, List.head?_append, hhead]
      rfl
    have hin : front.length + piece.length ≤ (front ++ (piece ++ data ++ rest)).length := by
      rw [List.length_append, List.length_append, List.length_append]
      omega
    have htake : (piece ++ data ++ rest).take piece.length = piece := by
      rw [List.append_assoc, List.take_left]
    have hdrop : (piece ++ data ++ rest).drop piece.length = data ++ rest := by
      rw [List.append_assoc, List.drop_left]
    have hle : piece.length ≤ (piece ++ data ++ rest).length := by
      rw [List.length_append, List.length_append]
      omega
    obtain ⟨message, hmessage⟩ := ih (front ++ piece)
    refine ⟨message, ?_⟩
    rw [rollupOpsLoop_length_ok hheadAll hsize, Outcome.assert_ok _ hin, Outcome.ok_bind,
      rollupOpsLoop_behind hle, htake, hdrop, hop, Outcome.ok_bind, hmessage]
    rfl

/-! ## Parsing returns -/

/-- The parser returns: the operations cover the data, or it is an error. -/
def ParsingReturns (data : Bytes) : Prop :=
  (∃ ops, getRollupOpsFromData data = .ok ops ∧ Covers data ops) ∨
    ∃ message, getRollupOpsFromData data = .error (.error message)

theorem CutShort.not_returns {data : Bytes} (h : CutShort data) : ¬ ParsingReturns data := by
  obtain ⟨front, ops, rest, rfl, hcovers, hshort⟩ := h
  obtain ⟨message, hpanic⟩ := rollupOpsLoop_panic hcovers hshort []
  have hpanic : getRollupOpsFromData (front ++ rest) = .error (.panic message) := hpanic
  rintro (⟨ops', hops', -⟩ | ⟨message', herror⟩)
  · rw [hpanic] at hops'
    cases hops'
  · rw [hpanic] at herror
    cases herror

/-- It returns for all data that does not end inside an operation. -/
theorem parsing_returns_iff (data : Bytes) : ParsingReturns data ↔ ¬ CutShort data := by
  refine ⟨fun h hcut => hcut.not_returns h, fun hnot => ?_⟩
  obtain ⟨hok, hpanic⟩ := rollupOpsLoop_spec [] data
  rcases hresult : getRollupOpsFromData data with failure | ops
  · cases failure with
    | error message => exact Or.inr ⟨message, hresult⟩
    | panic message => exact absurd (hpanic message hresult) hnot
  · exact Or.inl ⟨ops, hresult, hok ops hresult⟩

/-- A deposit of which only the opcode is there. -/
theorem parsing_panics : ¬ ParsingReturns [0x01] :=
  CutShort.not_returns ⟨[], [], [0x01], rfl, .nil, 0x01, 54, rfl, rfl, by decide⟩

end ZkSync
