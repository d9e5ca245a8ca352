import ZkSync.Contract.Storage
import ZkSync.Lib.Run

/-!
# Upgrades

`UpgradeGatekeeper.sol` and the part of `Proxy.sol` that it calls. A list of new
targets is announced, a notice period passes, the upgrade is prepared and
finished, or canceled before that. `upgrades_announced` is the guarantee to the
users: what is installed was announced, and the period passed since.

What holds the guarantee together is one invariant over histories (`InUpgrade`):
while the gatekeeper is not idle, its history ends in the announcement of exactly
its `nextTargets`, and nothing after it has started, canceled or finished. Once
the upgrade is prepared, some call of the history came after the end of the
period.

The main contract decides on the notice period and may revert any call; its
answers are part of a transaction here. So is whether the code of a new target
accepts the upgrade. Neither the main contract nor a proxy is the master of the
gatekeeper, so that a call back reverts, and the code of a target does not write
the slot that holds it.
-/

namespace ZkSync.Contract

/-! ## The contracts -/

/-- Where an upgrade stands. -/
inductive UpgradeStatus where
  | Idle
  | NoticePeriod
  | Preparation
  deriving DecidableEq

/-- The contract that may upgrade the others. -/
structure UpgradeGatekeeper where
  /-- `Ownable`. -/
  master : Address
  managedContracts : List Address
  upgradeStatus : UpgradeStatus
  noticePeriodFinishTimestamp : BitVec 256
  nextTargets : List Address
  versionId : BitVec 256
  deriving DecidableEq

/-- A contract that can be upgraded, and who may do so. -/
structure Proxy where
  master : Address
  target : Address
  deriving DecidableEq

/-- The sender of a call, and the time of its block. -/
structure UpgradeMsg where
  sender : Address
  now : BitVec 256

/-- What other contracts answer during a call. -/
structure UpgradeReplies where
  /-- `mainContract.getNoticePeriod()`. -/
  noticePeriod : BitVec 256
  isReadyForUpgrade : Bool
  /-- No call to the main contract reverts. -/
  mainContractSuccess : Bool
  /-- The delegated call of `upgrade` succeeds, at each index. -/
  upgradeSuccess : Nat → Bool

/-- `SafeMath.add` of `uint256`s. -/
def safeAdd256 (a b : BitVec 256) : Sol (BitVec 256) := do
  let c := a + b
  require (a ≤ c) "SafeMath: addition overflow"
  return c

/-- `array[i]`; an index out of bounds reverts. -/
def elementAt {α : Type} (array : List α) (i : Nat) : Sol α :=
  match array[i]? with
  | some a => .ok a
  | none => .error ""

/-- `Proxy.upgradeTarget`, called by `sender`. -/
def Proxy.upgradeTarget (p : Proxy) (sender newTarget : Address) (upgradeSuccess : Bool) :
    Sol Proxy := do
  require (sender = p.master) "oro11"
  require (upgradeSuccess = true) "ufu11"
  return { p with target := newTarget }

namespace UpgradeGatekeeper

/-- The constructor; the sender becomes the master. -/
def deployed (sender : Address) : UpgradeGatekeeper where
  master := sender
  managedContracts := []
  upgradeStatus := .Idle
  noticePeriodFinishTimestamp := 0
  nextTargets := []
  versionId := 0

variable (g : UpgradeGatekeeper) (msg : UpgradeMsg) (replies : UpgradeReplies)

/-- Only the master decides about upgrades. -/
def requireMaster : Sol Unit := require (msg.sender = g.master) "oro11"

def transferMastership (newMaster : Address) : Sol UpgradeGatekeeper := do
  g.requireMaster msg
  require (newMaster ≠ 0) "otp11"
  return { g with master := newMaster }

/-- The contracts are listed in the order in which they join. -/
def addUpgradeable (addr : Address) : Sol UpgradeGatekeeper := do
  g.requireMaster msg
  require (g.upgradeStatus = .Idle) "apc11"
  return { g with managedContracts := g.managedContracts ++ [addr] }

/-- The notice period begins. -/
def startUpgrade (newTargets : List Address) : Sol UpgradeGatekeeper := do
  g.requireMaster msg
  require (g.upgradeStatus = .Idle) "spu11"
  require (newTargets.length = g.managedContracts.length) "spu12"
  require (replies.mainContractSuccess = true) ""
  let noticePeriodFinishTimestamp ← safeAdd256 msg.now replies.noticePeriod
  return { g with
    upgradeStatus := .NoticePeriod
    noticePeriodFinishTimestamp := noticePeriodFinishTimestamp
    nextTargets := newTargets }

/-- An upgrade can be called off until it is finished. -/
def cancelUpgrade : Sol UpgradeGatekeeper := do
  g.requireMaster msg
  require (g.upgradeStatus ≠ .Idle) "cpu11"
  require (replies.mainContractSuccess = true) ""
  return { g with upgradeStatus := .Idle, noticePeriodFinishTimestamp := 0, nextTargets := [] }

/-- With the flag it returns. -/
def startPreparation : Sol (Bool × UpgradeGatekeeper) := do
  g.requireMaster msg
  require (g.upgradeStatus = .NoticePeriod) "ugp11"
  if g.noticePeriodFinishTimestamp ≤ msg.now then
    require (replies.mainContractSuccess = true) ""
    return (true, { g with upgradeStatus := .Preparation })
  else
    return (false, g)

/-- The loop of `finishUpgrade`, from index `i` on, over the contracts that are left. -/
def upgradeContracts (self : Address) (targetsUpgradeParameters : List Bytes) :
    Nat → List Address → (Address → Proxy) → Sol (Address → Proxy)
  | _, [], proxies => return proxies
  | i, contract :: contracts, proxies => do
    let newTarget ← elementAt g.nextTargets i
    if newTarget ≠ 0 then
      let _ ← elementAt targetsUpgradeParameters i
      let proxy ← (proxies contract).upgradeTarget self newTarget (replies.upgradeSuccess i)
      upgradeContracts self targetsUpgradeParameters (i + 1) contracts
        (Function.update proxies contract proxy)
    else
      upgradeContracts self targetsUpgradeParameters (i + 1) contracts proxies

/-- The loop variable is a `uint64`: from `2 ^ 64` contracts on it would not end. -/
def finishUpgrade (self : Address) (targetsUpgradeParameters : List Bytes)
    (proxies : Address → Proxy) : Sol (UpgradeGatekeeper × (Address → Proxy)) := do
  g.requireMaster msg
  require (g.upgradeStatus = .Preparation) "fpu11"
  require (targetsUpgradeParameters.length = g.managedContracts.length) "fpu12"
  require (replies.mainContractSuccess = true) ""
  require (replies.isReadyForUpgrade = true) "fpu13"
  require (g.managedContracts.length < 2 ^ 64) ""
  let proxies ← g.upgradeContracts replies self targetsUpgradeParameters 0 g.managedContracts
    proxies
  return ({ g with
    versionId := g.versionId + 1
    upgradeStatus := .Idle
    noticePeriodFinishTimestamp := 0
    nextTargets := [] }, proxies)

end UpgradeGatekeeper

/-! ## Histories -/

/-- What can be called. -/
inductive UpgradeCall where
  | transferMastership (newMaster : Address)
  | addUpgradeable (addr : Address)
  | startUpgrade (newTargets : List Address)
  | cancelUpgrade
  | startPreparation
  | finishUpgrade (targetsUpgradeParameters : List Bytes)

/-- A call, with its sender, its time and the answers of other contracts. -/
structure UpgradeTx where
  msg : UpgradeMsg
  call : UpgradeCall
  replies : UpgradeReplies

/-- The gatekeeper and the proxies. -/
structure UpgradeState where
  gatekeeper : UpgradeGatekeeper
  proxies : Address → Proxy

/-- A transaction to the gatekeeper, which is at the address `self`. -/
def UpgradeState.exec (self : Address) (s : UpgradeState) (tx : UpgradeTx) : Sol UpgradeState :=
  let g := s.gatekeeper
  match tx.call with
  | .transferMastership newMaster =>
    return { s with gatekeeper := ← g.transferMastership tx.msg newMaster }
  | .addUpgradeable addr => return { s with gatekeeper := ← g.addUpgradeable tx.msg addr }
  | .startUpgrade newTargets =>
    return { s with gatekeeper := ← g.startUpgrade tx.msg tx.replies newTargets }
  | .cancelUpgrade => return { s with gatekeeper := ← g.cancelUpgrade tx.msg tx.replies }
  | .startPreparation => do
    let (_, g) ← g.startPreparation tx.msg tx.replies
    return { s with gatekeeper := g }
  | .finishUpgrade targetsUpgradeParameters => do
    let (g, proxies) ← g.finishUpgrade tx.msg tx.replies self targetsUpgradeParameters s.proxies
    return ⟨g, proxies⟩

/-- A transaction, and whether it went through; one that reverts changes nothing. -/
inductive UpgradeStep (self : Address) : UpgradeState → UpgradeTx × Bool → UpgradeState → Prop
  | done {s s' : UpgradeState} {tx : UpgradeTx} (h : s.exec self tx = .ok s') :
      UpgradeStep self s (tx, true) s'
  | reverted {s : UpgradeState} {tx : UpgradeTx} {reason : String}
      (h : s.exec self tx = .error reason) : UpgradeStep self s (tx, false) s

/-! ## What the calls do -/

section Calls

variable {self : Address} {g g' : UpgradeGatekeeper} {msg : UpgradeMsg} {replies : UpgradeReplies}
  {s s' : UpgradeState}

/-- Checked addition gives the sum. -/
theorem safeAdd256_eq_ok {a b c : BitVec 256} (h : safeAdd256 a b = .ok c) :
    c.toNat = a.toNat + b.toNat := by
  obtain ⟨_, hle, h⟩ := Outcome.bind_eq_ok.mp h
  cases h
  have hle := BitVec.le_def.mp (require_eq_ok.mp hle)
  have ha := a.isLt
  have hb := b.isLt
  rw [BitVec.toNat_add] at hle ⊢
  omega

/-- An access within the array. -/
theorem elementAt_eq_ok {α : Type} {array : List α} {i : Nat} {a : α} :
    elementAt array i = .ok a ↔ array[i]? = some a := by
  unfold elementAt
  split
  next b hb => rw [hb, Except.ok.injEq, Option.some.injEq]
  next hnone =>
    rw [hnone]
    exact ⟨fun h => (by cases h), fun h => (by cases h)⟩

/-- An upgrade starts from idle, and tells when it may be finished. -/
theorem startUpgrade_eq_ok {newTargets : List Address}
    (h : g.startUpgrade msg replies newTargets = .ok g') :
    g.upgradeStatus = .Idle ∧ newTargets.length = g.managedContracts.length ∧
      ∃ finish : BitVec 256, finish.toNat = msg.now.toNat + replies.noticePeriod.toNat ∧
        g' = { g with
          upgradeStatus := .NoticePeriod
          noticePeriodFinishTimestamp := finish
          nextTargets := newTargets } := by
  simp only [UpgradeGatekeeper.startUpgrade, UpgradeGatekeeper.requireMaster, Outcome.bind_eq_ok,
    require_eq_ok, Outcome.pure_eq, Except.ok.injEq, exists_const] at h
  obtain ⟨-, hidle, hlength, -, finish, hadd, rfl⟩ := h
  exact ⟨hidle, hlength, finish, safeAdd256_eq_ok hadd, rfl⟩

/-- Behind it nothing of the upgrade is left. -/
theorem cancelUpgrade_eq_ok (h : g.cancelUpgrade msg replies = .ok g') :
    g' = { g with upgradeStatus := .Idle, noticePeriodFinishTimestamp := 0, nextTargets := [] } := by
  simp only [UpgradeGatekeeper.cancelUpgrade, UpgradeGatekeeper.requireMaster, Outcome.bind_eq_ok,
    require_eq_ok, Outcome.pure_eq, Except.ok.injEq, exists_const] at h
  exact h.2.2.2.symm

/-- The preparation only begins behind the notice period. -/
theorem startPreparation_eq_ok {activated : Bool}
    (h : g.startPreparation msg replies = .ok (activated, g')) :
    g.upgradeStatus = .NoticePeriod ∧
      (g.noticePeriodFinishTimestamp ≤ msg.now ∧ g' = { g with upgradeStatus := .Preparation } ∨
        g' = g) := by
  simp only [UpgradeGatekeeper.startPreparation, UpgradeGatekeeper.requireMaster,
    Outcome.bind_eq_ok, require_eq_ok, exists_const] at h
  obtain ⟨-, hnotice, h⟩ := h
  refine ⟨hnotice, ?_⟩
  split at h
  next hle =>
    simp only [Outcome.bind_eq_ok, require_eq_ok, exists_const, Outcome.pure_eq, Except.ok.injEq,
      Prod.mk.injEq] at h
    exact Or.inl ⟨hle, h.2.2.symm⟩
  next =>
    cases h
    exact Or.inr rfl

/-- The targets change behind the preparation, and only if the contract agrees. -/
theorem finishUpgrade_eq_ok {parameters : List Bytes} {proxies proxies' : Address → Proxy}
    (h : g.finishUpgrade msg replies self parameters proxies = .ok (g', proxies')) :
    g.upgradeStatus = .Preparation ∧ g'.upgradeStatus = .Idle ∧
      g.upgradeContracts replies self parameters 0 g.managedContracts proxies = .ok proxies' := by
  simp only [UpgradeGatekeeper.finishUpgrade, UpgradeGatekeeper.requireMaster, Outcome.bind_eq_ok,
    require_eq_ok, Outcome.pure_eq, Except.ok.injEq, exists_const, Prod.mk.injEq] at h
  obtain ⟨-, hprepared, -, -, -, -, _, hloop, rfl, rfl⟩ := h
  exact ⟨hprepared, rfl, hloop⟩

/-- A proxy gets its new target. -/
theorem upgradeTarget_eq_ok {p p' : Proxy} {sender newTarget : Address} {upgradeSuccess : Bool}
    (h : p.upgradeTarget sender newTarget upgradeSuccess = .ok p') :
    p' = { p with target := newTarget } := by
  simp only [Proxy.upgradeTarget, Outcome.bind_eq_ok, require_eq_ok, Outcome.pure_eq,
    Except.ok.injEq, exists_const] at h
  exact h.2.2.symm

/-- The rest of the loop leaves a proxy alone for which it has zero targets only. -/
theorem upgradeContracts_unchanged {parameters : List Bytes} {address : Address} :
    ∀ (contracts : List Address) (i : Nat) (proxies proxies' : Address → Proxy),
      g.upgradeContracts replies self parameters i contracts proxies = .ok proxies' →
      (∀ j, contracts[j]? = some address → g.nextTargets[i + j]? = some 0) →
      proxies' address = proxies address := by
  intro contracts
  induction contracts with
  | nil =>
    intro i proxies proxies' h _
    cases h
    rfl
  | cons contract contracts ih =>
    intro i proxies proxies' h hzero
    have hrest : ∀ j, contracts[j]? = some address → g.nextTargets[i + 1 + j]? = some 0 := by
      intro j hj
      have hj' := hzero (j + 1) hj
      rwa [show i + (j + 1) = i + 1 + j by omega] at hj'
    unfold UpgradeGatekeeper.upgradeContracts at h
    rw [Outcome.bind_eq_ok] at h
    obtain ⟨newTarget, htarget, h⟩ := h
    split at h
    next hne =>
      simp only [Outcome.bind_eq_ok] at h
      obtain ⟨_, -, proxy, -, h⟩ := h
      rw [ih _ _ _ h hrest]
      refine Function.update_of_ne ?_ _ _
      rintro rfl
      have h0 := hzero 0 rfl
      rw [Nat.add_zero] at h0
      rw [elementAt_eq_ok, h0] at htarget
      exact hne (Option.some.inj htarget).symm
    next => exact ih _ _ _ h hrest

/-- A proxy gets the target at its index, if it has no other target behind it. -/
theorem upgradeContracts_target {parameters : List Bytes} {address target : Address}
    (hne : target ≠ 0) :
    ∀ (contracts : List Address) (i : Nat) (proxies proxies' : Address → Proxy),
      g.upgradeContracts replies self parameters i contracts proxies = .ok proxies' →
      ∀ j, contracts[j]? = some address → g.nextTargets[i + j]? = some target →
        (∀ j' > j, contracts[j']? = some address → g.nextTargets[i + j']? = some 0) →
        (proxies' address).target = target := by
  intro contracts
  -- induction on the contracts that are left
  induction contracts with
  | nil => exact fun i proxies proxies' _ j hj => by cases hj
  | cons contract contracts ih =>
    intro i proxies proxies' h j hj htarget hlast
    unfold UpgradeGatekeeper.upgradeContracts at h
    rw [Outcome.bind_eq_ok] at h
    obtain ⟨newTarget, hnew, h⟩ := h
    have hshift : ∀ j, i + (j + 1) = i + 1 + j := fun j => by omega
    cases j with
    | zero =>
      obtain rfl : contract = address := Option.some.inj hj
      rw [Nat.add_zero] at htarget
      rw [elementAt_eq_ok, htarget] at hnew
      obtain rfl := Option.some.inj hnew
      rw [if_pos hne] at h
      simp only [Outcome.bind_eq_ok] at h
      obtain ⟨_, -, proxy, hproxy, h⟩ := h
      have hrest : ∀ j, contracts[j]? = some contract → g.nextTargets[i + 1 + j]? = some 0 := by
        intro j hj
        rw [← hshift]
        exact hlast (j + 1) (Nat.succ_pos j) hj
      rw [upgradeContracts_unchanged _ _ _ _ h hrest, Function.update_self,
        upgradeTarget_eq_ok hproxy]
    | succ j =>
      have htarget' : g.nextTargets[i + 1 + j]? = some target := hshift j ▸ htarget
      have hlast' : ∀ j' > j, contracts[j']? = some address →
          g.nextTargets[i + 1 + j']? = some 0 := by
        intro j' hgt hj'
        rw [← hshift]
        exact hlast (j' + 1) (Nat.succ_lt_succ hgt) hj'
      split at h
      next =>
        simp only [Outcome.bind_eq_ok] at h
        obtain ⟨_, -, proxy, -, h⟩ := h
        exact ih _ _ _ h j hj htarget' hlast'
      next => exact ih _ _ _ h j hj htarget' hlast'

end Calls

/-! ## The announcement of an upgrade -/

/-- A call that, if it goes through, starts, cancels or finishes an upgrade. -/
def UpgradeCall.ChangesTargets : UpgradeCall → Prop
  | .startUpgrade _ => True
  | .cancelUpgrade => True
  | .finishUpgrade _ => True
  | _ => False

/-- The targets were announced, with a notice period that ends at `finish`, and no
upgrade was started, canceled or finished since. -/
def AnnouncedIn (tr : List (UpgradeTx × Bool)) (targets : List Address) (finish : Nat) : Prop :=
  ∃ before tx between, tr = before ++ (tx, true) :: between ∧ tx.call = .startUpgrade targets ∧
    tx.msg.now.toNat + tx.replies.noticePeriod.toNat = finish ∧
    ∀ e ∈ between, e.2 = true → ¬ e.1.call.ChangesTargets

/-- What holds after a history while an upgrade is under way. -/
structure InUpgrade (tr : List (UpgradeTx × Bool)) (g : UpgradeGatekeeper) : Prop where
  announced : AnnouncedIn tr g.nextTargets g.noticePeriodFinishTimestamp.toNat
  lengths : g.nextTargets.length = g.managedContracts.length
  ended : g.upgradeStatus = .Preparation →
    ∃ e ∈ tr, g.noticePeriodFinishTimestamp.toNat ≤ e.1.msg.now.toNat

section Histories

variable {self : Address} {g g' : UpgradeGatekeeper} {s s' : UpgradeState}
  {tr : List (UpgradeTx × Bool)}

/-- An announcement stays one while nothing is finished. -/
theorem AnnouncedIn.append {targets : List Address} {finish : Nat}
    (h : AnnouncedIn tr targets finish) {e : UpgradeTx × Bool}
    (he : e.2 = true → ¬ e.1.call.ChangesTargets) : AnnouncedIn (tr ++ [e]) targets finish := by
  obtain ⟨before, tx, between, rfl, hcall, hfinish, hbetween⟩ := h
  refine ⟨before, tx, between ++ [e], by rw [List.append_assoc]; rfl, hcall, hfinish, fun e' he' => ?_⟩
  rcases List.mem_append.mp he' with he' | he'
  · exact hbetween e' he'
  · rw [List.mem_singleton.mp he']
    exact he

/-- What the next event leaves alone. -/
theorem InUpgrade.append (h : InUpgrade tr g) {e : UpgradeTx × Bool}
    (he : e.2 = true → ¬ e.1.call.ChangesTargets) : InUpgrade (tr ++ [e]) g where
  announced := h.announced.append he
  lengths := h.lengths
  ended := fun hprepared => by
    obtain ⟨e', hmem, hle⟩ := h.ended hprepared
    exact ⟨e', List.mem_append_left _ hmem, hle⟩

/-- The invariant of a history: an upgrade is under way, or the gatekeeper is idle. -/
theorem inUpgrade_step {e : UpgradeTx × Bool}
    (h : s.gatekeeper.upgradeStatus ≠ .Idle → InUpgrade tr s.gatekeeper)
    (hstep : UpgradeStep self s e s') :
    s'.gatekeeper.upgradeStatus ≠ .Idle → InUpgrade (tr ++ [e]) s'.gatekeeper := by
  cases hstep with
  | reverted =>
    exact fun hbusy => (h hbusy).append fun hdone => by cases hdone
  | @done _ tx hexec =>
    -- a call that went through: what it did to the status decides
    obtain ⟨msg, call, replies⟩ := tx
    unfold UpgradeState.exec at hexec
    dsimp only at hexec
    cases call with
    | transferMastership newMaster =>
      simp only [UpgradeGatekeeper.transferMastership, UpgradeGatekeeper.requireMaster,
        Outcome.bind_eq_ok, require_eq_ok, Outcome.pure_eq, Except.ok.injEq, exists_const] at hexec
      obtain ⟨_, ⟨-, -, rfl⟩, rfl⟩ := hexec
      intro hbusy
      have hin := (h hbusy).append (e := (⟨msg, .transferMastership newMaster, replies⟩, true))
        fun _ hc => hc
      exact ⟨hin.1, hin.2, hin.3⟩
    | addUpgradeable addr =>
      simp only [UpgradeGatekeeper.addUpgradeable, UpgradeGatekeeper.requireMaster,
        Outcome.bind_eq_ok, require_eq_ok, Outcome.pure_eq, Except.ok.injEq, exists_const] at hexec
      obtain ⟨_, ⟨-, hidle, rfl⟩, rfl⟩ := hexec
      exact fun hbusy => absurd hidle hbusy
    | startUpgrade newTargets =>
      obtain ⟨_, hstart, he⟩ := Outcome.bind_eq_ok.mp hexec
      obtain rfl := Except.ok.inj he
      obtain ⟨-, hlength, finish, hfinish, rfl⟩ := startUpgrade_eq_ok hstart
      exact fun _ => ⟨⟨tr, _, [], rfl, rfl, hfinish.symm, fun _ he => by cases he⟩, hlength,
        fun hprepared => by cases hprepared⟩
    | cancelUpgrade =>
      obtain ⟨_, hcancel, he⟩ := Outcome.bind_eq_ok.mp hexec
      obtain rfl := Except.ok.inj he
      rw [cancelUpgrade_eq_ok hcancel]
      exact fun hbusy => absurd rfl hbusy
    | startPreparation =>
      obtain ⟨⟨activated, g⟩, hprepare, he⟩ := Outcome.bind_eq_ok.mp hexec
      obtain rfl := Except.ok.inj he
      obtain ⟨hnotice, hcases⟩ := startPreparation_eq_ok hprepare
      have hin := (h (by rw [hnotice]; decide)).append
        (e := (⟨msg, .startPreparation, replies⟩, true)) fun _ hc => hc
      rcases hcases with ⟨hle, rfl⟩ | rfl
      · exact fun _ => ⟨hin.1, hin.2, fun _ =>
          ⟨_, List.mem_append_right _ (List.mem_singleton.mpr rfl), BitVec.le_def.mp hle⟩⟩
      · exact fun _ => hin
    | finishUpgrade parameters =>
      obtain ⟨⟨g, proxies⟩, hfinish, he⟩ := Outcome.bind_eq_ok.mp hexec
      obtain rfl := Except.ok.inj he
      exact fun hbusy => absurd (finishUpgrade_eq_ok hfinish).2.1 hbusy

/-- What is under way was announced, after any run. -/
theorem inUpgrade_run (hrun : Run (UpgradeStep self) s tr s') :
    ∀ {past : List (UpgradeTx × Bool)},
      (s.gatekeeper.upgradeStatus ≠ .Idle → InUpgrade past s.gatekeeper) →
      s'.gatekeeper.upgradeStatus ≠ .Idle → InUpgrade (past ++ tr) s'.gatekeeper := by
  induction hrun with
  | nil =>
    intro past h
    rwa [List.append_nil]
  | @cons s s₁ s' e tr hstep _ ih =>
    intro past h
    rw [← List.singleton_append, ← List.append_assoc]
    exact ih (inUpgrade_step h hstep)

/-- The gatekeeper before its first call, over any proxies. -/
def UpgradeState.deployed (master : Address) (proxies : Address → Proxy) : UpgradeState :=
  ⟨.deployed master, proxies⟩

/-- Every proxy that the gatekeeper manages has the target at its index; a zero target
leaves it as it was. A proxy that is managed twice has the last of its targets. -/
structure UpgradedTo (targets : List Address) (s s' : UpgradeState) : Prop where
  length : targets.length = s.gatekeeper.managedContracts.length
  target : ∀ (i : Nat) (address target : Address),
    s.gatekeeper.managedContracts[i]? = some address → targets[i]? = some target → target ≠ 0 →
    (∀ j > i, s.gatekeeper.managedContracts[j]? = some address → targets[j]? = some 0) →
    (s'.proxies address).target = target
  unchanged : ∀ address, (∀ i : Nat, s.gatekeeper.managedContracts[i]? = some address →
    targets[i]? = some 0) → s'.proxies address = s.proxies address

/-- In every history with non-decreasing times: while an upgrade is under way there
is a target for each managed contract, and when an upgrade is finished its targets
were announced before, the notice period of the announcement is over, nothing was
canceled in between, and each proxy has the target at its index. -/
theorem upgrades_announced {master : Address} {proxies : Address → Proxy}
    (hrun : Run (UpgradeStep self) (.deployed master proxies) tr s)
    (htimes : (tr.map fun e => e.1.msg.now.toNat).Pairwise (· ≤ ·)) :
    (s.gatekeeper.upgradeStatus ≠ .Idle →
      s.gatekeeper.nextTargets.length = s.gatekeeper.managedContracts.length) ∧
    ∀ before tx after parameters, tr = before ++ (tx, true) :: after →
      tx.call = .finishUpgrade parameters →
      ∃ s₁ s₂ targets finish, Run (UpgradeStep self) (.deployed master proxies) before s₁ ∧
        s₁.exec self tx = .ok s₂ ∧ AnnouncedIn before targets finish ∧
        finish ≤ tx.msg.now.toNat ∧ UpgradedTo targets s₁ s₂ := by
  have hstart : (UpgradeState.deployed master proxies).gatekeeper.upgradeStatus ≠ .Idle →
      InUpgrade [] (UpgradeState.deployed master proxies).gatekeeper := fun h => absurd rfl h
  refine ⟨fun hbusy => (inUpgrade_run hrun hstart hbusy).lengths, ?_⟩
  rintro before tx after parameters rfl hcall
  obtain ⟨s₁, hbefore, hrest⟩ := hrun.of_append
  cases hrest with
  | @cons _ s₂ _ _ _ hstep _ =>
    cases hstep with
    | done hexec =>
      have hdone := hexec
      unfold UpgradeState.exec at hexec
      rw [hcall] at hexec
      obtain ⟨⟨g, proxies'⟩, hfinish, he⟩ := Outcome.bind_eq_ok.mp hexec
      obtain rfl := Except.ok.inj he
      obtain ⟨hprepared, -, hloop⟩ := finishUpgrade_eq_ok hfinish
      have hin := inUpgrade_run hbefore hstart (by rw [hprepared]; decide)
      obtain ⟨e, he, hle⟩ := hin.ended hprepared
      refine ⟨s₁, _, _, _, hbefore, hdone, hin.announced, hle.trans ?_, hin.lengths, ?_, ?_⟩
      · rw [List.map_append, List.map_cons] at htimes
        exact (List.pairwise_append.mp htimes).2.2 _ (List.mem_map_of_mem he) _ List.mem_cons_self
      · intro i address target hi htarget hne hlast
        refine upgradeContracts_target hne _ 0 _ _ hloop i hi ?_ ?_
        · rwa [Nat.zero_add]
        · intro j hj hmanaged
          rw [Nat.zero_add]
          exact hlast j hj hmanaged
      · intro address hzero
        refine upgradeContracts_unchanged _ 0 _ _ hloop fun j hj => ?_
        rw [Nat.zero_add]
        exact hzero j hj

/-! ### One upgrade -/

/-- A transaction of the master 5, at a time, where nothing fails and the notice period
is 10. -/
def sampleTx (now : BitVec 256) (call : UpgradeCall) : UpgradeTx :=
  ⟨⟨5, now⟩, call, ⟨10, true, true, fun _ => true⟩⟩

/-- The master adds the proxies 6 and 7, announces a target for the second one, and
finishes when the period is over. -/
def sampleTxs : List UpgradeTx :=
  [sampleTx 0 (.addUpgradeable 6), sampleTx 0 (.addUpgradeable 7),
    sampleTx 1 (.startUpgrade [0, 8]), sampleTx 11 .startPreparation,
    sampleTx 12 (.finishUpgrade [[], []])]

/-- Proxies of the gatekeeper 9, all with the target 1. -/
def sampleProxies : Address → Proxy := fun _ => ⟨9, 1⟩

theorem sampleTxs_run : ∃ s, Run (UpgradeStep 9) (.deployed 5 sampleProxies)
    (sampleTxs.map (·, true)) s ∧ s.proxies = Function.update sampleProxies 7 ⟨9, 8⟩ :=
  ⟨_, .cons (.done rfl) (.cons (.done rfl) (.cons (.done rfl) (.cons (.done rfl)
    (.cons (.done rfl) (.nil _))))), rfl⟩

theorem upgrades_announced_sample : ∃ s s₁ s₂ targets finish,
    Run (UpgradeStep 9) (.deployed 5 sampleProxies) (sampleTxs.map (·, true)) s ∧
      (s.gatekeeper.upgradeStatus ≠ .Idle →
        s.gatekeeper.nextTargets.length = s.gatekeeper.managedContracts.length) ∧
      AnnouncedIn ((sampleTxs.map (·, true)).take 4) targets finish ∧ finish ≤ 12 ∧
      UpgradedTo targets s₁ s₂ := by
  obtain ⟨s, hrun, -⟩ := sampleTxs_run
  obtain ⟨hlength, hfinish⟩ := upgrades_announced hrun (by decide)
  obtain ⟨s₁, s₂, targets, finish, -, -, hannounced, hle, hupgraded⟩ :=
    hfinish ((sampleTxs.map (·, true)).take 4) (sampleTx 12 (.finishUpgrade [[], []])) [] _ rfl rfl
  exact ⟨s, s₁, s₂, targets, finish, hrun, hlength, hannounced, hle, hupgraded⟩

end Histories

end ZkSync.Contract
