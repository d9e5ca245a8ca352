import Mathlib.Tactic.Common

/-!
# Calls that can fail

A call of the server ends in one of three ways: it returns a value, it returns
an error the caller handles, or it panics. `Outcome` keeps the last two apart,
because callers do: an error of one transaction rolls a batch back, a panic
takes the thread with it.

`ensure`, `bail`, `okOrElse` make errors; `assert`, `expect` and the checked
`require` of machine arithmetic make panics. The `_eq_ok` lemmas read a
successful call backwards: every step of it succeeded. They are the only way
later files look inside a `do` block.

Nothing here names the rollup.
-/

universe u

/-- How a call ends when it returns no value. -/
inductive Failure where
  /-- An error value, handled by the caller. -/
  | error (message : String)
  /-- A failed assertion, a failed `unwrap`, a checked arithmetic overflow. -/
  | panic (message : String)
  deriving DecidableEq, Repr

/-- The text of an error or of a panic. -/
def Failure.message : Failure → String
  | .error message => message
  | .panic message => message

/-- The result of a call that may fail. -/
abbrev Outcome (α : Type u) := Except Failure α

namespace Outcome

variable {α β : Type u}

/-- Return early with an error. -/
def bail (message : String) : Outcome α := .error (.error message)

/-- Return early with an error unless `p`. -/
def ensure (p : Prop) [Decidable p] (message : String) : Outcome Unit :=
  if p then .ok () else .error (.error message)

/-- An absent value is an error. -/
def okOrElse (o : Option α) (message : String) : Outcome α :=
  match o with
  | some a => .ok a
  | none => .error (.error message)

/-- Panic unless `p`. -/
def assert (p : Prop) [Decidable p] (message : String) : Outcome Unit :=
  if p then .ok () else .error (.panic message)

/-- An absent value is a panic. -/
def expect (o : Option α) (message : String) : Outcome α :=
  match o with
  | some a => .ok a
  | none => .error (.panic message)

/-- Put a text in front of an error. -/
def context (text : String) (x : Outcome α) : Outcome α :=
  match x with
  | .error (.error message) => .error (.error (text ++ message))
  | x => x

/-- The call returned a value. -/
def Succeeds (x : Outcome α) : Prop := ∃ a, x = .ok a

/-- The call returned a value or an error. -/
def NoPanic (x : Outcome α) : Prop := ∀ message, x ≠ .error (.panic message)

/-! ## Reading a successful call backwards -/

/-- A sequence succeeds if both of its halves do. -/
@[simp] theorem bind_eq_ok {ε : Type*} {x : Except ε α} {f : α → Except ε β} {b : β} :
    (x >>= f) = .ok b ↔ ∃ a, x = .ok a ∧ f a = .ok b := by
  cases x with
  | ok a => exact ⟨fun h => ⟨a, rfl, h⟩, fun ⟨_, ha, h⟩ => (by cases ha; exact h)⟩
  | error e => exact ⟨fun h => (by cases h), fun ⟨_, ha, _⟩ => (by cases ha)⟩

/-- It fails in the first half or in the second. -/
theorem bind_eq_error {ε : Type*} {x : Except ε α} {f : α → Except ε β} {e : ε} :
    (x >>= f) = .error e ↔ x = .error e ∨ ∃ a, x = .ok a ∧ f a = .error e := by
  cases x with
  | ok a =>
    exact ⟨fun h => Or.inr ⟨a, rfl, h⟩, fun h => h.elim (fun h => by cases h)
      fun ⟨_, ha, h⟩ => (by cases ha; exact h)⟩
  | error e' =>
    exact ⟨fun h => Or.inl (by cases h; rfl), fun h => h.elim (fun h => by cases h; rfl)
      fun ⟨_, ha, _⟩ => (by cases ha)⟩

@[simp] theorem ok_bind {ε : Type*} (a : α) (f : α → Except ε β) :
    ((.ok a : Except ε α) >>= f) = f a := rfl

@[simp] theorem error_bind {ε : Type*} (e : ε) (f : α → Except ε β) :
    ((.error e : Except ε α) >>= f) = .error e := rfl

@[simp] theorem map_ok (f : α → β) (a : α) : f <$> (.ok a : Outcome α) = .ok (f a) := rfl

@[simp] theorem map_error (f : α → β) (e : Failure) :
    f <$> (.error e : Outcome α) = .error e := rfl

/-- A function that cannot fail changes the result only. -/
theorem map_eq_ok {ε : Type*} {f : α → β} {x : Except ε α} {b : β} :
    f <$> x = .ok b ↔ ∃ a, x = .ok a ∧ f a = b := by
  cases x with
  | ok a => exact ⟨fun h => ⟨a, rfl, Except.ok.inj h⟩, fun ⟨_, ha, h⟩ => (by cases ha; rw [← h]; rfl)⟩
  | error e => exact ⟨fun h => (by cases h), fun ⟨_, ha, _⟩ => (by cases ha)⟩

@[simp] theorem pure_eq {ε : Type*} (a : α) : (pure a : Except ε α) = .ok a := rfl

@[simp] theorem bail_ne_ok {message : String} {a : α} : (bail message : Outcome α) ≠ .ok a := by
  intro h
  cases h

/-- A check passes exactly if its condition holds. -/
@[simp] theorem ensure_eq_ok {p : Prop} [Decidable p] {message : String} {u : Unit} :
    ensure p message = .ok u ↔ p := by
  unfold ensure
  split
  next hp => exact ⟨fun _ => hp, fun _ => rfl⟩
  next hp => exact ⟨fun h => (by cases h), fun h => absurd h hp⟩

/-- So does an assertion. -/
@[simp] theorem assert_eq_ok {p : Prop} [Decidable p] {message : String} {u : Unit} :
    assert p message = .ok u ↔ p := by
  unfold assert
  split
  next hp => exact ⟨fun _ => hp, fun _ => rfl⟩
  next hp => exact ⟨fun h => (by cases h), fun h => absurd h hp⟩

/-- What a guard lets through. -/
theorem guarded_eq_ok {ε : Type*} {α : Type} {check : Except ε Unit} {p : Prop} {value a : α}
    (hcheck : check = .ok () ↔ p) :
    (check >>= fun _ => pure value) = .ok a ↔ p ∧ a = value := by
  rw [bind_eq_ok]
  constructor
  · rintro ⟨u, hu, ha⟩
    exact ⟨hcheck.mp hu, (Except.ok.inj ha).symm⟩
  · rintro ⟨hp, rfl⟩
    exact ⟨(), hcheck.mpr hp, rfl⟩

theorem assert_ok {p : Prop} [Decidable p] (message : String) (h : p) :
    assert p message = .ok () :=
  assert_eq_ok.mpr h

/-- A value that is there is returned. -/
@[simp] theorem okOrElse_eq_ok {o : Option α} {message : String} {a : α} :
    okOrElse o message = .ok a ↔ o = some a := by
  cases o with
  | none => exact ⟨fun h => (by cases h), fun h => (by cases h)⟩
  | some b => exact ⟨fun h => (by cases h; rfl), fun h => (by cases h; rfl)⟩

/-- The same, where its absence would be a panic. -/
@[simp] theorem expect_eq_ok {o : Option α} {message : String} {a : α} :
    expect o message = .ok a ↔ o = some a := by
  cases o with
  | none => exact ⟨fun h => (by cases h), fun h => (by cases h)⟩
  | some b => exact ⟨fun h => (by cases h; rfl), fun h => (by cases h; rfl)⟩

theorem toOption_eq_some {ε : Type*} {x : Except ε α} {a : α} :
    x.toOption = some a ↔ x = .ok a := by
  cases x with
  | ok b => exact ⟨fun h => by rw [Option.some.inj h], fun h => by rw [Except.ok.inj h]; rfl⟩
  | error e => exact ⟨fun h => (by cases h), fun h => (by cases h)⟩

/-- Mapping neither helps nor hurts. -/
theorem succeeds_map {f : α → β} {x : Outcome α} : (f <$> x).Succeeds ↔ x.Succeeds := by
  cases x with
  | ok a => exact ⟨fun _ => ⟨a, rfl⟩, fun _ => ⟨f a, rfl⟩⟩
  | error e => exact ⟨fun ⟨_, h⟩ => (by cases h), fun ⟨_, h⟩ => (by cases h)⟩

/-- The calls of a list succeed if each of them does. -/
theorem mapM_eq_ok {ε : Type*} {f : α → Except ε β} {l : List α} {bs : List β} :
    l.mapM f = .ok bs ↔ l.map f = bs.map .ok := by
  induction l generalizing bs with
  | nil =>
    rw [List.mapM_nil, List.map_nil, pure_eq, Except.ok.injEq, eq_comm, eq_comm (a := []),
      List.map_eq_nil_iff]
  | cons a l ih =>
    rw [List.mapM_cons, bind_eq_ok, List.map_cons]
    constructor
    · rintro ⟨b, hb, h⟩
      obtain ⟨bs', hbs', h⟩ := bind_eq_ok.mp h
      cases h
      rw [hb, ih.mp hbs', List.map_cons]
    · intro h
      cases bs with
      | nil => cases h
      | cons b bs =>
        rw [List.map_cons, List.cons.injEq] at h
        exact ⟨b, h.1, bind_eq_ok.mpr ⟨bs, ih.mpr h.2, rfl⟩⟩

/-- A loop succeeds if each of its rounds does. -/
theorem exists_mapM {ε : Type*} {f : α → Except ε β} {l : List α}
    (h : ∀ a ∈ l, ∃ b, f a = .ok b) : ∃ bs, l.mapM f = .ok bs := by
  induction l with
  | nil => exact ⟨[], rfl⟩
  | cons a l ih =>
    obtain ⟨b, hb⟩ := h a List.mem_cons_self
    obtain ⟨bs, hbs⟩ := ih fun a ha => h a (List.mem_cons_of_mem _ ha)
    refine ⟨b :: bs, ?_⟩
    rw [List.mapM_cons, hb, ok_bind, hbs]
    rfl

/-! ## Calls that do not panic -/

theorem noPanic_ok (a : α) : NoPanic (.ok a) := fun _ h => by cases h

/-- A check may fail, but does not panic. -/
theorem noPanic_ensure (p : Prop) [Decidable p] (message : String) :
    NoPanic (ensure p message) := by
  intro m h
  unfold ensure at h
  split at h <;> cases h

/-- Nor does this one. -/
theorem noPanic_okOrElse (o : Option α) (message : String) :
    NoPanic (okOrElse o message) := by
  intro m h
  cases o <;> cases h

theorem noPanic_map {f : α → β} {x : Outcome α} (hx : NoPanic x) : NoPanic (f <$> x) := by
  intro m h
  cases x with
  | ok a => cases h
  | error e =>
    cases h
    exact hx m rfl

/-- A sequence does not panic if neither half does. -/
theorem noPanic_bind {x : Outcome α} {f : α → Outcome β} (hx : NoPanic x)
    (hf : ∀ a, x = .ok a → NoPanic (f a)) : NoPanic (x >>= f) := by
  cases x with
  | ok a => exact hf a rfl
  | error e =>
    intro m h
    exact hx m (by cases h; rfl)

/-! ## Checks in a row -/

/-- A check that cannot fail. -/
def test (p : Prop) [Decidable p] : Outcome Bool := .ok (decide p)

/-- A test tells whether the proposition holds. -/
@[simp] theorem test_eq_true {p : Prop} [Decidable p] : test p = .ok true ↔ p :=
  ⟨fun h => of_decide_eq_true (Except.ok.inj h), fun h => congrArg _ (decide_eq_true h)⟩

@[simp] theorem succeeds_test (p : Prop) [Decidable p] : (test p).Succeeds := ⟨_, rfl⟩

section Checks

variable {x y : Outcome Bool}

/-- Both answers have to be positive. -/
theorem andM_eq_true : (x <&&> y) = .ok true ↔ x = .ok true ∧ y = .ok true := by
  match x with
  | .ok true => exact ⟨fun h => ⟨rfl, h⟩, fun h => h.2⟩
  | .ok false => exact ⟨fun h => (by cases h), fun h => (by cases h.1)⟩
  | .error e => exact ⟨fun h => (by cases h), fun h => (by cases h.1)⟩

/-- The second check is made only if the first one is passed. -/
theorem succeeds_andM : (x <&&> y).Succeeds ↔ x.Succeeds ∧ (x = .ok true → y.Succeeds) := by
  match x with
  | .ok true => exact ⟨fun h => ⟨⟨_, rfl⟩, fun _ => h⟩, fun h => h.2 rfl⟩
  | .ok false => exact ⟨fun _ => ⟨⟨_, rfl⟩, fun h => (by cases h)⟩, fun _ => ⟨_, rfl⟩⟩
  | .error e => exact ⟨fun ⟨_, h⟩ => (by cases h), fun ⟨⟨_, h⟩, _⟩ => (by cases h)⟩

end Checks

end Outcome
