import Mathlib.Algebra.BigOperators.Group.List.Basic
import Mathlib.Data.List.Chain

/-!
# Runs of a system

`Run step s tr s'` is a run: the system went from `s` to `s'`, and `tr` are the
labels of the steps it took, in order. A fact about every run is an induction
over the run, and there are only a few inductions; this file does each of them
once.

* `Run.invariant` — what every step preserves holds at the end of every run;
* `Run.of_append` — a run over two lists of labels is two runs;
* `Run.record` — an invariant may speak of the labels of the steps taken so far;
* `Run.simulate` — what simulates every step simulates the run, over the same labels;
* `Run.rel` — a reflexive and transitive relation between the two ends of each
  step relates the two ends of the run;
* `Run.sum` — a measure that each step moves by an amount read off its label
  moves over the run by the sum of these amounts;
* `Run.flow` — where each step passes things through a buffer in their order, the run
  does;
* `Run.isChain` — a retry that leaves the system where it needs none is not
  taken twice in a row, so at least every second step makes progress
  (`length_le_of_isChain`).

Nothing here names the rollup.
-/

/-- The runs of a labelled transition relation, with their labels in order. -/
inductive Run {σ ε : Type*} (step : σ → ε → σ → Prop) : σ → List ε → σ → Prop
  | nil (s : σ) : Run step s [] s
  | cons {s s' s'' : σ} {e : ε} {tr : List ε} :
      step s e s' → Run step s' tr s'' → Run step s (e :: tr) s''

namespace Run

variable {σ ε : Type*} {step : σ → ε → σ → Prop}

theorem single {s s' : σ} {e : ε} (h : step s e s') : Run step s [e] s' :=
  .cons h (.nil s')

theorem append {s s' s'' : σ} {tr tr' : List ε} (h : Run step s tr s')
    (h' : Run step s' tr' s'') : Run step s (tr ++ tr') s'' := by
  induction h with
  | nil => exact h'
  | cons hstep _ ih => exact .cons hstep (ih h')

/-- A run over two lists of labels pauses between them. -/
theorem of_append {s s'' : σ} {tr tr' : List ε} (h : Run step s (tr ++ tr') s'') :
    ∃ s', Run step s tr s' ∧ Run step s' tr' s'' := by
  induction tr generalizing s with
  | nil => exact ⟨s, .nil s, h⟩
  | cons e tr ih =>
    cases h with
    | cons hstep hrest =>
      obtain ⟨s', h1, h2⟩ := ih hrest
      exact ⟨s', .cons hstep h1, h2⟩

/-- What every step preserves holds at the end of every run. -/
theorem invariant {I : σ → Prop} (hstep : ∀ s e s', I s → step s e s' → I s')
    {s s' : σ} {tr : List ε} (hrun : Run step s tr s') (hs : I s) : I s' := by
  induction hrun with
  | nil => exact hs
  | cons h _ ih => exact ih (hstep _ _ _ hs h)

/-- An invariant of a state and the labels that have led to it. -/
theorem record {I : List ε → σ → Prop}
    (hstep : ∀ past s e s', I past s → step s e s' → I (past ++ [e]) s')
    {s s' : σ} {tr past : List ε} (hrun : Run step s tr s') (hs : I past s) :
    I (past ++ tr) s' := by
  induction hrun generalizing past with
  | nil => rwa [List.append_nil]
  | cons h _ ih =>
    have hrest := ih (hstep _ _ _ _ hs h)
    rwa [List.append_assoc] at hrest

/-- What simulates every step simulates the run. -/
theorem simulate {τ : Type*} {step' : τ → ε → τ → Prop} {R : σ → τ → Prop}
    (hstep : ∀ s e s' t, R s t → step s e s' → ∃ t', R s' t' ∧ step' t e t')
    {s s' : σ} {t : τ} {tr : List ε} (hrun : Run step s tr s') (h : R s t) :
    ∃ t', R s' t' ∧ Run step' t tr t' := by
  induction hrun generalizing t with
  | nil => exact ⟨t, h, .nil t⟩
  | cons he _ ih =>
    obtain ⟨t₁, h₁, hstep₁⟩ := hstep _ _ _ _ h he
    obtain ⟨t', h', hrest⟩ := ih h₁
    exact ⟨t', h', .cons hstep₁ hrest⟩

/-- Steps may be strengthened by an invariant that holds where they start. -/
theorem mono {step' : σ → ε → σ → Prop} {I : σ → Prop}
    (hinv : ∀ s e s', I s → step s e s' → I s')
    (himp : ∀ s e s', I s → step s e s' → step' s e s')
    {s s' : σ} {tr : List ε} (hrun : Run step s tr s') (hs : I s) : Run step' s tr s' := by
  induction hrun with
  | nil => exact .nil _
  | cons h _ ih => exact .cons (himp _ _ _ hs h) (ih (hinv _ _ _ hs h))

/-- Labels that are allowed everywhere. -/
theorem guard {P : σ → ε → Prop} {s s' : σ} {tr : List ε} (hrun : Run step s tr s')
    (h : ∀ e ∈ tr, ∀ s, P s e) : Run (fun s e s' => P s e ∧ step s e s') s tr s' := by
  induction hrun with
  | nil => exact .nil _
  | cons hstep _ ih =>
    exact .cons ⟨h _ List.mem_cons_self _, hstep⟩ (ih fun e he => h e (List.mem_cons_of_mem _ he))

/-- What holds of every state that can be reached holds where each step starts. -/
theorem always {P : σ → Prop} {s s' : σ} {tr : List ε} (hrun : Run step s tr s')
    (h : ∀ tr s', Run step s tr s' → P s') : Run (fun s e s' => P s ∧ step s e s') s tr s' := by
  induction hrun with
  | nil => exact .nil _
  | cons hstep _ ih =>
    exact .cons ⟨h [] _ (.nil _), hstep⟩ (ih fun tr s' hrest => h _ s' (.cons hstep hrest))

/-- A preorder between the two ends of each step relates the ends of a run. -/
theorem rel {R : σ → σ → Prop} (hrefl : ∀ s, R s s)
    (htrans : ∀ s s' s'', R s s' → R s' s'' → R s s'')
    (hstep : ∀ s e s', step s e s' → R s s')
    {s s' : σ} {tr : List ε} (hrun : Run step s tr s') : R s s' := by
  induction hrun with
  | nil s => exact hrefl s
  | cons h _ ih => exact htrans _ _ _ (hstep _ _ _ h) ih

/-- A measure that each step moves by an amount read off its label moves over a
run by the sum of these amounts. -/
theorem sum {A : Type*} [AddCommMonoid A] (μ : σ → A) (δ : ε → A)
    (hstep : ∀ s e s', step s e s' → μ s' = μ s + δ e)
    {s s' : σ} {tr : List ε} (hrun : Run step s tr s') : μ s' = μ s + (tr.map δ).sum := by
  induction hrun with
  | nil s => rw [List.map_nil, List.sum_nil, add_zero]
  | cons h _ ih => rw [ih, hstep _ _ _ h, List.map_cons, List.sum_cons, add_assoc]

/-- What flows through a buffer: a step takes from the front what it puts out, and what it
lets in waits at the end. Over a run nothing is lost, repeated or overtaken. -/
theorem flow {A : Type*} (buffer : σ → List A) (input output : ε → List A)
    (hstep : ∀ s e s', step s e s' → buffer s ++ input e = output e ++ buffer s')
    {s s' : σ} {tr : List ε} (hrun : Run step s tr s') :
    buffer s ++ tr.flatMap input = tr.flatMap output ++ buffer s' := by
  induction hrun with
  | nil s => exact List.append_nil _
  | cons h _ ih =>
    rw [List.flatMap_cons, List.flatMap_cons, ← List.append_assoc, hstep _ _ _ h, List.append_assoc,
      ih, List.append_assoc]

/-- Retries (`p`) that leave the system where no retry is needed (`q`) are never
taken twice in a row. -/
theorem isChain {p : ε → Prop} {q : σ → Prop} (hafter : ∀ s e s', step s e s' → p e → q s')
    (hneeded : ∀ s e s', q s → step s e s' → ¬ p e)
    {s s' : σ} {tr : List ε} (hrun : Run step s tr s') : tr.IsChain fun e e' => p e → ¬ p e' := by
  induction hrun with
  | nil => exact .nil
  | @cons s s₁ s' e tr h hrest ih =>
    cases hrest with
    | nil => exact .singleton e
    | cons h' _ => exact .cons_cons (fun he => hneeded _ _ _ (hafter _ _ _ h he) h') ih

end Run

/-- Without two retries in a row, at most every second step is a retry, and the last. -/
theorem length_le_of_isChain {ε : Type*} {p : ε → Bool} :
    ∀ {tr : List ε}, (tr.IsChain fun e e' => p e → ¬ p e') →
      tr.length ≤ 2 * tr.countP (fun e => !p e) + 1 ∧
        (∀ e ∈ tr.head?, ¬ p e → tr.length ≤ 2 * tr.countP (fun e => !p e))
  | [], _ => ⟨Nat.zero_le _, fun _ he => (by cases he)⟩
  | e :: tr, h => by
    obtain ⟨hhead, htail⟩ := List.isChain_cons.mp h
    obtain ⟨ih, ih'⟩ := length_le_of_isChain htail
    rw [List.length_cons, List.countP_cons]
    by_cases he : p e
    · refine ⟨?_, fun e' he' hne => absurd he (Option.some.inj he' ▸ hne)⟩
      cases tr with
      | nil => exact Nat.le_add_left _ _
      | cons e' tr =>
        have := ih' e' rfl (hhead e' rfl he)
        omega
    · have hone : (if !p e then 1 else 0) = 1 := by simp [he]
      rw [hone]
      exact ⟨by omega, fun _ _ _ => by omega⟩
