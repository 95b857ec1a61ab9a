import Mathlib.Logic.Relation

/-!
# Machines and their runs

A machine takes one action at a time. `Reach ok` collects the states of the
runs whose every step meets `ok` in the state it is taken from, so one
definition serves both all runs and the runs that keep to a condition.
-/

namespace LibiFleet

/-- `step` is `none` where the action does not apply, or where the machine dies of it. -/
structure Machine (S A : Type*) where
  start : S
  step : S → A → Option S

namespace Machine

variable {S A : Type*} {M : Machine S A}

inductive Reach (M : Machine S A) (ok : S → A → Prop) : S → Prop
  | start : Reach M ok M.start
  | step {s s' : S} {a : A} : Reach M ok s → ok s a → M.step s a = some s' → Reach M ok s'

/-- A property of the start that every admitted step keeps holds in every reached state. -/
theorem Reach.invariant {ok : S → A → Prop} {P : S → Prop} (start : P M.start)
    (step : ∀ s a s', ok s a → M.step s a = some s' → P s → P s') {s : S}
    (hs : M.Reach ok s) : P s := by
  induction hs with
  | start => exact start
  | step _ ha hstep ih => exact step _ _ _ ha hstep ih

/-- A run that keeps to a condition keeps to a weaker one. -/
theorem Reach.mono {ok ok' : S → A → Prop} (h : ∀ s a, ok s a → ok' s a) {s : S}
    (hs : M.Reach ok s) : M.Reach ok' s := by
  induction hs with
  | start => exact .start
  | step _ ha hstep ih => exact .step ih (h _ _ ha) hstep

/-- What holds in every reached state may be assumed of the state a step is taken from. -/
theorem Reach.assuming {ok : S → A → Prop} {I : S → Prop} (hI : ∀ s, M.Reach ok s → I s)
    {s : S} (hs : M.Reach ok s) : M.Reach (fun s a => ok s a ∧ I s) s := by
  induction hs with
  | start => exact .start
  | step hr ha hstep ih => exact .step ih ⟨ha, hI _ hr⟩ hstep

/-- An executable run: it stops at the first step that does not meet `ok`. -/
def runWhen (M : Machine S A) (ok : S → A → Prop) [∀ s a, Decidable (ok s a)] (s : S) :
    List A → Option S
  | [] => some s
  | a :: as => if ok s a then (M.step s a).bind fun s' => runWhen M ok s' as else none

/-- For the actions of the run, what is checked has to imply what the run keeps to. -/
theorem Reach.runWhen {ok ok' : S → A → Prop} [∀ s a, Decidable (ok' s a)] {as : List A} {s s' : S}
    (imp : ∀ a ∈ as, ∀ s, ok' s a → ok s a) (hs : M.Reach ok s)
    (h : M.runWhen ok' s as = some s') : M.Reach ok s' := by
  induction as generalizing s with
  | nil =>
    simp only [Machine.runWhen, Option.some.injEq] at h
    exact h ▸ hs
  | cons a as ih =>
    simp only [Machine.runWhen] at h
    split at h
    · rename_i ha
      obtain ⟨t, ht, hrun⟩ := Option.bind_eq_some_iff.mp h
      have hok : ok s a := imp a List.mem_cons_self s ha
      exact ih (fun b hb => imp b (List.mem_cons_of_mem _ hb)) (.step hs hok ht) hrun
    · cases h

/-- A run that is computed to end in a state with `p` witnesses a reached state with `p`. -/
theorem exists_reach_of (M : Machine S A) (ok ok' : S → A → Prop) [∀ s a, Decidable (ok' s a)]
    (p : S → Bool) (as : List A) (imp : ∀ a ∈ as, ∀ s, ok' s a → ok s a)
    (h : (M.runWhen ok' M.start as).any p = true) : ∃ s, M.Reach ok s ∧ p s = true := by
  obtain ⟨s, hs, hp⟩ := (Option.any_eq_true _ _).mp h
  exact ⟨s, Reach.start.runWhen imp hs, hp⟩

/-- The same where the condition of the run is executable itself. -/
theorem exists_reach (M : Machine S A) (ok : S → A → Prop) [∀ s a, Decidable (ok s a)]
    (p : S → Bool) (as : List A)
    (h : (M.runWhen ok M.start as).any p = true) : ∃ s, M.Reach ok s ∧ p s = true :=
  M.exists_reach_of ok ok p as (fun _ _ _ h => h) h

/-- The way from one state to another, with its steps, the last one first, each with the state it
left. -/
inductive Run (M : Machine S A) (ok : S → A → Prop) (s : S) : List (S × A) → S → Prop
  | refl : Run M ok s [] s
  | tail {way : List (S × A)} {s' s'' : S} {a : A} :
      Run M ok s way s' → ok s' a → M.step s' a = some s'' → Run M ok s ((s', a) :: way) s''

theorem Reach.run {ok ok' : S → A → Prop} {way : List (S × A)} {s s' : S} (hs : M.Reach ok s)
    (imp : ∀ s a, ok' s a → ok s a) (h : M.Run ok' s way s') : M.Reach ok s' := by
  induction h with
  | refl => exact hs
  | tail _ ha hstep ih => exact .step ih (imp _ _ ha) hstep

/-- What every step keeps, of the way so far and of the state, from a reached state on. -/
theorem Run.invariant {ok ok' : S → A → Prop} {P : List (S × A) → S → Prop} {way : List (S × A)}
    {s s' : S} (h : M.Run ok' s way s') (hs : M.Reach ok s) (imp : ∀ s a, ok' s a → ok s a)
    (start : P [] s)
    (step : ∀ way s a s', M.Reach ok s → ok' s a → M.step s a = some s' → P way s →
      P ((s, a) :: way) s') : P way s' := by
  induction h with
  | refl => exact start
  | tail hrun ha hstep ih => exact step _ _ _ _ (hs.run imp hrun) ha hstep ih

theorem Run.mono {ok ok' : S → A → Prop} {way : List (S × A)} {s s' : S}
    (imp : ∀ s a, ok s a → ok' s a) (h : M.Run ok s way s') : M.Run ok' s way s' := by
  induction h with
  | refl => exact .refl
  | tail _ ha hstep ih => exact .tail ih (imp _ _ ha) hstep

theorem Run.trans {ok : S → A → Prop} {way way' : List (S × A)} {s s' s'' : S}
    (h : M.Run ok s way s') (h' : M.Run ok s' way' s'') : M.Run ok s (way' ++ way) s'' := by
  induction h' with
  | refl => exact h
  | tail _ ha hstep ih => exact .tail ih ha hstep

/-- A run that is computed, with its actions in the order in which they are taken. -/
theorem exists_run {ok : S → A → Prop} [∀ s a, Decidable (ok s a)] {as : List A} {s s' : S}
    (h : M.runWhen ok s as = some s') : ∃ way, M.Run ok s way s' ∧ way.map (·.2) = as.reverse := by
  induction as generalizing s with
  | nil =>
    simp only [Machine.runWhen, Option.some.injEq] at h
    exact ⟨[], h ▸ .refl, rfl⟩
  | cons a as ih =>
    simp only [Machine.runWhen] at h
    split at h
    · rename_i ha
      obtain ⟨t, ht, hrun⟩ := Option.bind_eq_some_iff.mp h
      obtain ⟨way, hway, hactions⟩ := ih hrun
      refine ⟨_, Run.trans (.tail .refl ha ht) hway, ?_⟩
      rw [List.map_append, hactions, List.reverse_cons]
      rfl
    · cases h

/-- The machine that remembers its steps, the last one first, each with the state it left. -/
def traced (M : Machine S A) : Machine (S × List (S × A)) A where
  start := (M.start, [])
  step c a := (M.step c.1 a).map fun s => (s, (c.1, a) :: c.2)

theorem traced_step {c c' : S × List (S × A)} {a : A} (h : M.traced.step c a = some c') :
    M.step c.1 a = some c'.1 ∧ c'.2 = (c.1, a) :: c.2 := by
  obtain ⟨s, hs, rfl⟩ := Option.map_eq_some_iff.mp h
  exact ⟨hs, rfl⟩

/-- A run with its past is a run. -/
theorem Reach.untraced {ok : S × List (S × A) → A → Prop} {ok' : S → A → Prop}
    (h : ∀ c a, ok c a → ok' c.1 a) {c : S × List (S × A)} (hc : M.traced.Reach ok c) :
    M.Reach ok' c.1 := by
  induction hc with
  | start => exact .start
  | step _ ha hstep ih => exact .step ih (h _ _ ha) (traced_step hstep).1

/-- Every run has a past. -/
theorem Reach.traced {ok : S → A → Prop} {s : S} (hs : M.Reach ok s) :
    ∃ past, M.traced.Reach (fun c a => ok c.1 a) (s, past) := by
  induction hs with
  | start => exact ⟨[], .start⟩
  | @step s s' a _ ha hstep ih =>
    obtain ⟨past, hpast⟩ := ih
    refine ⟨(s, a) :: past, .step hpast ha ?_⟩
    simp [Machine.traced, hstep]

end Machine

end LibiFleet
