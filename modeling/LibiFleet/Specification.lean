import Mathlib.Data.List.Infix

/-!
# Specifications

A specification says which steps a component may take and what is observed of each.
The observations of a run stand in a list, the last one first.
-/

namespace LibiFleet

/-- A step is observed, or it is silent. -/
structure Spec (S O : Type*) where
  start : S
  step : S → Option O → S → Prop

namespace Spec

variable {S O : Type*} {T : Spec S O} {s s' s'' : S} {seen seen' : List O}

/-- What is observed on the way from one state to another. -/
inductive Run (T : Spec S O) (s : S) : List O → S → Prop
  | refl : Run T s [] s
  | tail {seen obs s' s''} :
      Run T s seen s' → T.step s' obs s'' → Run T s (obs.toList ++ seen) s''

namespace Run

theorem one {obs : Option O} (h : T.step s obs s') : T.Run s obs.toList s' := by
  have hone : T.Run s (obs.toList ++ []) s' := .tail .refl h
  rwa [List.append_nil] at hone

theorem trans (h : T.Run s seen s') (h' : T.Run s' seen' s'') : T.Run s (seen' ++ seen) s'' := by
  induction h' with
  | refl => exact h
  | tail _ hstep ih =>
    rw [List.append_assoc]
    exact .tail ih hstep

/-- What every step keeps, of the observations so far and the state, a run keeps. -/
theorem invariant {P : List O → S → Prop} (h : T.Run s seen s') (start : P [] s)
    (step : ∀ seen s obs s', T.step s obs s' → P seen s → P (obs.toList ++ seen) s') :
    P seen s' := by
  induction h with
  | refl => exact start
  | tail _ hstep ih => exact step _ _ _ _ hstep ih

/-- What every observed step shows of its observation, after those before it, is so of every
observation of a run. -/
theorem each {P : List O → S → Prop} {Q : List O → O → Prop} (h : T.Run s seen s')
    (start : P [] s)
    (step : ∀ seen s obs s', T.step s obs s' → P seen s → P (obs.toList ++ seen) s')
    (shows : ∀ seen s o s', T.step s (some o) s' → P seen s → Q seen o) :
    ∀ o older, o :: older <:+ seen → Q older o := by
  induction h with
  | refl =>
    intro o older ho
    simp at ho
  | @tail seen obs s' s'' hrun hstep ih =>
    have hP := hrun.invariant start step
    cases obs with
    | none => exact ih
    | some obs =>
      intro o older ho
      rcases List.suffix_cons_iff.mp ho with heq | ho
      · obtain ⟨rfl, rfl⟩ := List.cons.inj heq
        exact shows _ _ _ _ hstep hP
      · exact ih o older ho

end Run

end Spec

end LibiFleet
