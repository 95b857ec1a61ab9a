import LibiFleet.Discipline
import LibiFleet.Machine
import LibiFleet.Traffic

/-!
# The discipline of `traffic_base.hpp`

Any number of robots share one plugin. Each claims a node to come in, asks for a
neighbour and drives there when it is granted, lets go of the node it left at any
time before it arrives, and may give its node back and leave.
-/

namespace LibiFleet

/-- `released` says whether the robot has let go of the node it comes from. -/
inductive Stage
  | outside
  | atNode (u : Int)
  | moving (u v : Int) (released : Bool)
  deriving DecidableEq, Repr

def Stage.phase : Stage → Phase Int
  | outside => .outside
  | atNode u => .stay u
  | moving u v _ => .move u v

structure Users where
  plugin : ReservationDeadlock
  stage : String → Stage

inductive UserAction
  | enter (robot : String) (u priority : Int)
  | ask (robot : String) (v priority : Int)
  | letGo (robot : String)
  | arrive (robot : String)
  | leave (robot : String)
  deriving Repr

namespace Users

def setStage (s : Users) (robot : String) (stage : Stage) : Users :=
  { s with stage := Function.update s.stage robot stage }

def step (s : Users) : UserAction → Option Users
  | .enter robot u p =>
    if robot ≠ "" ∧ s.stage robot = .outside then
      let (decision, plugin) := s.plugin.requestMove robot u u p
      let s := { s with plugin }
      some (if decision = .grant then s.setStage robot (.atNode u) else s)
    else none
  | .ask robot v p =>
    match s.stage robot with
    | .atNode u =>
      if u ≠ v then
        let (decision, plugin) := s.plugin.requestMove robot u v p
        let s := { s with plugin }
        some (if decision = .grant then s.setStage robot (.moving u v false) else s)
      else none
    | _ => none
  | .letGo robot =>
    match s.stage robot with
    | .moving u v false =>
      some { s.setStage robot (.moving u v true) with plugin := s.plugin.releaseNode robot u }
    | _ => none
  | .arrive robot =>
    match s.stage robot with
    | .moving _ v true => some (s.setStage robot (.atNode v))
    | _ => none
  | .leave robot =>
    match s.stage robot with
    | .atNode u => some { s.setStage robot .outside with plugin := s.plugin.release robot u }
    | _ => none

def machine : Machine Users UserAction := ⟨⟨{}, fun _ => .outside⟩, step⟩

def phase (s : Users) (robot : String) : Phase Int := (s.stage robot).phase

/-- What every reachable state satisfies. -/
structure Invariant (s : Users) : Prop where
  named : s.plugin.Named
  inside : ∀ r, s.stage r ≠ .outside → r ≠ ""
  lane : ∀ r u v b, s.stage r = .moving u v b → u ≠ v
  safe : Safe s.plugin.owner s.phase

variable {s s' : Users} {robot : String}

theorem invariant_start : Invariant machine.start where
  named := by
    intro n o h
    simp [machine, ReservationDeadlock.owner] at h
  inside := fun r h => absurd rfl h
  lane := by
    intro r u v b h
    cases h
  safe := ⟨fun _ => trivial, by rintro r q - ⟨u, v, h, -⟩; cases h⟩

/-- One robot comes to `stage` and the plugin to `plugin`, by an act that departs from where the
robot stays. -/
theorem Invariant.act (h : Invariant s) {plugin : ReservationDeadlock} (stage : Stage)
    (name : robot ≠ "") (named : plugin.Named) (alone : Alone robot s.plugin.owner plugin.owner)
    (holds : Holds plugin.owner robot stage.phase)
    (lane : ∀ u v b, stage = .moving u v b →
      u ≠ v ∧ (s.phase robot = .move u v ∨ s.phase robot = .stay u)) :
    Invariant ⟨plugin, Function.update s.stage robot stage⟩ := by
  have hself : phase ⟨plugin, Function.update s.stage robot stage⟩ robot = stage.phase := by
    simp [phase]
  have hother {q : String} (hq : q ≠ robot) :
      (⟨plugin, Function.update s.stage robot stage⟩ : Users).stage q = s.stage q := by simp [hq]
  have hact : Departs robot s.plugin.owner plugin.owner s.phase
      (phase ⟨plugin, Function.update s.stage robot stage⟩) := by
    refine ⟨⟨alone, ?_, hself ▸ holds⟩, ?_⟩
    · intro q hq
      rw [phase, hother hq, phase]
    · intro u v hm
      rw [hself] at hm
      cases stage with
      | outside | atNode w => cases hm
      | moving u' v' b =>
        cases hm
        exact (lane u v b rfl).2
  refine ⟨named, ?_, ?_, hact.safe h.safe⟩
  · intro r hr
    by_cases hrr : r = robot
    · exact hrr ▸ name
    · exact h.inside r (hother hrr ▸ hr)
  · intro r u v b hm
    by_cases hrr : r = robot
    · subst hrr
      exact (lane u v b (by simpa using hm)).1
    · exact h.lane r u v b (hother hrr ▸ hm)

/-- The plugin alone changes, by an act of a robot that keeps the node it asks for. -/
theorem Invariant.keep (h : Invariant s) {plugin : ReservationDeadlock} (name : robot ≠ "")
    (named : plugin.Named) (alone : Alone robot s.plugin.owner plugin.owner)
    (holds : Holds plugin.owner robot (s.phase robot)) : Invariant { s with plugin } := by
  have := h.act (s.stage robot) name named alone holds fun u v b hm =>
    ⟨h.lane robot u v b hm, .inl (by rw [phase, hm]; rfl)⟩
  rwa [Function.update_eq_self] at this

/-- A request takes no node from the robot that makes it. -/
theorem holds_request (hn : s.plugin.Named) {p : Phase Int} {src dst priority : Int}
    (h : Holds s.plugin.owner robot p) :
    Holds (s.plugin.requestMove robot src dst priority).2.owner robot p := by
  have owned (v : Int) (hv : s.plugin.owner v = some robot) :
      (s.plugin.requestMove robot src dst priority).2.owner v = some robot := by
    rw [ReservationDeadlock.requestMove_owner hn]
    split
    · rfl
    · exact hv
  cases p with
  | outside => trivial
  | stay u => exact owned u h
  | move u v => exact owned v h

/-- A request keeps the invariant if a robot that is granted comes to a stage that has its node. -/
theorem Invariant.request (h : Invariant s) (stage : Stage) {src dst priority : Int}
    (name : robot ≠ "") (target : ∀ own : Int → Option String, own dst = some robot →
      Holds own robot stage.phase)
    (lane : ∀ u v b, stage = .moving u v b → u ≠ v ∧ s.phase robot = .stay u) :
    let (decision, plugin) := s.plugin.requestMove robot src dst priority
    Invariant (if decision = .grant then ({ s with plugin } : Users).setStage robot stage
      else { s with plugin }) := by
  have named := ReservationDeadlock.requestMove_named h.named name src dst priority
  have alone := ReservationDeadlock.requestMove_alone h.named robot src dst priority
  dsimp only
  split
  · rename_i hgrant
    have howner := ReservationDeadlock.requestMove_owner_grant h.named hgrant
    apply h.act stage name named alone (target _ howner)
    intro u v b hm
    exact (lane u v b hm).imp_right .inr
  · apply h.keep name named alone
    exact holds_request h.named (h.safe.held robot)

theorem step_invariant {a : UserAction} (hstep : s.step a = some s') (h : Invariant s) :
    Invariant s' := by
  cases a with
  | enter robot u p =>
    simp only [step] at hstep
    split at hstep
    · rename_i hin
      obtain rfl := Option.some.inj hstep
      exact h.request (.atNode u) hin.1 (fun _ ho => ho) (fun _ _ _ hm => by cases hm)
    · cases hstep
  | ask robot v p =>
    simp only [step] at hstep
    split at hstep
    · rename_i u hu
      split at hstep
      · rename_i hne
        obtain rfl := Option.some.inj hstep
        have name := h.inside robot (by simp [hu])
        refine h.request (.moving u v false) name (fun _ ho => ho) ?_
        intro _ _ _ hm
        cases hm
        exact ⟨hne, by simp [phase, hu, Stage.phase]⟩
      · cases hstep
    · cases hstep
  | letGo robot =>
    simp only [step] at hstep
    split at hstep
    · rename_i u v hm
      obtain rfl := Option.some.inj hstep
      have hne := h.lane robot u v false hm
      have hown : s.plugin.owner v = some robot := by
        simpa [phase, hm, Stage.phase, Holds] using h.safe.held robot
      have name := h.inside robot (by simp [hm])
      have named := ReservationDeadlock.release_named h.named robot u
      have alone := ReservationDeadlock.release_alone s.plugin robot u
      refine h.act (.moving u v true) name named alone ?_ ?_
      · simp [Stage.phase, Holds, Ne.symm hne, hown]
      · intro _ _ _ hm'
        cases hm'
        exact ⟨hne, .inl (by simp [phase, hm, Stage.phase])⟩
    · cases hstep
  | arrive robot =>
    simp only [step] at hstep
    split at hstep
    · rename_i u v hm
      obtain rfl := Option.some.inj hstep
      have name := h.inside robot (by simp [hm])
      refine h.act (.atNode v) name h.named (Alone.refl _ _) ?_ (fun _ _ _ hm' => by cases hm')
      simpa [phase, hm, Stage.phase, Holds] using h.safe.held robot
    · cases hstep
  | leave robot =>
    simp only [step] at hstep
    split at hstep
    · rename_i u hu
      obtain rfl := Option.some.inj hstep
      have name := h.inside robot (by simp [hu])
      have named := ReservationDeadlock.release_named h.named robot u
      have alone := ReservationDeadlock.release_alone s.plugin robot u
      exact h.act .outside name named alone trivial (fun _ _ _ hm => by cases hm)
    · cases hstep

theorem reach_invariant (hs : machine.Reach (fun _ _ => True) s) : Invariant s :=
  hs.invariant invariant_start fun _ _ _ _ hstep => step_invariant hstep

/-- No two robots of the discipline meet, at a node or on a lane. -/
theorem collision_free (hs : machine.Reach (fun _ _ => True) s) {r q : String} (hrq : r ≠ q) :
    (∀ u, s.stage r = .atNode u → s.stage q ≠ .atNode u) ∧
    (∀ u v b, s.stage r = .moving u v b → s.stage q ≠ .atNode v) ∧
    (∀ u u' v b b', s.stage r = .moving u v b → s.stage q ≠ .moving u' v b') ∧
    (∀ u v b b', s.stage r = .moving u v b →
      s.stage q ≠ .moving u v b' ∧ s.stage q ≠ .moving v u b') := by
  have hsafe := (reach_invariant hs).safe
  have apart {v : Int} (hr : (s.stage r).phase.needs = some v) : (s.stage q).phase.needs ≠ some v :=
    hsafe.held.needs_ne hrq hr
  refine ⟨?_, ?_, ?_, ?_⟩
  · intro u hr hq
    exact apart (v := u) (by rw [hr]; rfl) (by rw [hq]; rfl)
  · intro u v b hr hq
    exact apart (v := v) (by rw [hr]; rfl) (by rw [hq]; rfl)
  · intro u u' v b b' hr hq
    exact apart (v := v) (by rw [hr]; rfl) (by rw [hq]; rfl)
  · intro u v b b' hr
    constructor
    · intro hq
      exact apart (v := v) (by rw [hr]; rfl) (by rw [hq]; rfl)
    · intro hq
      have hr' : s.phase r = .move u v := by simp [phase, hr, Stage.phase]
      have hq' : s.phase q = .move v u := by simp [phase, hq, Stage.phase]
      exact hsafe.apart r q hrq ⟨u, v, hr', hq'⟩

/-- Two robots follow each other: the first is still moving to the node ahead, with the node it left
let go of, when the second is granted that node. -/
theorem collision_free_convoy : ∃ s, machine.Reach (fun _ _ => True) s ∧
    s.stage "r1" = .moving 1 2 true ∧ s.stage "r2" = .moving 0 1 false ∧
    s.stage "r2" ≠ .atNode 2 ∧ s.stage "r2" ≠ .moving 1 2 false := by
  obtain ⟨s, hs, hp⟩ := machine.exists_reach (fun _ _ => True)
    (fun s => decide (s.stage "r1" = .moving 1 2 true ∧ s.stage "r2" = .moving 0 1 false))
    [.enter "r1" 1 5, .enter "r2" 0 7, .ask "r2" 1 7, .ask "r1" 2 5, .letGo "r1", .ask "r2" 1 7]
    (by decide +kernel)
  obtain ⟨h1, h2⟩ := of_decide_eq_true hp
  have h := collision_free hs (r := "r1") (q := "r2") (by decide)
  exact ⟨s, hs, h1, h2, h.2.1 _ _ _ h1, (h.2.2.2 _ _ _ false h1).1⟩

end Users

end LibiFleet
