import LibiFleet.FleetNode
import LibiFleet.Machine

/-!
# Runs of the fleet node

`rclcpp::spin` takes the callbacks one at a time: that is the machine `fleet`. The
machine `ticks` takes the loops of `on_timer` one iteration at a time, and the body
of the loop over `tasks_` in two parts, so that the state in which a task makes its
request is a state of its own. Every state between callbacks is one of `ticks`.
-/

namespace LibiFleet

variable {R : Type}

/-- The parameters of the constructor, with the navgraph and the patrol route they lead to. -/
structure Setup (R : Type) where
  graph : Navgraph R
  fleetName : String
  patrol : Bool
  patrolRoute : List Int
  energy : EnergyParams R

/-- A message, a request or the timer, with what the plugin loader and the navgraph file answer. -/
inductive Callback (R : Type)
  | robotState (msg : RobotState R)
  | submit (req : SubmitRequest)
  | timer
  | setPlugins (req : SetPluginsRequest) (disp : Except String (Dispatcher R))
      (traf : Except String ReservationDeadlock)
  | reload (file : NavFile R)
  | setMode (req : SetRobotModeRequest)
  | setBattery (req : SetBatteryRequest R)

namespace Callback

/-- The robot that the callback is about has a name. -/
def Named : Callback R → Prop
  | robotState msg => msg.name ≠ ""
  | setMode req => req.robot ≠ ""
  | setBattery req => req.robot ≠ ""
  | _ => True

instance : DecidablePred (Named (R := R))
  | robotState msg => inferInstanceAs (Decidable (msg.name ≠ ""))
  | setMode req => inferInstanceAs (Decidable (req.robot ≠ ""))
  | setBattery req => inferInstanceAs (Decidable (req.robot ≠ ""))
  | submit _ | timer | setPlugins .. | reload _ => inferInstanceAs (Decidable True)

/-- Neither the plugins nor the navgraph are replaced. -/
def Steady : Callback R → Prop
  | setPlugins .. => False
  | reload _ => False
  | _ => True

instance : DecidablePred (Steady (R := R))
  | setPlugins .. | reload _ => inferInstanceAs (Decidable False)
  | robotState _ | submit _ | timer | setMode _ | setBattery _ => inferInstanceAs (Decidable True)

/-- The callbacks of the ordinary runs. -/
def Plain (cb : Callback R) : Prop := cb.Named ∧ cb.Steady

instance : DecidablePred (Plain (R := R)) := fun _ => inferInstanceAs (Decidable (_ ∧ _))

end Callback

/-- Between callbacks, in the loop over `robots_` of `on_timer`, in its loop over `tasks_`, or in
the body of that loop at `if (!t.moving)`. -/
inductive Conf (R : Type)
  | idle (s : FleetNode R)
  | patrols (s : FleetNode R) (keys : List String)
  | looping (s : FleetCore R) (kept todo : List (ActiveTask R))
  | asking (s : FleetCore R) (kept : List (ActiveTask R)) (t : ActiveTask R)
      (todo : List (ActiveTask R))

inductive Action (R : Type)
  | call (cb : Callback R)
  | go

/-- How many ticks the action begins. -/
def Action.timers : Action R → Nat
  | .call .timer => 1
  | _ => 0

/-- The action is not a callback, or a callback with `P`. -/
def Action.With (P : Callback R → Prop) : Action R → Prop
  | .call cb => P cb
  | .go => True

instance {P : Callback R → Prop} [DecidablePred P] : DecidablePred (Action.With P)
  | .call cb => inferInstanceAs (Decidable (P cb))
  | .go => inferInstanceAs (Decidable True)

theorem Action.With.mono {P Q : Callback R → Prop} (h : ∀ cb, P cb → Q cb) {a : Action R}
    (ha : a.With P) : a.With Q := by
  cases a with
  | call cb => exact h cb ha
  | go => trivial

theorem Action.With.named {a : Action R} (h : a.With Callback.Plain) : a.With Callback.Named :=
  h.mono fun _ hcb => hcb.1

theorem Action.With.steady {a : Action R} (h : a.With Callback.Plain) : a.With Callback.Steady :=
  h.mono fun _ hcb => hcb.2

theorem Action.With.not_swap {a : Action R} (h : a.With Callback.Steady) {req : SetPluginsRequest}
    {disp : Except String (Dispatcher R)} {traf : Except String ReservationDeadlock}
    (called : a = .call (.setPlugins req disp traf)) : False := by
  rw [called] at h
  exact h

namespace Conf

/-- The node in the middle of a loop, with the tasks still to come before those that are done. -/
def node : Conf R → FleetNode R
  | idle s => s
  | patrols s _ => s
  | looping s kept todo => { s with tasks := todo ++ kept }
  | asking s kept t todo => { s with tasks := t :: (todo ++ kept) }

theorem node_looping (s : FleetNode R) : (looping s.toFleetCore [] s.tasks).node = s := by
  simp [node]

theorem node_kept (s : FleetCore R) (kept todo : List (ActiveTask R)) (t : ActiveTask R) :
    (looping s (kept ++ [t]) todo).node = { s with tasks := todo ++ kept ++ [t] } := by
  simp [node]

end Conf

variable [Double R]

namespace FleetNode

def start (p : Setup R) : FleetNode R where
  dispatcher := Auction.assign
  traffic := {}
  activeDisp := "libi_fleet::Auction"
  activeTraf := "libi_fleet::ReservationDeadlock"
  graph := p.graph
  fleetName := p.fleetName
  patrol := p.patrol
  patrolRoute := p.patrolRoute
  robotMode := ∅
  robots := ∅
  energy := p.energy
  taskCounter := 0
  pathSeq := 0
  taskSeq := 0
  log := []
  tasks := []

def handle (s : FleetNode R) : Callback R → Option (FleetNode R)
  | .robotState msg => some (s.onRobotState msg)
  | .submit req => (s.onSubmit req).map (·.1)
  | .timer => s.onTimer
  | .setPlugins req disp traf => some (s.onSetPlugins req disp traf).1
  | .reload file => (s.onReload file).map (·.1)
  | .setMode req => some (s.onSetMode req).1
  | .setBattery req => some (s.onSetBattery req).1

end FleetNode

def fleet (p : Setup R) : Machine (FleetNode R) (Callback R) := ⟨.start p, FleetNode.handle⟩

namespace Conf

/-- The next iteration of a loop. -/
def next : Conf R → Option (Conf R)
  | idle _ => none
  | patrols s [] => some (looping s.toFleetCore [] s.tasks)
  | patrols s (key :: keys) => (s.patrolStep key).map fun s => patrols s keys
  | looping s kept [] => (FleetNode.publish { s with tasks := kept }).map idle
  | looping s kept (t :: todo) =>
    (s.settle t).map fun
      | (s, none) => looping s kept todo
      | (s, some t) => if t.moving then looping s (kept ++ [t]) todo else asking s kept t todo
  | asking s kept t todo => (s.request t).map fun (s, t) => looping s (kept ++ [t]) todo

def step : Conf R → Action R → Option (Conf R)
  | idle s, .call .timer => some (patrols s s.patrolKeys)
  | idle s, .call cb => (s.handle cb).map idle
  | _, .call _ => none
  | c, .go => c.next

end Conf

def ticks (p : Setup R) : Machine (Conf R) (Action R) := ⟨.idle (.start p), Conf.step⟩

/-- A task is about to make its request, and the state is one with `q`. -/
def Conf.asks (q : FleetCore R → List (ActiveTask R) → ActiveTask R → List (ActiveTask R) → Bool) :
    Conf R → Bool
  | asking s kept t todo => q s kept t todo
  | _ => false

/-- A run that is computed to end at a request with `q` witnesses one. -/
theorem exists_asking (p : Setup R) (ok : Conf R → Action R → Prop) [∀ c a, Decidable (ok c a)]
    (q : FleetCore R → List (ActiveTask R) → ActiveTask R → List (ActiveTask R) → Bool)
    (as : List (Action R))
    (h : ((ticks p).runWhen ok (ticks p).start as).any (Conf.asks q) = true) :
    ∃ s kept t todo, (ticks p).Reach ok (.asking s kept t todo) ∧ q s kept t todo = true := by
  obtain ⟨c, hc, hq⟩ := (ticks p).exists_reach ok (Conf.asks q) as h
  cases c with
  | asking s kept t todo => exact ⟨s, kept, t, todo, hc, hq⟩
  | idle | patrols | looping => cases hq

/-- The node is between two callbacks, in a state with `q`. -/
def Conf.rests (q : FleetNode R → Bool) : Conf R → Bool
  | idle s => q s
  | _ => false

/-- A run that is computed to end between two callbacks in a state with `q`. -/
theorem run_rests {p : Setup R} {ok : Conf R → Action R → Prop} [∀ c a, Decidable (ok c a)]
    {q : FleetNode R → Bool} {c : Conf R} {as : List (Action R)}
    (h : ((ticks p).runWhen ok c as).any (Conf.rests q) = true) :
    ∃ s way, (ticks p).Run ok c way (.idle s) ∧ way.map (·.2) = as.reverse ∧ q s = true := by
  obtain ⟨c', hc', hq⟩ := (Option.any_eq_true _ _).mp h
  obtain ⟨way, hrun, hactions⟩ := Machine.exists_run hc'
  cases c' with
  | idle s => exact ⟨s, way, hrun, hactions, hq⟩
  | patrols | looping | asking => cases hq

theorem exists_rests (p : Setup R) (ok : Conf R → Action R → Prop) [∀ c a, Decidable (ok c a)]
    (q : FleetNode R → Bool) (as : List (Action R))
    (h : ((ticks p).runWhen ok (ticks p).start as).any (Conf.rests q) = true) :
    ∃ s, (ticks p).Reach ok (.idle s) ∧ q s = true := by
  obtain ⟨s, way, hrun, -, hq⟩ := run_rests h
  exact ⟨s, Machine.Reach.start.run (fun _ _ h => h) hrun, hq⟩

section Refinement

variable {p : Setup R} {P : Callback R → Prop}

theorem reach_go {c c' : Conf R} (hc : (ticks p).Reach (fun _ a => a.With P) c)
    (h : c.next = some c') : (ticks p).Reach (fun _ a => a.With P) c' := by
  refine .step (a := .go) hc trivial ?_
  cases c <;> exact h

theorem reach_patrols {keys : List String} : ∀ {s s' : FleetNode R},
    (ticks p).Reach (fun _ a => a.With P) (.patrols s keys) →
    keys.foldlM FleetNode.patrolStep s = some s' →
    (ticks p).Reach (fun _ a => a.With P) (.patrols s' []) := by
  induction keys with
  | nil =>
    intro s s' hc h
    obtain rfl := Option.some.inj h
    exact hc
  | cons key keys ih =>
    intro s s' hc h
    rw [List.foldlM_cons] at h
    obtain ⟨t, ht, h⟩ := Option.bind_eq_some_iff.mp h
    exact ih (reach_go hc (by simp [Conf.next, ht])) h

theorem reach_taskStep {s s' : FleetCore R} {t : ActiveTask R} {t' : Option (ActiveTask R)}
    {kept todo : List (ActiveTask R)}
    (hc : (ticks p).Reach (fun _ a => a.With P) (.looping s kept (t :: todo)))
    (h : s.taskStep t = some (s', t')) :
    (ticks p).Reach (fun _ a => a.With P) (.looping s' (kept ++ t'.toList) todo) := by
  obtain ⟨⟨s1, t1⟩, hsettle, h⟩ := Option.bind_eq_some_iff.mp h
  cases t1 with
  | none =>
    obtain ⟨rfl, rfl⟩ := Prod.mk.inj (Option.some.inj h)
    rw [Option.toList_none, List.append_nil]
    exact reach_go hc (by simp [Conf.next, hsettle])
  | some t1 =>
    dsimp only at h
    split at h
    · rename_i hmoving
      obtain ⟨rfl, rfl⟩ := Prod.mk.inj (Option.some.inj h)
      exact reach_go hc (by simp [Conf.next, hsettle, hmoving])
    · rename_i hmoving
      obtain ⟨⟨s2, t2⟩, hrequest, h⟩ := Option.bind_eq_some_iff.mp h
      obtain ⟨rfl, rfl⟩ := Prod.mk.inj (Option.some.inj h)
      have hasking : (ticks p).Reach (fun _ a => a.With P) (.asking s1 kept t1 todo) :=
        reach_go hc (by simp [Conf.next, hsettle, hmoving])
      exact reach_go hasking (by simp [Conf.next, hrequest])

theorem reach_taskLoop {todo : List (ActiveTask R)} : ∀ {s s' : FleetCore R}
    {kept tasks : List (ActiveTask R)},
    (ticks p).Reach (fun _ a => a.With P) (.looping s kept todo) →
    s.taskLoop kept todo = some (s', tasks) →
    (ticks p).Reach (fun _ a => a.With P) (.looping s' tasks []) := by
  induction todo with
  | nil =>
    intro s s' kept tasks hc h
    obtain ⟨rfl, rfl⟩ := Prod.mk.inj (Option.some.inj h)
    exact hc
  | cons t todo ih =>
    intro s s' kept tasks hc h
    obtain ⟨⟨s1, t1⟩, hstep, h⟩ := Option.bind_eq_some_iff.mp h
    exact ih (reach_taskStep hc hstep) h

theorem reach_onTimer {s s' : FleetNode R}
    (hc : (ticks p).Reach (fun _ a => a.With P) (.patrols s s.patrolKeys))
    (h : s.onTimer = some s') : (ticks p).Reach (fun _ a => a.With P) (.idle s') := by
  obtain ⟨s1, hpatrols, h⟩ := Option.bind_eq_some_iff.mp h
  obtain ⟨⟨core, tasks⟩, hloop, h⟩ := Option.bind_eq_some_iff.mp h
  have hlooping := reach_go (reach_patrols hc hpatrols) rfl
  exact reach_go (reach_taskLoop hlooping hloop) (by simp [Conf.next, h])

/-- Every state between callbacks is a state of `ticks`. -/
theorem reach_ticks {s : FleetNode R} (hs : (fleet p).Reach (fun _ cb => P cb) s) :
    (ticks p).Reach (fun _ a => a.With P) (.idle s) := by
  induction hs with
  | start => exact .start
  | @step s s' cb _ hcb hstep ih =>
    cases cb with
    | timer =>
      have hpatrols : (ticks p).Reach (fun _ a => a.With P) (.patrols s s.patrolKeys) :=
        .step (a := .call .timer) ih hcb rfl
      exact reach_onTimer hpatrols hstep
    | _ =>
      refine .step (a := .call _) ih hcb ?_
      simp only [ticks, Conf.step, Option.map_eq_some_iff, Conf.idle.injEq]
      exact ⟨s', hstep, rfl⟩

end Refinement

/-! ## A yard

The graph on which the examples of the other modules drive: the corridor 0 – 1 – 2, the way
0 – 3 – 4 – 2 around it, and the siding 5 at its middle. -/

namespace Yard

def graph : Navgraph ℚ :=
  .build [⟨0, 0⟩, ⟨10, 0⟩, ⟨20, 0⟩, ⟨0, -10⟩, ⟨20, -10⟩, ⟨10, 10⟩]
    [(0, 1), (1, 0), (1, 2), (2, 1), (0, 3), (3, 0), (3, 4), (4, 3), (4, 2), (2, 4), (1, 5), (5, 1)]

/-- The yard with a patrol route, and with the mode that a new robot gets. -/
def setup (patrol : Bool) (patrolRoute : List Int) : Setup ℚ :=
  ⟨graph, "libi", patrol, patrolRoute, ⟨1, 1 / 2, 15⟩⟩

def seen (robot : String) (x y : ℚ) : Callback ℚ := .robotState ⟨robot, x, y⟩

def send (robot goal : String) : Callback ℚ := .submit ⟨goal, "", robot, 0, 0⟩

def mode (robot mode : String) : Callback ℚ := .setMode ⟨robot, mode⟩

/-- A callback taken by `ticks`, with `n` iterations after it. -/
def taken (cb : Callback ℚ) (n : Nat) : List (Action ℚ) := .call cb :: List.replicate n .go

end Yard

end LibiFleet
