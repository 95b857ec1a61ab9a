import LibiFleet.PatrolCycle
import LibiFleet.Assignment
import LibiFleet.Reload

/-!
# Indices into the graph

The node makes vertex numbers in four places: the patrol loop, the built-in route it
falls back on, Dijkstra's search and the nearest vertex. It looks them up ticks later,
and an exception there ends the node. Only the built-in route is made without a look at
the graph.
-/

namespace LibiFleet

open Std (ExtTreeMap)

variable {R : Type}

namespace Setup

/-- The constructor with `patrol_route` `auto`; `none` is an exception. -/
def auto [Angles R] (file : NavFile R) (fleetName : String) (patrol : Bool)
    (energy : EnergyParams R) : Option (Setup R) := do
  let graph ← (Navgraph.load file).join
  let patrolRoute ← graph.autoRoute
  some { graph, fleetName, patrol, patrolRoute, energy }

variable [Double R]

/-- In every run the patrol route and the paths of the tasks are made of vertices. -/
def Indexed (p : Setup R) : Prop :=
  ∀ s, (fleet p).Reach (fun _ cb => cb.Steady) s →
    (∀ v ∈ s.patrolRoute, s.graph.InRange v) ∧ ∀ t ∈ s.tasks, ∀ v ∈ t.path, s.graph.InRange v

/-- In no run a callback throws. -/
def Unthrown (p : Setup R) : Prop :=
  ∀ s, (fleet p).Reach (fun _ cb => cb.Steady) s → ∀ cb : Callback R, cb.Steady →
    ∃ s', s.handle cb = some s'

end Setup

section Runs

variable [Double R] {p : Setup R} {s : FleetNode R}

omit [Double R] in
theorem Callback.Steady.grows {cb : Callback R} (h : cb.Steady) : Grows s cb := by
  cases cb with
  | setPlugins | reload => cases h
  | _ => trivial

theorem selectRobot_some (hd : s.dispatcher = Auction.assign) (goal arm : Int) (req : String) :
    ∃ choice, s.selectRobot goal arm req = some choice := by
  unfold FleetNode.selectRobot
  split
  · split
    · exact ⟨_, rfl⟩
    split
    · exact ⟨_, rfl⟩
    · exact ⟨_, rfl⟩
  · rw [hd]
    obtain ⟨winner, hwinner⟩ := Option.isSome_iff_exists.mp
      (Auction.assign_isSome goal arm s.snapshot s.graph s.energy)
    exact ⟨_, Option.bind_eq_some_iff.mpr ⟨winner, hwinner, rfl⟩⟩

theorem checkRoute_some {goal : Int} (hgoal : s.graph.InRange goal) (robot : String) (arm : Int) :
    ∃ check, s.checkRoute robot goal arm = some check := by
  have hrange : ∀ v ∈ (if s.graph.nearest (s.robot robot).x (s.robot robot).y = goal then
      [goal, goal]
      else s.graph.dijkstra (s.graph.nearest (s.robot robot).x (s.robot robot).y) goal (-1)),
      s.graph.InRange v := by
    intro v hv
    split at hv
    · rcases List.mem_pair.mp hv with rfl | rfl <;> exact hgoal
    · exact Navgraph.dijkstra_range _ _ _ v hv
  unfold FleetNode.checkRoute
  dsimp only
  generalize (if s.graph.nearest (s.robot robot).x (s.robot robot).y = goal then [goal, goal]
    else s.graph.dijkstra (s.graph.nearest (s.robot robot).x (s.robot robot).y) goal (-1)) = route
    at hrange
  split
  · exact ⟨_, rfl⟩
  · obtain ⟨cost, hcost⟩ := Option.isSome_iff_exists.mp (Navgraph.pathCostFrom_isSome _ 0 hrange)
    exact ⟨_, Option.bind_eq_some_iff.mpr ⟨cost, hcost, rfl⟩⟩

theorem onSubmit_some (hd : s.dispatcher = Auction.assign) (req : SubmitRequest) :
    ∃ out, s.onSubmit req = some out := by
  unfold FleetNode.onSubmit
  dsimp only
  split
  · exact ⟨_, rfl⟩
  rename_i hgoal
  have hin : s.graph.InRange (FleetNode.goalOf req) := by
    unfold Navgraph.InRange
    omega
  obtain ⟨choice, hchoice⟩ :=
    selectRobot_some hd (FleetNode.goalOf req) (FleetNode.armActionsOf req) req.robot
  rw [hchoice]
  cases choice with
  | error reason => exact ⟨_, rfl⟩
  | ok robot =>
    obtain ⟨check, hcheck⟩ :=
      checkRoute_some (s := { s with toFleetCore := s.touch robot }) hin robot
        (FleetNode.armActionsOf req)
    simp only [Option.bind_eq_bind, Option.bind_some, hcheck]
    cases check with
    | error reason => exact ⟨_, rfl⟩
    | ok path => exact ⟨_, rfl⟩

theorem handle_some (hs : Ready s) (hd : s.dispatcher = Auction.assign) {cb : Callback R}
    (steady : cb.Steady) : ∃ s', s.handle cb = some s' := by
  cases cb with
  | robotState msg => exact ⟨_, rfl⟩
  | submit req =>
    obtain ⟨out, hout⟩ := onSubmit_some hd req
    exact ⟨out.1, Option.map_eq_some_iff.mpr ⟨out, hout, rfl⟩⟩
  | timer =>
    obtain ⟨s', htimer, -⟩ := onTimer_some (g := s.graph) ⟨hs, rfl⟩
    exact ⟨s', htimer⟩
  | setPlugins => cases steady
  | reload => cases steady
  | setMode req => exact ⟨_, rfl⟩
  | setBattery req => exact ⟨_, rfl⟩

/-- With a route of vertices no index ever leaves the graph. -/
theorem indexed_of_route (hp : ∀ v ∈ p.patrolRoute, p.graph.InRange v) :
    p.Indexed ∧ p.Unthrown := by
  have ready (s : FleetNode R) (hs : (fleet p).Reach (fun _ cb => cb.Steady) s) : Ready s :=
    reach_ready hp (hs.mono fun _ _ => Callback.Steady.grows)
  constructor
  · intro s hs
    exact ⟨(ready s hs).route, fun t ht => ((ready s hs).tasks t ht).range⟩
  · intro s hs cb steady
    exact handle_some (ready s hs) (reach_auction hs) steady

theorem patrolEntry_range {g : Navgraph R} {r : RobotInfo R} (vs : List Int) : ∀ i k bd k',
    FleetCore.patrolEntry g r i k bd vs = some k' → ∀ v ∈ vs, g.InRange v := by
  induction vs with
  | nil => simp
  | cons v vs ih =>
    intro i k bd k' h
    obtain ⟨p, hp, h⟩ := Option.bind_eq_some_iff.mp h
    have hv : g.InRange v := Navgraph.vertex_isSome.mp (by rw [hp]; rfl)
    dsimp only at h
    split at h
    · exact List.forall_mem_cons.mpr ⟨hv, ih _ _ _ _ h⟩
    · exact List.forall_mem_cons.mpr ⟨hv, ih _ _ _ _ h⟩

/-- A patrol is only started along a route of vertices. -/
theorem startPatrol_route {key : String} {r : RobotInfo R} {s' : FleetNode R}
    (h : s.startPatrol key r = some s') : ∀ v ∈ s.patrolRoute, s.graph.InRange v := by
  obtain ⟨path, hpath, -⟩ := Option.bind_eq_some_iff.mp h
  obtain ⟨k, hk, -⟩ := Option.bind_eq_some_iff.mp hpath
  exact patrolEntry_range _ _ _ _ _ hk

/-- The first robot that is seen starts a patrol at the next timer, which looks up the whole
route. -/
theorem route_of_unthrown (patrol : p.patrol = true) (long : 2 ≤ p.patrolRoute.length)
    (h : p.Unthrown) : ∀ v ∈ p.patrolRoute, p.graph.InRange v := by
  generalize hseen : (FleetNode.start p).onRobotState ⟨"r", 0, 0⟩ = s
  have hreach : (fleet p).Reach (fun _ cb => cb.Steady) s :=
    .step (a := .robotState ⟨"r", 0, 0⟩) .start trivial (congrArg some hseen)
  have hmem (k : String) : k ∈ s.robots ↔ k = "r" := by
    rw [← hseen]
    change k ∈ (∅ : ExtTreeMap String (RobotInfo R)).insert "r" _ ↔ k = "r"
    rw [ExtTreeMap.mem_insert, Std.LawfulEqCmp.compare_eq_iff_eq]
    simp [eq_comm]
  have hkeys : s.patrolKeys = s.robots.keys := by
    rw [← hseen]
    exact if_pos long
  obtain ⟨s', htimer⟩ := h s hreach .timer trivial
  obtain ⟨s1, hpatrols, -⟩ := Option.bind_eq_some_iff.mp htimer
  rw [hkeys] at hpatrols
  obtain ⟨s2, hstep⟩ : ∃ s2, s.patrolStep "r" = some s2 := by
    cases hlist : s.robots.keys with
    | nil =>
      have hr : "r" ∈ s.robots.keys := ExtTreeMap.mem_keys.mpr ((hmem "r").mpr rfl)
      simp [hlist] at hr
    | cons k keys =>
      have hk : k ∈ s.robots := ExtTreeMap.mem_keys.mp (by simp [hlist])
      rw [hlist, List.foldlM_cons] at hpatrols
      obtain ⟨s2, hs2, -⟩ := Option.bind_eq_some_iff.mp hpatrols
      exact ⟨s2, (hmem k).mp hk ▸ hs2⟩
  have hpatrol : s.startPatrol "r" (s.robot "r") = some s2 := by
    unfold FleetNode.patrolStep at hstep
    subst hseen
    simpa [FleetNode.onRobotState, FleetNode.start, FleetCore.robot, FleetCore.modeOf, patrol,
      RobotInfo.new] using hstep
  have hroute := startPatrol_route hpatrol
  rwa [← hseen] at hroute

end Runs

/-- A node that makes its own patrol route never looks a vertex up outside its graph, in any run,
exactly on the graphs on which it finds a loop or which have the vertices of the built-in route. -/
theorem indices_in_range [Angles R] {file : NavFile R} {g : Navgraph R}
    (loaded : Navgraph.load file = some (some g)) (fleetName : String) (energy : EnergyParams R) :
    ∃ p, Setup.auto file fleetName true energy = some p ∧ p.graph = g ∧
      (p.Indexed ↔ g.CanPatrol) ∧ (p.Unthrown ↔ g.CanPatrol) := by
  obtain ⟨route, hroute, long, hfits⟩ := g.autoRoute_some
  refine ⟨⟨g, fleetName, true, route, energy⟩, ?_, rfl, ?_⟩
  · simp [Setup.auto, loaded, hroute]
  rw [← hfits]
  constructor
  · constructor
    · intro h
      exact (h _ .start).1
    · intro h
      exact (indexed_of_route h).1
  · constructor
    · intro h
      exact route_of_unthrown rfl long h
    · intro h
      exact (indexed_of_route h).2

/-- The map of the library has the eight vertices of the built-in route. -/
theorem indices_in_range_library : ∃ g p, Navgraph.load libraryMap = some (some g) ∧
    Setup.auto libraryMap "libi" true ⟨1, 1 / 2, 15⟩ = some p ∧ p.Indexed ∧ p.Unthrown := by
  obtain ⟨g, loaded, hg⟩ : ∃ g, Navgraph.load libraryMap = some (some g) ∧ g.CanPatrol :=
    ⟨_, rfl, .inr (by decide)⟩
  obtain ⟨p, hp, -, hindexed, hunthrown⟩ := indices_in_range loaded "libi" ⟨1, 1 / 2, 15⟩
  exact ⟨g, p, loaded, hp, hindexed.mpr hg, hunthrown.mpr hg⟩

namespace Yard

/-- The node of a map with one vertex, which falls back on the built-in route. -/
def single : Setup ℚ := ⟨.build [⟨0, 0⟩] [], "libi", true, Navgraph.defaultRoute, ⟨1, 1 / 2, 15⟩⟩

end Yard

/-- On a map with one vertex the first timer after the first robot is seen throws. -/
theorem indices_leave_graph : ¬ ∀ (file : NavFile ℚ) (g : Navgraph ℚ) (p : Setup ℚ),
    Navgraph.load file = some (some g) →
    Setup.auto file "libi" true ⟨1, 1 / 2, 15⟩ = some p → p.Indexed ∧ p.Unthrown := by
  intro h
  obtain ⟨-, hunthrown⟩ := h (.level [some (0, 0)] []) Yard.single.graph Yard.single rfl rfl
  have hseen : (fleet Yard.single).Reach (fun _ cb => cb.Steady)
      ((FleetNode.start Yard.single).onRobotState ⟨"r1", 0, 0⟩) :=
    .step (a := .robotState ⟨"r1", 0, 0⟩) .start trivial rfl
  obtain ⟨s', htimer⟩ := hunthrown _ hseen .timer trivial
  have hthrow : (((FleetNode.start Yard.single).onRobotState ⟨"r1", 0, 0⟩).handle
      .timer).isNone = true := by
    decide +kernel
  rw [htimer] at hthrow
  cases hthrow

end LibiFleet
