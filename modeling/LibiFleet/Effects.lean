import LibiFleet.Operations
import LibiFleet.Tick

/-!
# What a step can do

Every step of `ticks` is a sequence of effects, each of them the doing of one robot.
This is the one place where the branches of the callbacks are taken apart; the
invariants are proved effect by effect.
-/

namespace LibiFleet

open ReservationDeadlock (Sheds)

variable {R : Type}

namespace ActiveTask

/-- The task at the vertex it was moving to. -/
def arrived (t : ActiveTask R) : ActiveTask R :=
  { t with idx := t.idx + 1, moving := false, reroutes := 0, waitTicks := 0 }

/-- The task that has been granted its next node. -/
def departed (t : ActiveTask R) : ActiveTask R :=
  { t with moving := true, waitLogged := false, stuck := false, waitTicks := 0 }

/-- The task on a detour. -/
def detoured (t : ActiveTask R) (path : List Int) : Detour → ActiveTask R
  | .deadlock => { FleetCore.rerouted t path with reroutes := t.reroutes + 1, stuck := false }
  | .stopped => FleetCore.rerouted t path
  | .timed => { FleetCore.rerouted t path with waitTicks := 0 }

section

variable (t : ActiveTask R) (path : List Int) (cause : Detour)

@[simp] theorem detoured_robot : (t.detoured path cause).robot = t.robot := by cases cause <;> rfl

@[simp] theorem detoured_id : (t.detoured path cause).id = t.id := by cases cause <;> rfl

@[simp] theorem detoured_patrol : (t.detoured path cause).patrol = t.patrol := by
  cases cause <;> rfl

@[simp] theorem detoured_startSeq : (t.detoured path cause).startSeq = t.startSeq := by
  cases cause <;> rfl

@[simp] theorem detoured_moving : (t.detoured path cause).moving = false := by cases cause <;> rfl

@[simp] theorem detoured_path : (t.detoured path cause).path = path := by cases cause <;> rfl

@[simp] theorem detoured_idx : (t.detoured path cause).idx = 1 := by cases cause <;> rfl

end

end ActiveTask

/-- No detour starts from a GRANT. -/
theorem Detour.refused {decision : MoveDecision} {cause : Detour}
    (h : decision = if cause = .deadlock then .deadlock else .wait) : decision ≠ .grant := by
  rw [h]
  split <;> simp

variable [Double R]

namespace FleetCore

/-- The request of a task for its next node. -/
def ask (s : FleetCore R) (t : ActiveTask R) : MoveDecision × FleetCore R :=
  s.requestMove t.robot t.cur t.next (s.computePriority t.robot t)

/-- The robot is closer than `kArrive` to the vertex. -/
def Near (s : FleetCore R) (robot : String) (v : Int) : Prop :=
  ∃ p, s.graph.vertex v = some p ∧
    hypot ((s.robot robot).x - p.x) ((s.robot robot).y - p.y) < kArrive

end FleetCore

namespace FleetNode

/-- The robot and the path of a submission that is accepted. -/
def dispatches (s : FleetNode R) (req : SubmitRequest) : Option (String × List Int) :=
  if goalOf req < 0 ∨ s.graph.size ≤ goalOf req then none
  else
    match s.selectRobot (goalOf req) (armActionsOf req) req.robot with
    | some (.ok robot) =>
      match ({ s with toFleetCore := s.touch robot } : FleetNode R).checkRoute robot (goalOf req)
          (armActionsOf req) with
      | some (.ok path) => some (robot, path)
      | _ => none
    | _ => none

/-- The robot and the path of a patrol that the entry `key` starts. -/
def patrols (s : FleetNode R) (key : String) : Option (String × List Int) :=
  let r := s.robot key
  if r.busy ∨ s.modeOf r.name ≠ .patrol ∨ s.tasks.any (·.robot = r.name) then none
  else (s.makePatrolPath r (-1)).map fun path => (r.name, path)

end FleetNode

namespace Conf

/-- The robot for which the step starts a task, and the path of the task. -/
def enlists : Conf R → Action R → Option (String × List Int)
  | idle s, .call (.submit req) => s.dispatches req
  | patrols s (key :: _), .go => s.patrols key
  | _, _ => none

/-- The robot whose task is cancelled in the step, if it has one. -/
def cancels : Conf R → Action R → Option String
  | idle s, .call (.submit req) => (s.dispatches req).map (·.1)
  | idle _, .call (.setMode req) =>
    match Mode.ofString? req.mode with
    | some .charge => none
    | some _ => some req.robot
    | none => none
  | _, _ => none

/-- The robot that finishes a lap in the step, the vertex it reaches and its next lap. -/
def laps : Conf R → Action R → Option (String × Int × List Int)
  | looping s _ (t :: _), .go => do
    let r := (s.touch t.robot).robot t.robot
    let tv ← s.graph.vertex t.next
    if kStuckTicks < (FleetCore.observe r t).noMove then none
    else if t.moving ∧ hypot (r.x - tv.x) (r.y - tv.y) < kArrive ∧ t.path.length ≤ t.idx + 1 ∧
        t.patrol then (s.makePatrolPath r (-1)).map fun path => (t.robot, t.next, path)
    else none
  | _, _ => none

/-- The step gives up a long WAIT and takes a detour. -/
def TimedReroute : Conf R → Prop
  | asking s _ t _ =>
    (s.ask t).1 = .wait ∧ (s.ask t).2.blockedByStopped t.next = false ∧
      2 ≤ ((s.ask t).2.timedDetour t).length
  | _ => False

instance : DecidablePred (TimedReroute (R := R))
  | asking s _ t _ => inferInstanceAs (Decidable ((s.ask t).1 = .wait ∧
      (s.ask t).2.blockedByStopped t.next = false ∧ 2 ≤ ((s.ask t).2.timedDetour t).length))
  | idle _ | patrols .. | looping .. => inferInstanceAs (Decidable False)

/-- The step takes a detour around a stopped robot. -/
def StoppedReroute : Conf R → Prop
  | asking s _ t _ =>
    (s.ask t).1 = .wait ∧ (s.ask t).2.blockedByStopped t.next = true ∧
      2 ≤ ((s.ask t).2.detour t t.back).length
  | _ => False

instance : DecidablePred (StoppedReroute (R := R))
  | asking s _ t _ => inferInstanceAs (Decidable ((s.ask t).1 = .wait ∧
      (s.ask t).2.blockedByStopped t.next = true ∧ 2 ≤ ((s.ask t).2.detour t t.back).length))
  | idle _ | patrols .. | looping .. => inferInstanceAs (Decidable False)

/-- What a loop of `on_timer` knows of what it has still to do. -/
def Sound : Conf R → Prop
  | patrols s keys => ∀ key ∈ keys, key ∈ s.robots ∧ 2 ≤ s.patrolRoute.length
  | asking _ _ t _ => t.moving = false
  | _ => True

end Conf

/-! ## Effects -/

/-- What one robot does in the step `a` of `c`. In the effects of the timer the task of the robot
is at the head of `tasks`. -/
inductive Effect (c : Conf R) (a : Action R) : String → FleetNode R → FleetNode R → Prop
  | sighting {s} (msg) (called : a = .call (.robotState msg)) :
      Effect c a msg.name s (s.onRobotState msg)
  | battery {s} (req) (called : a = .call (.setBattery req)) :
      Effect c a req.robot s (s.onSetBattery req).1
  | touch {s goal arm req robot} (chosen : s.selectRobot goal arm req = some (.ok robot)) :
      Effect c a robot s { s with toFleetCore := s.touch robot }
  | cancel {s robot} (here : s.tasks = c.node.tasks) (called : c.cancels a = some robot) :
      Effect c a robot s (s.cancelTask robot)
  | vacate {s} (robot) (jobless : ∀ t ∈ s.tasks, t.robot ≠ robot)
      (called : c.cancels a = some robot) : Effect c a robot s (s.releaseAll robot)
  | mode {s robot name m} (called : a = .call (.setMode ⟨robot, name⟩))
      (known : Mode.ofString? name = some m) (charge : m = .charge → c = .idle s)
      (away : m ≠ .charge →
        (∀ t ∈ s.tasks, t.robot ≠ robot) ∧ ∀ v, s.traffic.owner v ≠ some robot) :
      Effect c a robot s { s with robotMode := s.robotMode.insert robot m }
  | stopClaim {s robot name r} (called : a = .call (.setMode ⟨robot, name⟩))
      (stopped : s.modeOf robot = .stop) (known : s.robots[robot]? = some r) :
      Effect c a robot s { s with
        toFleetCore := (s.requestMove robot (s.graph.nearest r.x r.y) (s.graph.nearest r.x r.y)
          kStopPrio).2 }
  | dispatch {s s₀ : FleetNode R} {counter tid robot path prio arm goal n req sub}
      {s₁ : FleetNode R}
      (here : c = .idle s₀) (chosen : s₀.selectRobot goal n req = some (.ok robot))
      (modes : s.robotMode = s₀.robotMode) (known : robot ∈ s.robots)
      (idle : (s.robot robot).busy = false)
      (others : Alone robot c.node.traffic.owner s.traffic.owner)
      (start : c.enlists a = some (robot, path)) (inRange : s.graph.InRange goal)
      (route : path =
        if s.graph.nearest (s.robot robot).x (s.robot robot).y = goal then [goal, goal]
        else s.graph.dijkstra (s.graph.nearest (s.robot robot).x (s.robot robot).y) goal (-1))
      (long : 2 ≤ path.length) (seq : s.taskSeq = s₀.taskSeq) (called : a = .call (.submit sub))
      (answer : s₀.onSubmit sub = some (s₁, ⟨true, tid, ""⟩)) (final : s₁.taskSeq = s.taskSeq + 1) :
      Effect c a robot s (({ s with taskCounter := counter } : FleetNode R).enlist robot
        (.new tid robot path false prio (s.taskSeq + 1) arm) "ASSIGNED")
  | patrol {s : FleetNode R} {key path} (here : s = c.node) (known : key ∈ s.robots)
      (idle : (s.robot key).busy = false)
      (jobless : ∀ t ∈ s.tasks, t.robot ≠ (s.robot key).name)
      (mode : s.modeOf (s.robot key).name = .patrol) (long : 2 ≤ s.patrolRoute.length)
      (lap : s.makePatrolPath (s.robot key) (-1) = some path)
      (start : c.enlists a = some ((s.robot key).name, path)) :
      Effect c a (s.robot key).name s (s.enlist key
        (.new ("P-" ++ (s.robot key).name) (s.robot key).name path true 0 (s.taskSeq + 1) 0)
        "PATROL")
  | look {s t rest} (head : s.tasks = t :: rest) :
      Effect c a t.robot s { s with
        toFleetCore := s.touch t.robot
        tasks := FleetCore.observe ((s.touch t.robot).robot t.robot) t :: rest }
  | fail {s t rest traffic} (head : s.tasks = t :: rest) (stuck : kStuckTicks < t.noMove)
      (moving : t.moving = true) (sheds : Sheds t.robot s.traffic traffic)
      (freed : t.Placed → traffic = (s.traffic.release t.robot t.next).release t.robot t.cur) :
      Effect c a t.robot s { s.discharge t.robot with
        traffic
        log := .erased t.robot :: .taskState t.id "FAILED" t.robot :: s.log
        tasks := rest }
  | pass {s t rest} (head : s.tasks = t :: rest) (moving : t.moving = true)
      (more : t.idx + 1 < t.path.length) (near : s.Near t.robot t.next) :
      Effect c a t.robot s
        { s.emit (.arrival t.robot t.next) with tasks := t.arrived :: rest }
  | lap {s t rest path} (here : s.traffic = c.node.traffic) (head : s.tasks = t :: rest)
      (moving : t.moving = true)
      (last : t.path.length ≤ t.idx + 1) (patrol : t.patrol = true)
      (made : s.makePatrolPath (s.robot t.robot) (-1) = some path)
      (start : c.laps a = some (t.robot, t.next, path)) (near : s.Near t.robot t.next) :
      Effect c a t.robot s { (s.emit (.arrival t.robot t.next)).emit (.lap t.robot path) with
        tasks := { t.arrived with path, idx := 1 } :: rest }
  | complete {s t rest} (head : s.tasks = t :: rest) (moving : t.moving = true)
      (last : t.path.length ≤ t.idx + 1) (dispatched : t.patrol = false)
      (near : s.Near t.robot t.next) (timer : a = .go) :
      Effect c a t.robot s
        { (s.emit (.arrival t.robot t.next)).complete t with tasks := rest }
  | drive {s t rest} (head : s.tasks = t :: rest) (moving : t.moving = true) :
      Effect c a t.robot s { s with tasks := rest ++ [t] }
  | grant {s t rest target} (here : s = c.node) (head : s.tasks = t :: rest)
      (still : t.moving = false) (granted : (s.ask t).1 = .grant)
      (known : s.graph.vertex t.next = some target) :
      Effect c a t.robot s { (s.ask t).2 with
        traffic :=
          if t.cur ≠ t.next then (s.ask t).2.traffic.release t.robot t.cur else (s.ask t).2.traffic
        pathSeq := s.pathSeq + 1
        log := .pathRequest s.fleetName t.robot (t.robot ++ "-" ++ toString (s.pathSeq + 1))
          (s.robot t.robot).x (s.robot t.robot).y t.next target :: (s.ask t).2.log
        tasks := rest ++ [t.departed] }
  | reroute {s t rest path} (events cause) (here : s = c.node) (head : s.tasks = t :: rest)
      (still : t.moving = false)
      (refused : (s.ask t).1 = if cause = .deadlock then .deadlock else .wait)
      (found : path = s.detour t (if cause = .stopped then t.back else s.detourGoal t))
      (long : 2 ≤ path.length)
      (stopped : cause = .stopped → (s.ask t).2.blockedByStopped t.next = true)
      (timed : cause = .timed → c.TimedReroute)
      (told : ∀ e ∈ events, e = .taskState t.id "EXECUTING" t.robot)
      (counted : cause = .deadlock → t.reroutes < kMaxReroutes)
      (obstructed : cause = .stopped → c.StoppedReroute) :
      Effect c a t.robot s { (s.ask t).2 with
        log := .reroute t.robot cause :: (events ++ (s.ask t).2.log)
        tasks := rest ++ [t.detoured path cause] }
  | hold {s t rest} (events) (stuck : Bool) (waited : Nat) (here : s = c.node)
      (head : s.tasks = t :: rest) (still : t.moving = false) (refused : (s.ask t).1 ≠ .grant)
      (escalated : stuck = (t.stuck || (s.ask t).1 = .deadlock))
      (told : ∀ e ∈ events, e = .taskState t.id "EXECUTING" t.robot) :
      Effect c a t.robot s { (s.ask t).2 with
        log := events ++ (s.ask t).2.log
        tasks := rest ++ [{ t with stuck, waitLogged := true, waitTicks := waited }] }
  | publish {s} (events : List (Event R)) (reports : ∀ e ∈ events, e.Report) :
      Effect c a "" s { s with log := events ++ s.log }
  | reload {s graph} (file) (here : s = c.node) (called : a = .call (.reload file))
      (loaded : Navgraph.load file = some (some graph)) : Effect c a "" s { s with graph }
  | swap {s req disp traf} (dispatcher traffic activeDisp activeTraf)
      (called : a = .call (.setPlugins req disp traf))
      (loaded : dispatcher = s.dispatcher ∨ disp = .ok dispatcher) :
      Effect c a "" s { s with dispatcher, traffic, activeDisp, activeTraf }

/-- Where a task comes from that is there after an effect of the robot: it was there, or it has
just been started, or it was there and something has become of it. -/
inductive Stems (c : Conf R) (a : Action R) (s : FleetNode R) : String → ActiveTask R → Prop
  | same {robot t} (here : t ∈ s.tasks) : Stems c a s robot t
  | dispatch {s₀ s₁ : FleetNode R} {tid robot path prio arm goal sub} (known : robot ∈ s.robots)
      (idle : (s.robot robot).busy = false) (idler : c = .idle s₀)
      (start : c.enlists a = some (robot, path)) (inRange : s.graph.InRange goal)
      (route : path =
        if s.graph.nearest (s.robot robot).x (s.robot robot).y = goal then [goal, goal]
        else s.graph.dijkstra (s.graph.nearest (s.robot robot).x (s.robot robot).y) goal (-1))
      (long : 2 ≤ path.length) (called : a = .call (.submit sub))
      (answer : s₀.onSubmit sub = some (s₁, ⟨true, tid, ""⟩)) (final : s₁.taskSeq = s.taskSeq + 1) :
      Stems c a s robot (.new tid robot path false prio (s.taskSeq + 1) arm)
  | patrol {key path} (jobless : ∀ t ∈ s.tasks, t.robot ≠ (s.robot key).name)
      (mode : s.modeOf (s.robot key).name = .patrol) (long : 2 ≤ s.patrolRoute.length)
      (lap : s.makePatrolPath (s.robot key) (-1) = some path)
      (start : c.enlists a = some ((s.robot key).name, path)) :
      Stems c a s (s.robot key).name
        (.new ("P-" ++ (s.robot key).name) (s.robot key).name path true 0 (s.taskSeq + 1) 0)
  | look {t} (here : t ∈ s.tasks) :
      Stems c a s t.robot (FleetCore.observe ((s.touch t.robot).robot t.robot) t)
  | pass {t} (here : t ∈ s.tasks) (more : t.idx + 1 < t.path.length)
      (near : s.Near t.robot t.next) : Stems c a s t.robot t.arrived
  | lap {t path} (here : t ∈ s.tasks) (last : t.path.length ≤ t.idx + 1) (patrol : t.patrol = true)
      (made : s.makePatrolPath (s.robot t.robot) (-1) = some path) (near : s.Near t.robot t.next) :
      Stems c a s t.robot { t.arrived with path, idx := 1 }
  | grant {t} (here : t ∈ s.tasks) : Stems c a s t.robot t.departed
  | reroute {t path} (cause) (here : t ∈ s.tasks) (still : t.moving = false)
      (found : path = s.detour t (if cause = .stopped then t.back else s.detourGoal t))
      (long : 2 ≤ path.length) : Stems c a s t.robot (t.detoured path cause)
  | hold {t} (stuck : Bool) (waited : Nat) (here : t ∈ s.tasks) (still : t.moving = false) :
      Stems c a s t.robot { t with stuck, waitLogged := true, waitTicks := waited }

/-- Every task after an effect stems from somewhere. -/
theorem Effect.stems {c : Conf R} {a : Action R} {robot : String} {s s' : FleetNode R}
    (h : Effect c a robot s s') {t : ActiveTask R} (ht : t ∈ s'.tasks) : Stems c a s robot t := by
  -- the tasks but the changed one were there before
  have first {u u' : ActiveTask R} {rest : List (ActiveTask R)} (head : s.tasks = u :: rest)
      (ht : t ∈ u' :: rest) (hu : u ∈ s.tasks → Stems c a s robot u') : Stems c a s robot t := by
    rcases List.mem_cons.mp ht with rfl | ht
    · exact hu (head ▸ List.mem_cons_self)
    · exact .same (head ▸ List.mem_cons_of_mem _ ht)
  have turned {u u' : ActiveTask R} {rest : List (ActiveTask R)} (head : s.tasks = u :: rest)
      (ht : t ∈ rest ++ [u']) (hu : u ∈ s.tasks → Stems c a s robot u') : Stems c a s robot t :=
    first head ((List.perm_append_singleton _ _).mem_iff.mp ht) hu
  cases h with
  | sighting | battery | touch | mode | reload | vacate | stopClaim | publish | swap =>
    exact .same ht
  | cancel => exact .same (List.mem_filter.mp ht).1
  | dispatch here _ _ known idle _ start inRange route long _ called answer final =>
    rcases List.mem_append.mp ht with ht | ht
    · exact .same ht
    · rw [List.mem_singleton.mp ht]
      exact .dispatch known idle here start inRange route long called answer final
  | patrol _ _ _ jobless mode long lap start =>
    rcases List.mem_append.mp ht with ht | ht
    · exact .same ht
    · rw [List.mem_singleton.mp ht]
      exact .patrol jobless mode long lap start
  | fail head | complete head => exact .same (head ▸ List.mem_cons_of_mem _ ht)
  | look head => exact first head ht .look
  | pass head _ more near => exact first head ht fun here => .pass here more near
  | lap _ head _ last patrol made _ near =>
    exact first head ht fun here => .lap here last patrol made near
  | drive head => exact turned head ht .same
  | grant _ head => exact turned head ht .grant
  | reroute _ cause _ head still _ found long =>
    exact turned head ht fun here => .reroute cause here still found long
  | hold _ stuck waited _ head still =>
    exact turned head ht fun here => .hold stuck waited here still

/-- The effects of a step, one after the other. -/
inductive Effects (c : Conf R) (a : Action R) : FleetNode R → FleetNode R → Prop
  | refl (s : FleetNode R) : Effects c a s s
  | tail {s s' s'' : FleetNode R} {robot : String} :
      Effects c a s s' → Effect c a robot s' s'' → Effects c a s s''

namespace Effects

variable {c : Conf R} {a : Action R} {s s' s'' : FleetNode R}

theorem one {robot : String} (h : Effect c a robot s s') : Effects c a s s' := .tail (.refl s) h

theorem trans (h : Effects c a s s') (h' : Effects c a s' s'') : Effects c a s s'' := by
  induction h' with
  | refl => exact h
  | tail _ he ih => exact .tail ih he

/-- What every effect of the step keeps, the step keeps. -/
theorem keeps {P : FleetNode R → Prop} (h : Effects c a s s')
    (step : ∀ robot t t', Effect c a robot t t' → P t → P t') (hs : P s) : P s' := by
  induction h with
  | refl => exact hs
  | tail _ he ih => exact step _ _ _ he ih

end Effects

/-! ## Every step is made of effects -/

section Steps

variable {s s' : FleetNode R} {a : Action R}

theorem checkRoute_ok {robot : String} {goal n : Int} {path : List Int}
    (h : s.checkRoute robot goal n = some (.ok path)) :
    2 ≤ path.length ∧ path = (if s.graph.nearest (s.robot robot).x (s.robot robot).y = goal then
      [goal, goal]
      else s.graph.dijkstra (s.graph.nearest (s.robot robot).x (s.robot robot).y) goal (-1)) := by
  unfold FleetNode.checkRoute at h
  dsimp only at h
  generalize (if s.graph.nearest (s.robot robot).x (s.robot robot).y = goal then [goal, goal]
    else s.graph.dijkstra (s.graph.nearest (s.robot robot).x (s.robot robot).y) goal (-1)) = route
    at h ⊢
  split at h
  · cases h
  rename_i hlen
  obtain ⟨cost, -, h⟩ := Option.bind_eq_some_iff.mp h
  split at h
  · cases h
  obtain rfl := Except.ok.inj (Option.some.inj h)
  exact ⟨Nat.le_of_not_lt hlen, rfl⟩

/-- The entry of a robot after its task is cancelled, if it had one. -/
theorem cancelTask_robot {robot : String} (known : robot ∈ s.robots) :
    (s.cancelTask robot).robot robot = { s.robot robot with busy := false, taskId := "" } := by
  obtain ⟨r, hr⟩ := Option.isSome_iff_exists.mp (Std.ExtTreeMap.mem_iff_isSome_getElem?.mp known)
  have hc := @FleetNode.cancelTask_robots _ robot s robot
  rw [if_pos rfl, hr] at hc
  simp only [FleetCore.robot, Std.ExtTreeMap.getD_eq_getD_getElem?, hc, hr]
  rfl

theorem accept_effects {s s' : FleetNode R} {req : SubmitRequest} {res : SubmitResponse}
    {robot : String} {path : List Int}
    (goal : ¬ (FleetNode.goalOf req < 0 ∨ s.graph.size ≤ FleetNode.goalOf req))
    (chosen : s.selectRobot (FleetNode.goalOf req) (FleetNode.armActionsOf req) req.robot =
      some (.ok robot))
    (route : ({ s with toFleetCore := s.touch robot } : FleetNode R).checkRoute robot
      (FleetNode.goalOf req) (FleetNode.armActionsOf req) = some (.ok path))
    (h : ({ s with toFleetCore := s.touch robot } : FleetNode R).accept req robot path
      (FleetNode.armActionsOf req) = (s', res))
    (answer : s.onSubmit req = some (s', res)) :
    Effects (.idle s) (.call (.submit req)) { s with toFleetCore := s.touch robot } s' := by
  have start : Conf.enlists (.idle s) (.call (.submit req)) = some (robot, path) := by
    simp only [Conf.enlists, FleetNode.dispatches, if_neg goal, chosen, route]
  have cancels : Conf.cancels (.idle s) (.call (.submit req)) = some robot :=
    congrArg (Option.map Prod.fst) start
  have inRange : s.graph.InRange (FleetNode.goalOf req) := by
    rw [not_or, not_lt, not_le] at goal
    exact goal
  obtain ⟨long, hroute⟩ := checkRoute_ok route
  generalize ht : ({ s with toFleetCore := s.touch robot } : FleetNode R) = t at route h hroute ⊢
  have hseq : t.taskSeq = s.taskSeq := by
    rw [← ht]
    rfl
  have known : robot ∈ t.robots := by simp [← ht, FleetCore.touch]
  unfold FleetNode.accept at h
  dsimp only at h
  obtain ⟨rfl, rfl⟩ := Prod.mk.inj h
  by_cases hbusy : (t.robot robot).busy = true
  · simp only [if_pos hbusy] at answer ⊢
    have hc := cancelTask_robot known
    refine .tail (.one (.cancel (by rw [← ht]; rfl) cancels))
      (.dispatch rfl chosen ?_ ?_ ?_ ?_ start ?_ ?_ long hseq rfl answer ?_)
    · rw [FleetNode.cancelTask_robotMode, ← ht]
      rfl
    · exact FleetNode.mem_cancelTask_robots.mpr known
    · rw [hc]
    · rw [← ht]
      exact (FleetNode.cancelTask_sheds _ robot).alone
    · rw [FleetNode.cancelTask_graph, ← ht]
      exact inRange
    · rw [hc]
      exact hroute
    · rfl
  · simp only [if_neg hbusy] at answer ⊢
    refine .one (.dispatch rfl chosen ?_ known (by simpa using hbusy) ?_ start ?_ hroute long hseq
      rfl answer ?_)
    · rw [← ht]
      rfl
    · rw [← ht]
      exact Alone.refl _ _
    · rw [← ht]
      exact inRange
    · rfl

theorem onSubmit_effects {s s' : FleetNode R} {req : SubmitRequest} {res : SubmitResponse}
    (h : s.onSubmit req = some (s', res)) : Effects (.idle s) (.call (.submit req)) s s' := by
  have answer := h
  unfold FleetNode.onSubmit at h
  dsimp only at h
  split at h
  · obtain ⟨rfl, -⟩ := Prod.mk.inj (Option.some.inj h)
    exact .refl s
  rename_i goal
  obtain ⟨choice, chosen, h⟩ := Option.bind_eq_some_iff.mp h
  cases choice with
  | error reason =>
    obtain ⟨rfl, -⟩ := Prod.mk.inj (Option.some.inj h)
    exact .refl s
  | ok robot =>
    obtain ⟨route, hroute, h⟩ := Option.bind_eq_some_iff.mp h
    cases route with
    | error reason =>
      obtain ⟨rfl, -⟩ := Prod.mk.inj (Option.some.inj h)
      exact .one (.touch chosen)
    | ok path =>
      exact (Effects.one (.touch chosen)).trans
        (accept_effects goal chosen hroute (Option.some.inj h) answer)

/-- The end of `on_set_mode`, from the state `t` that the robot has given up what it has to. -/
theorem mode_effects {s t : FleetNode R} {req : SetRobotModeRequest} {m : Mode}
    (ht : Effects (.idle s) (.call (.setMode req)) s t) (known : Mode.ofString? req.mode = some m)
    (charge : m = .charge → t = s)
    (away : m ≠ .charge →
      (∀ u ∈ t.tasks, u.robot ≠ req.robot) ∧ ∀ v, t.traffic.owner v ≠ some req.robot) :
    Effects (.idle s) (.call (.setMode req)) s
      (let t := { t with robotMode := t.robotMode.insert req.robot m }
      if m = .stop then t.stopClaim req.robot else t) := by
  have hmode := Effects.tail ht (.mode rfl known (fun hm => by rw [charge hm]) away)
  dsimp only
  split
  · rename_i hstop
    unfold FleetNode.stopClaim
    split
    · rename_i r hr
      exact .tail hmode (.stopClaim rfl (by simp [FleetCore.modeOf, hstop]) hr)
    · exact hmode
  · exact hmode

theorem onSetMode_effects (s : FleetNode R) (req : SetRobotModeRequest) :
    Effects (.idle s) (.call (.setMode req)) s (s.onSetMode req).1 := by
  unfold FleetNode.onSetMode
  split
  · exact .refl s
  rename_i m known
  dsimp only
  by_cases hm : m ≠ .charge
  · simp only [if_pos hm]
    have cancels : Conf.cancels (.idle s) (.call (.setMode req)) = some req.robot := by
      simp only [Conf.cancels, known]
    refine mode_effects (.tail (.one (.cancel rfl cancels)) (.vacate req.robot ?_ cancels)) known
      (fun h => absurd h hm) fun _ => ⟨?_, FleetNode.releaseAll_owner⟩
    · exact fun t ht => (FleetNode.mem_cancelTask.mp ht).2
    · exact fun t ht => (FleetNode.mem_cancelTask.mp ht).2
  · simp only [if_neg hm]
    exact mode_effects (.refl s) known (fun _ => rfl) fun h => absurd h hm

theorem patrolStep_effects {s s' : FleetNode R} {key : String} {keys : List String}
    (known : key ∈ s.robots) (long : 2 ≤ s.patrolRoute.length)
    (h : s.patrolStep key = some s') : Effects (.patrols s (key :: keys)) .go s s' := by
  unfold FleetNode.patrolStep at h
  dsimp only at h
  split at h
  · obtain rfl := Option.some.inj h
    exact .refl s
  rename_i hready
  split at h
  · obtain rfl := Option.some.inj h
    exact .refl s
  rename_i hjobless
  obtain ⟨path, lap, h⟩ := Option.bind_eq_some_iff.mp h
  obtain rfl := Option.some.inj h
  simp only [not_or, Bool.not_eq_true, ne_eq, not_not] at hready
  refine .one (.patrol rfl known hready.1 ?_ hready.2 long lap ?_)
  · simpa using hjobless
  · simp only [Conf.enlists, FleetNode.patrols, hready, hjobless, lap]
    simp

section Timer

variable {s s' : FleetCore R} {t : ActiveTask R} {t' : Option (ActiveTask R)}
  {kept todo : List (ActiveTask R)}

theorem fail_eq (s : FleetCore R) (t : ActiveTask R) : ∃ traffic, Sheds t.robot s.traffic traffic ∧
    (t.Placed → traffic = (s.traffic.release t.robot t.next).release t.robot t.cur) ∧
    s.fail t = { s.discharge t.robot with
      traffic, log := .erased t.robot :: .taskState t.id "FAILED" t.robot :: s.log } := by
  unfold FleetCore.fail
  dsimp only
  split
  · split
    · exact ⟨_, (ReservationDeadlock.sheds_release ..).trans (ReservationDeadlock.sheds_release ..),
        fun _ => rfl, rfl⟩
    · rename_i h
      exact ⟨_, ReservationDeadlock.sheds_release .., fun hp => absurd hp.2 h, rfl⟩
  · rename_i h
    split
    · exact ⟨_, ReservationDeadlock.sheds_release .., fun hp => absurd hp.1 h, rfl⟩
    · exact ⟨_, .refl .., fun hp => absurd hp.1 h, rfl⟩

omit [Double R] in
/-- A wait that is announced only adds to the record. -/
theorem announceWait_eq (s : FleetCore R) (t : ActiveTask R) : ∃ events,
    s.announceWait t = { s with log := events ++ s.log } ∧
      ∀ e ∈ events, e = .taskState t.id "EXECUTING" t.robot := by
  unfold FleetCore.announceWait
  split
  · exact ⟨[], rfl, by simp⟩
  · exact ⟨[_], rfl, by simp⟩

theorem observe_moving {r : RobotInfo R} (h : kStuckTicks < (FleetCore.observe r t).noMove) :
    t.moving = true := by
  by_contra hm
  simp [FleetCore.observe, hm] at h

/-- The effects of an arrival, after `look` has been at the task. -/
theorem arrive_effects {c : Conf R} {rest : List (ActiveTask R)}
    (here : s.traffic = c.node.traffic) (moving : t.moving = true) (near : s.Near t.robot t.next)
    (start : ∀ path, t.path.length ≤ t.idx + 1 → t.patrol = true →
      s.makePatrolPath (s.robot t.robot) (-1) = some path →
      c.laps .go = some (t.robot, t.next, path))
    (h : s.arrive t = some (s', t')) :
    Effects c .go { s with tasks := t :: rest } { s' with tasks := t'.toList ++ rest } := by
  unfold FleetCore.arrive at h
  dsimp only at h
  split at h
  · rename_i last
    split at h
    · rename_i patrol
      obtain ⟨path, made, h⟩ := Option.bind_eq_some_iff.mp h
      obtain ⟨rfl, rfl⟩ := Prod.mk.inj (Option.some.inj h)
      exact .one (.lap here rfl moving last patrol made (start path last patrol made) near)
    · rename_i dispatched
      obtain ⟨rfl, rfl⟩ := Prod.mk.inj (Option.some.inj h)
      exact .one (.complete rfl moving last (by simpa using dispatched) near rfl)
  · rename_i more
    obtain ⟨rfl, rfl⟩ := Prod.mk.inj (Option.some.inj h)
    exact .one (.pass rfl moving (Nat.lt_of_not_le more) near)

/-- A patrol that is at the end of its path, with the lap that is made for it. -/
theorem laps_of {r : RobotInfo R} {tv : Vertex R} {path : List Int}
    (hr : (s.touch t.robot).robot t.robot = r) (known : s.graph.vertex t.next = some tv)
    (unstuck : ¬ kStuckTicks < (FleetCore.observe r t).noMove)
    (near : t.moving = true ∧ hypot (r.x - tv.x) (r.y - tv.y) < kArrive)
    (last : t.path.length ≤ t.idx + 1) (patrol : t.patrol = true)
    (made : s.makePatrolPath r (-1) = some path) :
    Conf.laps (.looping s kept (t :: todo)) .go = some (t.robot, t.next, path) := by
  simp only [Conf.laps, known, hr, made, if_neg unstuck, near.1, near.2, last, patrol,
    Option.map_some, Option.bind_eq_bind, Option.bind_some, and_self, if_true]

theorem settle_effects (h : s.settle t = some (s', t')) :
    Effects (.looping s kept (t :: todo)) .go { s with tasks := t :: (todo ++ kept) }
      { s' with tasks := t'.toList ++ (todo ++ kept) } := by
  unfold FleetCore.settle at h
  dsimp only at h
  obtain ⟨tv, hv, h⟩ := Option.bind_eq_some_iff.mp h
  refine (Effects.one (.look rfl)).trans ?_
  dsimp only
  generalize hr : (s.touch t.robot).robot t.robot = r at h hv ⊢
  split at h
  · rename_i stuck
    obtain ⟨rfl, rfl⟩ := Prod.mk.inj (Option.some.inj h)
    obtain ⟨traffic, sheds, freed, he⟩ := fail_eq (s.touch t.robot) (FleetCore.observe r t)
    rw [he]
    exact .one (.fail rfl stuck (show t.moving = true from observe_moving stuck) sheds freed)
  rename_i unstuck
  split at h
  · rename_i near
    refine arrive_effects rfl near.1 ⟨tv, hv, hr ▸ near.2⟩ ?_ h
    intro path last patrol made
    have made' : s.makePatrolPath r (-1) = some path := hr ▸ made
    exact laps_of hr hv unstuck near last patrol made'
  · obtain ⟨rfl, rfl⟩ := Prod.mk.inj (Option.some.inj h)
    exact .refl _

theorem onGrant_eq {t' : ActiveTask R} (h : (s.ask t).2.onGrant t = some (s', t')) :
    ∃ target, s.graph.vertex t.next = some target ∧ t' = t.departed ∧ s' = { (s.ask t).2 with
      traffic :=
        if t.cur ≠ t.next then (s.ask t).2.traffic.release t.robot t.cur else (s.ask t).2.traffic
      pathSeq := s.pathSeq + 1
      log := .pathRequest s.fleetName t.robot (t.robot ++ "-" ++ toString (s.pathSeq + 1))
        (s.robot t.robot).x (s.robot t.robot).y t.next target :: (s.ask t).2.log } := by
  unfold FleetCore.onGrant at h
  dsimp only at h
  split at h
  · rename_i hne
    obtain ⟨target, known, h⟩ := Option.bind_eq_some_iff.mp h
    obtain ⟨rfl, rfl⟩ := Prod.mk.inj (Option.some.inj h)
    refine ⟨target, known, rfl, ?_⟩
    rw [if_pos hne]
    rfl
  · rename_i hne
    obtain ⟨target, known, h⟩ := Option.bind_eq_some_iff.mp h
    obtain ⟨rfl, rfl⟩ := Prod.mk.inj (Option.some.inj h)
    refine ⟨target, known, rfl, ?_⟩
    rw [if_neg hne]
    rfl

theorem deadlockDetour_eq (long : 2 ≤ (s.deadlockDetour t).length) :
    s.deadlockDetour t = s.detour t (s.detourGoal t) ∧ t.reroutes < kMaxReroutes := by
  unfold FleetCore.deadlockDetour at long ⊢
  split
  · rename_i h
    exact ⟨rfl, h.1⟩
  · rename_i h
    rw [if_neg h] at long
    cases long

theorem timedDetour_eq (long : 2 ≤ (s.timedDetour t).length) :
    s.timedDetour t = s.detour t (s.detourGoal t) := by
  unfold FleetCore.timedDetour at long ⊢
  split
  · rfl
  · rename_i h
    rw [if_neg h] at long
    cases long

/-- What `request` does with the three answers. -/
theorem request_cases {t' : ActiveTask R} (h : s.request t = some (s', t')) :
    (s.ask t).1 = .grant ∧ (s.ask t).2.onGrant t = some (s', t') ∨
    (s.ask t).1 = .deadlock ∧ (s.ask t).2.onDeadlock t = (s', t') ∨
    (s.ask t).1 = .wait ∧ (s.ask t).2.onWait t = (s', t') := by
  unfold FleetCore.request at h
  unfold FleetCore.ask
  generalize s.requestMove t.robot t.cur t.next (s.computePriority t.robot t) = out at h ⊢
  obtain ⟨decision, s₁⟩ := out
  cases decision with
  | grant => exact .inl ⟨rfl, h⟩
  | deadlock => exact .inr (.inl ⟨rfl, Option.some.inj h⟩)
  | wait => exact .inr (.inr ⟨rfl, Option.some.inj h⟩)

theorem onDeadlock_effects {t' : ActiveTask R} (still : t.moving = false)
    (deadlock : (s.ask t).1 = .deadlock) (h : (s.ask t).2.onDeadlock t = (s', t')) :
    Effects (.asking s kept t todo) .go { s with tasks := t :: (todo ++ kept) }
      { s' with tasks := todo ++ kept ++ [t'] } := by
  unfold FleetCore.onDeadlock at h
  dsimp only at h
  split at h
  · rename_i long
    obtain ⟨hd, counted⟩ := deadlockDetour_eq long
    obtain ⟨rfl, rfl⟩ := Prod.mk.inj h
    exact .one (.reroute [] .deadlock rfl rfl still deadlock hd long (by simp) (by simp) (by simp)
      (fun _ => counted) (by simp))
  · obtain ⟨events, announced, told⟩ := announceWait_eq (s.ask t).2 t
    obtain ⟨rfl, rfl⟩ := Prod.mk.inj h
    rw [announced]
    have refused : (s.ask t).1 ≠ .grant := by simp [deadlock]
    have stuck : true = (t.stuck || (s.ask t).1 = .deadlock) := by simp [deadlock]
    exact .one (.hold events true t.waitTicks rfl rfl still refused stuck told)

theorem onWait_effects {t' : ActiveTask R} (still : t.moving = false)
    (wait : (s.ask t).1 = .wait) (h : (s.ask t).2.onWait t = (s', t')) :
    Effects (.asking s kept t todo) .go { s with tasks := t :: (todo ++ kept) }
      { s' with tasks := todo ++ kept ++ [t'] } := by
  have refused : (s.ask t).1 ≠ .grant := by simp [wait]
  have calm : t.stuck = (t.stuck || (s.ask t).1 = .deadlock) := by simp [wait]
  unfold FleetCore.onWait at h
  split at h
  · rename_i blocked
    dsimp only at h
    split at h
    · rename_i long
      obtain ⟨rfl, rfl⟩ := Prod.mk.inj h
      exact .one (.reroute [] .stopped rfl rfl still wait rfl long (fun _ => blocked)
        (by simp) (by simp) (by simp) (fun _ => ⟨wait, blocked, long⟩))
    · obtain ⟨rfl, rfl⟩ := Prod.mk.inj h
      exact .one (.hold [] t.stuck t.waitTicks rfl rfl still refused calm (by simp))
  · rename_i blocked
    obtain ⟨events, announced, told⟩ := announceWait_eq (s.ask t).2 t
    dsimp only at h
    split at h
    · rename_i long
      have hd := timedDetour_eq long
      obtain ⟨rfl, rfl⟩ := Prod.mk.inj h
      rw [announced]
      exact .one (.reroute events .timed rfl rfl still wait hd long (by simp)
        (fun _ => ⟨wait, by simpa using blocked, long⟩) told (by simp) (by simp))
    · obtain ⟨rfl, rfl⟩ := Prod.mk.inj h
      rw [announced]
      exact .one (.hold events t.stuck _ rfl rfl still refused calm told)

theorem request_effects {t' : ActiveTask R} (still : t.moving = false)
    (h : s.request t = some (s', t')) :
    Effects (.asking s kept t todo) .go { s with tasks := t :: (todo ++ kept) }
      { s' with tasks := todo ++ kept ++ [t'] } := by
  rcases request_cases h with ⟨granted, h⟩ | ⟨deadlock, h⟩ | ⟨wait, h⟩
  · obtain ⟨target, known, rfl, rfl⟩ := onGrant_eq h
    exact .one (.grant rfl rfl still granted known)
  · exact onDeadlock_effects still deadlock h
  · exact onWait_effects still wait h

end Timer

theorem next_effects {c c' : Conf R} (hc : c.Sound) (h : c.next = some c') :
    Effects c .go c.node c'.node := by
  cases c with
  | idle s => cases h
  | patrols s keys =>
    cases keys with
    | nil =>
      obtain rfl := Option.some.inj h
      rw [Conf.node_looping]
      exact .refl s
    | cons key keys =>
      obtain ⟨s', hs', rfl⟩ := Option.map_eq_some_iff.mp h
      have hkey := hc key (by simp)
      exact patrolStep_effects hkey.1 hkey.2 hs'
  | looping s kept todo =>
    cases todo with
    | nil =>
      obtain ⟨s', hs', rfl⟩ := Option.map_eq_some_iff.mp h
      obtain ⟨events, rfl, reports⟩ := FleetNode.publish_eq hs'
      exact .one (.publish events reports)
    | cons t todo =>
      obtain ⟨⟨s', t'⟩, hs', rfl⟩ := Option.map_eq_some_iff.mp h
      have hsettle : Effects (.looping s kept (t :: todo)) .go _ _ := settle_effects hs'
      cases t' with
      | none => exact hsettle
      | some t' =>
        dsimp only
        split
        · rename_i moving
          rw [Conf.node_kept]
          exact .tail hsettle (.drive rfl moving)
        · exact hsettle
  | asking s kept t todo =>
    obtain ⟨⟨s', t'⟩, hs', rfl⟩ := Option.map_eq_some_iff.mp h
    rw [Conf.node_kept]
    exact request_effects hc hs'

theorem call_effects {s s' : FleetNode R} {cb : Callback R} (hcb : cb ≠ .timer)
    (h : s.handle cb = some s') : Effects (.idle s) (.call cb) s s' := by
  cases cb with
  | timer => exact absurd rfl hcb
  | robotState msg =>
    obtain rfl := Option.some.inj h
    exact .one (.sighting msg rfl)
  | submit req =>
    obtain ⟨⟨s', res⟩, hs', rfl⟩ := Option.map_eq_some_iff.mp h
    exact onSubmit_effects hs'
  | setPlugins req disp traf =>
    obtain rfl := Option.some.inj h
    obtain ⟨dispatcher, traffic, activeDisp, activeTraf, loaded, he⟩ :=
      s.onSetPlugins_eq req disp traf
    rw [he]
    exact .one (.swap dispatcher traffic activeDisp activeTraf rfl loaded)
  | reload file =>
    obtain ⟨⟨s', res⟩, hs', rfl⟩ := Option.map_eq_some_iff.mp h
    obtain ⟨graph, loaded, hs'⟩ := Option.bind_eq_some_iff.mp hs'
    cases graph with
    | none =>
      obtain ⟨rfl, -⟩ := Prod.mk.inj (Option.some.inj hs')
      exact .refl s
    | some graph =>
      obtain ⟨rfl, -⟩ := Prod.mk.inj (Option.some.inj hs')
      exact .one (.reload file rfl rfl loaded)
  | setMode req =>
    obtain rfl := Option.some.inj h
    exact onSetMode_effects s req
  | setBattery req =>
    obtain rfl := Option.some.inj h
    exact .one (.battery req rfl)

/-- What a step is: the next iteration of a loop, the start of the timer, or another callback. -/
theorem step_cases {c c' : Conf R} {a : Action R} (h : c.step a = some c') :
    a = .go ∧ c.next = some c' ∨
    (∃ s, c = .idle s ∧ a = .call .timer ∧ c' = .patrols s s.patrolKeys) ∨
    ∃ s s' cb, c = .idle s ∧ a = .call cb ∧ cb ≠ .timer ∧ s.handle cb = some s' ∧
      c' = .idle s' := by
  cases a with
  | go =>
    refine .inl ⟨rfl, ?_⟩
    cases c <;> exact h
  | call cb =>
    cases c with
    | idle s =>
      cases cb with
      | timer => exact .inr (.inl ⟨s, rfl, rfl, (Option.some.inj h).symm⟩)
      | _ =>
        simp only [Conf.step, Option.map_eq_some_iff] at h
        obtain ⟨s', hs', rfl⟩ := h
        exact .inr (.inr ⟨s, s', _, rfl, rfl, by simp, hs', rfl⟩)
    | _ => cases h

/-- Every step is made of effects. -/
theorem step_effects {c c' : Conf R} {a : Action R} (hc : c.Sound) (h : c.step a = some c') :
    Effects c a c.node c'.node := by
  rcases step_cases h with ⟨rfl, hnext⟩ | ⟨s, rfl, rfl, rfl⟩ | ⟨s, s', cb, rfl, rfl, hcb, hs', rfl⟩
  · exact next_effects hc hnext
  · exact .refl s
  · exact call_effects hcb hs'

end Steps

end LibiFleet
