import LibiFleet.Auction

/-!
# The fleet node

`fleet_node.cpp`. The state of the class is `FleetNode`; `FleetCore` is all of it
but `tasks_`, which is what the body of the loop over `tasks_` works on. A
callback is `none` where an exception leaves it. `log` records the run and is
read by no callback.
-/

namespace LibiFleet

open Std (ExtTreeMap)

structure FleetCore (R : Type) where
  dispatcher : Dispatcher R
  traffic : ReservationDeadlock
  activeDisp : String
  activeTraf : String
  graph : Navgraph R
  fleetName : String
  patrol : Bool
  patrolRoute : List Int
  robotMode : ExtTreeMap String Mode
  robots : ExtTreeMap String (RobotInfo R)
  energy : EnergyParams R
  taskCounter : Nat
  pathSeq : Nat
  taskSeq : Nat
  log : List (Event R)

structure FleetNode (R : Type) extends FleetCore R where
  tasks : List (ActiveTask R)

variable {R : Type}

namespace FleetCore

def emit (s : FleetCore R) (e : Event R) : FleetCore R := { s with log := e :: s.log }

def modeOf (s : FleetCore R) (robot : String) : Mode := s.robotMode.getD robot .idle

/-- `node` is held by a robot in STOP mode. -/
def blockedByStopped (s : FleetCore R) (node : Int) : Bool :=
  s.traffic.occupancy.any fun no => no.1 = node ∧ s.modeOf no.2 = .stop

/-- The tier of `compute_priority`. -/
def tier (s : FleetCore R) (robot : String) (t : ActiveTask R) : Int :=
  if t.stuck then 3
  else if s.modeOf robot = .charge then 2
  else if t.patrol then 0
  else 1

/-- The age of `compute_priority`: larger for an older task. -/
def age (t : ActiveTask R) : Int :=
  kSeqMax - (if (t.startSeq : Int) < kSeqMax then (t.startSeq : Int) else kSeqMax)

/-- `requestMove` of the plugin, with its place in the record. -/
def requestMove (s : FleetCore R) (robot : String) (src dst priority : Int) :
    MoveDecision × FleetCore R :=
  let (decision, traffic) := s.traffic.requestMove robot src dst priority
  (decision, { s with
    traffic, log := .moveRequest robot src dst priority decision :: s.log })

def release (s : FleetCore R) (robot : String) (node : Int) : FleetCore R :=
  { s with traffic := s.traffic.release robot node }

/-- The successor of `node` in the patrol route, `-1` if it is not on it. -/
def patrolSucc (s : FleetCore R) (node : Int) : Int :=
  match s.patrolRoute.idxOf? node with
  | some i => s.patrolRoute.getD ((i + 1) % s.patrolRoute.length) 0
  | none => -1

variable [Double R]

/-- `robots_[name]`, read. -/
def robot (s : FleetCore R) (name : String) : RobotInfo R := s.robots.getD name .new

/-- `robots_[name]` makes an entry if there is none. -/
def touch (s : FleetCore R) (name : String) : FleetCore R :=
  { s with robots := s.robots.insertIfNew name .new }

/-- `busy = false; task_id.clear()` on an entry of `robots_`. -/
def discharge (s : FleetCore R) (name : String) : FleetCore R :=
  { s with robots := s.robots.insert name { s.robot name with busy := false, taskId := "" } }

def batteryOf (s : FleetCore R) (robot : String) : R :=
  match s.robots[robot]? with
  | some r => r.battery
  | none => 100

/-- The battery term of `compute_priority`: larger for an emptier battery. -/
def batteryTerm (s : FleetCore R) (robot : String) : Int :=
  let bi := lround (s.batteryOf robot)
  100 - (if bi < 0 then 0 else if 100 < bi then 100 else bi)

def computePriority (s : FleetCore R) (robot : String) (t : ActiveTask R) : Int :=
  s.tier robot t * kTierStep + age t * kAgeStep + s.batteryTerm robot

def sendPath (s : FleetCore R) (robot : String) (x0 y0 : R) (vertex : Int) (target : Vertex R) :
    FleetCore R :=
  let seq := s.pathSeq + 1
  { s with
    pathSeq := seq
    log := .pathRequest s.fleetName robot (robot ++ "-" ++ toString seq) x0 y0 vertex target ::
      s.log }

/-- The loop of `make_patrol_path` that looks for the nearest vertex of the route, from
position `i` on, with `k` the best so far at the distance `bd`. -/
def patrolEntry (g : Navgraph R) (r : RobotInfo R) (i k : Nat) (bd : R) : List Int → Option Nat
  | [] => some k
  | v :: vs => do
    let p ← g.vertex v
    let dd := hypot (r.x - p.x) (r.y - p.y)
    if dd < bd then patrolEntry g r (i + 1) i dd vs else patrolEntry g r (i + 1) k bd vs

/-- One lap of the route from position `k` on, closed by the vertex it starts at. -/
def lapFrom (route : List Int) (k : Nat) : List Int :=
  (List.range route.length).map (fun i => route.getD ((k + i) % route.length) 0) ++
    [route.getD k 0]

def makePatrolPath (s : FleetCore R) (r : RobotInfo R) (avoidFirst : Int) : Option (List Int) := do
  let n := s.patrolRoute.length
  let k ← patrolEntry s.graph r 0 0 (10 ^ 18) s.patrolRoute
  let k :=
    if 0 ≤ avoidFirst ∧ s.patrolRoute.getD ((k + 1) % n) 0 = avoidFirst then (k + 1) % n else k
  some (lapFrom s.patrolRoute k)

end FleetCore

namespace FleetNode

def isOnPatrol (s : FleetNode R) (robot : String) : Bool :=
  match s.tasks.find? (·.robot = robot) with
  | some t => t.patrol
  | none => false

/-- The releases of `cancel_task` for one task. -/
def cancelRelease (σ : ReservationDeadlock) (t : ActiveTask R) : ReservationDeadlock :=
  let σ := if 1 ≤ t.idx ∧ t.idx - 1 < t.path.length then σ.release t.robot t.cur else σ
  if t.idx < t.path.length then σ.release t.robot t.next else σ

def cancelTask (s : FleetNode R) (robot : String) : FleetNode R :=
  let closing := s.tasks.filter (·.robot = robot)
  { s with
    traffic := closing.foldl cancelRelease s.traffic
    tasks := s.tasks.filter (·.robot ≠ robot)
    robots :=
      match s.robots[robot]? with
      | some r => s.robots.insert robot { r with busy := false, taskId := "" }
      | none => s.robots
    log := closing.map (.erased ·.robot) ++ s.log }

variable [Double R]

/-- The end of `on_submit` and of `start_patrol`: the robot of the entry `key` becomes busy with
`t`, the first node of the path is claimed, and the task joins `tasks_`. The answer to the claim
is not looked at. -/
def enlist (s : FleetNode R) (key : String) (t : ActiveTask R) (label : String) : FleetNode R :=
  let r := { s.robot key with busy := true, taskId := t.id }
  let core := { s.toFleetCore with robots := s.robots.insert key r, taskSeq := s.taskSeq + 1 }
  let (_, core) := core.requestMove t.robot t.cur t.cur (core.computePriority t.robot t)
  { core.emit (.taskState t.id label t.robot) with tasks := s.tasks ++ [t] }

def startPatrol (s : FleetNode R) (key : String) (r : RobotInfo R) : Option (FleetNode R) := do
  let path ← s.makePatrolPath r (-1)
  some (s.enlist key (.new ("P-" ++ r.name) r.name path true 0 (s.taskSeq + 1) 0) "PATROL")

/-! ## Callbacks -/

def onRobotState (s : FleetNode R) (msg : RobotState R) : FleetNode R :=
  { s with
    robots := s.robots.insert msg.name
      { s.robot msg.name with name := msg.name, x := msg.x, y := msg.y }
    robotMode :=
      if msg.name ∈ s.robotMode then s.robotMode
      else s.robotMode.insert msg.name (if s.patrol then .patrol else .idle) }

/-- The robots offered to the dispatcher: a robot on patrol is offered as idle. -/
def snapshot (s : FleetNode R) : List (RobotInfo R) :=
  s.robots.toList.filterMap fun kv =>
    let m := s.modeOf kv.1
    if m = .stop ∨ m = .charge then none
    else some (if s.isOnPatrol kv.1 then { kv.2 with busy := false } else kv.2)

/-- The robot of a submission: the one it names, or the dispatcher's choice. -/
def selectRobot (s : FleetNode R) (goal armActions : Int) (robot : String) :
    Option (Except String String) :=
  if robot ≠ "" then
    if robot ∉ s.robots then some (.error "unknown_robot")
    else if s.modeOf robot = .stop then some (.error "robot_stopped")
    else some (.ok robot)
  else do
    let winner ← s.dispatcher goal armActions s.snapshot s.graph s.energy
    some (if winner = "" then .error "no_robot_available" else .ok winner)

/-- The path of a submission, and whether the battery lasts for it. -/
def checkRoute (s : FleetNode R) (robot : String) (goal armActions : Int) :
    Option (Except String (List Int)) := do
  let r := s.robot robot
  let start := s.graph.nearest r.x r.y
  let path := if start = goal then [goal, goal] else s.graph.dijkstra start goal (-1)
  if path.length < 2 then some (.error "no_path")
  else do
    let cost ← s.graph.pathCost path
    let need := cost * s.energy.drainPerM + armActions * s.energy.drainPerAct + s.energy.reserve
    some (if r.battery < need then .error "insufficient_battery" else .ok path)

/-- An accepted submission: the robot's task is cancelled and the new one takes its place. -/
def accept (s : FleetNode R) (req : SubmitRequest) (robot : String) (path : List Int)
    (armActions : Int) : FleetNode R × SubmitResponse :=
  let s := if (s.robot robot).busy then s.cancelTask robot else s
  let counter := if req.requester = "" then s.taskCounter + 1 else s.taskCounter
  let tid := if req.requester = "" then "T-" ++ toString counter else req.requester
  let t := ActiveTask.new tid robot path false req.priority (s.taskSeq + 1) armActions
  ({ s with taskCounter := counter }.enlist robot t "ASSIGNED", ⟨true, tid, ""⟩)

/-- The vertex number and the arm actions that `on_submit` reads from a request. -/
def goalOf (req : SubmitRequest) : Int := (stoi req.dropoff).getD (-1)

def armActionsOf (req : SubmitRequest) : Int := if 0 < req.armActions then req.armActions else 0

theorem armActionsOf_eq (req : SubmitRequest) : armActionsOf req = max req.armActions 0 := by
  unfold armActionsOf
  split
  · omega
  · omega

def onSubmit (s : FleetNode R) (req : SubmitRequest) : Option (FleetNode R × SubmitResponse) := do
  let goal := goalOf req
  if goal < 0 ∨ s.graph.size ≤ goal then some (s, .rejected "bad_goal_vertex")
  else
    let armActions := armActionsOf req
    match ← s.selectRobot goal armActions req.robot with
    | .error reason => some (s, .rejected reason)
    | .ok robot =>
      let s := { s with toFleetCore := s.touch robot }
      match ← s.checkRoute robot goal armActions with
      | .error reason => some (s, .rejected reason)
      | .ok path => some (s.accept req robot path armActions)

/-- The traffic plugin without the reservations of `robot`. -/
def releaseAll (s : FleetNode R) (robot : String) : FleetNode R :=
  { s with
    traffic := s.traffic.occupancy.foldl
      (fun σ no => if no.2 = robot then σ.release robot no.1 else σ) s.traffic }

/-- A robot that is stopped claims the vertex it is nearest to, if it has been seen. -/
def stopClaim (s : FleetNode R) (robot : String) : FleetNode R :=
  match s.robots[robot]? with
  | some r =>
    let node := s.graph.nearest r.x r.y
    { s with toFleetCore := (s.requestMove robot node node kStopPrio).2 }
  | none => s

def onSetMode (s : FleetNode R) (req : SetRobotModeRequest) : FleetNode R × ServiceResponse :=
  match Mode.ofString? req.mode with
  | none => (s, ⟨false, "bad_mode"⟩)
  | some m =>
    let s := if m ≠ .charge then (s.cancelTask req.robot).releaseAll req.robot else s
    let s := { s with robotMode := s.robotMode.insert req.robot m }
    let s := if m = .stop then s.stopClaim req.robot else s
    (s, ⟨true, ""⟩)

def onSetBattery (s : FleetNode R) (req : SetBatteryRequest R) : FleetNode R × ServiceResponse :=
  let v := if req.value < 0 then 0 else if 100 < req.value then 100 else req.value
  let r := { s.robot req.robot with name := req.robot, battery := v }
  ({ s with robots := s.robots.insert req.robot r }, ⟨true, ""⟩)

/-- `on_set_plugins`, where `disp` and `traf` are what `createSharedInstance` returns or throws. -/
def onSetPlugins (s : FleetNode R) (req : SetPluginsRequest) (disp : Except String (Dispatcher R))
    (traf : Except String ReservationDeadlock) : FleetNode R × SetPluginsResponse :=
  let failed (s : FleetNode R) (what : String) : FleetNode R × SetPluginsResponse :=
    (s, ⟨false, s.activeDisp, s.activeTraf, what⟩)
  let swapTraffic (s : FleetNode R) : FleetNode R × SetPluginsResponse :=
    if req.traffic = "" then (s, ⟨true, s.activeDisp, s.activeTraf, ""⟩)
    else
      match traf with
      | .error what => failed s what
      | .ok traffic =>
        let s := { s with traffic, activeTraf := req.traffic }
        (s, ⟨true, s.activeDisp, s.activeTraf, ""⟩)
  if req.dispatcher = "" then swapTraffic s
  else
    match disp with
    | .error what => failed s what
    | .ok dispatcher => swapTraffic { s with dispatcher, activeDisp := req.dispatcher }

/-- `on_reload`, with what the loader finds in the navgraph file. -/
def onReload (s : FleetNode R) (file : NavFile R) : Option (FleetNode R × TriggerResponse) := do
  match ← Navgraph.load file with
  | some graph =>
    some ({ s with graph }, ⟨true, "reloaded " ++ toString graph.size ++ " vertices"⟩)
  | none => some (s, ⟨false, "load failed"⟩)

end FleetNode

/-! ## The timer -/

namespace FleetCore

variable [Double R]

/-- The count of ticks without progress. -/
def observe (r : RobotInfo R) (t : ActiveTask R) : ActiveTask R :=
  { t with
    noMove := if t.moving ∧ hypot (r.x - t.lastX) (r.y - t.lastY) < 2 / 100 then t.noMove + 1 else 0
    lastX := r.x
    lastY := r.y }

/-- A task of a robot that is stuck: its nodes are released and it is FAILED. -/
def fail (s : FleetCore R) (t : ActiveTask R) : FleetCore R :=
  let s := if t.idx < t.path.length then s.release t.robot t.next else s
  let s := if 1 ≤ t.idx then s.release t.robot t.cur else s
  ((s.discharge t.robot).emit (.taskState t.id "FAILED" t.robot)).emit (.erased t.robot)

/-- A dispatched task at its goal: the last node is released and it is COMPLETED. -/
def complete (s : FleetCore R) (t : ActiveTask R) : FleetCore R :=
  let s := s.release t.robot t.back
  ((s.discharge t.robot).emit (.taskState t.id "COMPLETED" t.robot)).emit (.erased t.robot)

/-- Arrival at `path[idx]`, which stays reserved until the next departure. -/
def arrive (s : FleetCore R) (t : ActiveTask R) : Option (FleetCore R × Option (ActiveTask R)) :=
  let s := s.emit (.arrival t.robot t.next)
  let t := { t with idx := t.idx + 1, moving := false, reroutes := 0, waitTicks := 0 }
  if t.path.length ≤ t.idx then
    if t.patrol then do
      let path ← s.makePatrolPath (s.robot t.robot) (-1)
      some (s.emit (.lap t.robot path), some { t with path, idx := 1, moving := false })
    else some (s.complete t, none)
  else some (s, some t)

/-- The loop body up to `if (!t.moving)`; the task is `none` when it has been erased. -/
def settle (s : FleetCore R) (t : ActiveTask R) : Option (FleetCore R × Option (ActiveTask R)) := do
  let s := s.touch t.robot
  let r := s.robot t.robot
  let tv ← s.graph.vertex t.next
  let d := hypot (r.x - tv.x) (r.y - tv.y)
  let t := observe r t
  if kStuckTicks < t.noMove then some (s.fail t, none)
  else if t.moving ∧ d < kArrive then s.arrive t
  else some (s, some t)

/-- GRANT: the origin is released and the robot is sent off. -/
def onGrant (s : FleetCore R) (t : ActiveTask R) : Option (FleetCore R × ActiveTask R) := do
  let s := if t.cur ≠ t.next then s.release t.robot t.cur else s
  let target ← s.graph.vertex t.next
  let r := s.robot t.robot
  some (s.sendPath t.robot r.x r.y t.next target,
    { t with moving := true, waitLogged := false, stuck := false, waitTicks := 0 })

/-- Where a detour around `path[idx]` leads to. -/
def detourGoal (s : FleetCore R) (t : ActiveTask R) : Int :=
  if t.patrol then s.patrolSucc t.next else t.back

/-- The detour around `path[idx]` to `goal`, empty if there is none. -/
def detour (s : FleetCore R) (t : ActiveTask R) (goal : Int) : List Int :=
  s.graph.dijkstra t.cur goal t.next

/-- A path replaced by a detour. -/
def rerouted (t : ActiveTask R) (path : List Int) : ActiveTask R :=
  { t with path, idx := 1, moving := false, waitLogged := false }

/-- EXECUTING is published once for every wait. -/
def announceWait (s : FleetCore R) (t : ActiveTask R) : FleetCore R :=
  if t.waitLogged then s else s.emit (.taskState t.id "EXECUTING" t.robot)

/-- The detour of the DEADLOCK branch, which gives up after `kMaxReroutes` of them. -/
def deadlockDetour (s : FleetCore R) (t : ActiveTask R) : List Int :=
  if t.reroutes < kMaxReroutes ∧ 0 ≤ s.detourGoal t then s.detour t (s.detourGoal t) else []

def onDeadlock (s : FleetCore R) (t : ActiveTask R) : FleetCore R × ActiveTask R :=
  let path := s.deadlockDetour t
  if 2 ≤ path.length then
    (s.emit (.reroute t.robot .deadlock),
      { rerouted t path with reroutes := t.reroutes + 1, stuck := false })
  else (s.announceWait t, { t with stuck := true, waitLogged := true })

/-- The detour of a long WAIT. -/
def timedDetour (s : FleetCore R) (t : ActiveTask R) : List Int :=
  if kRerouteWaitTicks ≤ t.waitTicks + 1 ∧ 0 ≤ s.detourGoal t then s.detour t (s.detourGoal t)
  else []

def onWait (s : FleetCore R) (t : ActiveTask R) : FleetCore R × ActiveTask R :=
  if s.blockedByStopped t.next then
    let path := s.detour t t.back
    if 2 ≤ path.length then (s.emit (.reroute t.robot .stopped), rerouted t path)
    else (s, { t with waitLogged := true })
  else
    let path := s.timedDetour t
    let s := s.announceWait t
    if 2 ≤ path.length then
      (s.emit (.reroute t.robot .timed), { rerouted t path with waitTicks := 0 })
    else
      (s, { t with
        waitLogged := true
        waitTicks := if kRerouteWaitTicks ≤ t.waitTicks + 1 then 0 else t.waitTicks + 1 })

/-- The body of `if (!t.moving)`. -/
def request (s : FleetCore R) (t : ActiveTask R) : Option (FleetCore R × ActiveTask R) :=
  let (decision, s) := s.requestMove t.robot t.cur t.next (s.computePriority t.robot t)
  match decision with
  | .grant => s.onGrant t
  | .deadlock => some (s.onDeadlock t)
  | .wait => some (s.onWait t)

/-- The body of the loop over `tasks_`. -/
def taskStep (s : FleetCore R) (t : ActiveTask R) :
    Option (FleetCore R × Option (ActiveTask R)) := do
  match ← s.settle t with
  | (s, none) => some (s, none)
  | (s, some t) =>
    if t.moving then some (s, some t)
    else do
      let (s, t) ← s.request t
      some (s, some t)

/-- The loop over `tasks_`: `kept` has been passed, the list is still to come. -/
def taskLoop (s : FleetCore R) (kept : List (ActiveTask R)) :
    List (ActiveTask R) → Option (FleetCore R × List (ActiveTask R))
  | [] => some (s, kept)
  | t :: todo => do
    let (s, t?) ← s.taskStep t
    taskLoop s (kept ++ t?.toList) todo

end FleetCore

namespace FleetNode

variable [Double R]

/-- The body of the loop over `robots_` that starts patrols. -/
def patrolStep (s : FleetNode R) (key : String) : Option (FleetNode R) :=
  let r := s.robot key
  if r.busy ∨ s.modeOf r.name ≠ .patrol then some s
  else if s.tasks.any (·.robot = r.name) then some s
  else s.startPatrol key r

/-- The remaining vertices of a task, as `publish_routes` looks them up. -/
def remaining (s : FleetNode R) (t : ActiveTask R) : Option (List (Vertex R)) :=
  (t.path.drop (t.idx - 1)).mapM s.graph.vertex

/-- `publish_occupancy`, `publish_routes` and `publish_goals`, without the JSON text. -/
def publish (s : FleetNode R) : Option (FleetNode R) := do
  let routes ← s.tasks.mapM fun t => (s.remaining t).map (t.robot, ·)
  let goals := (s.tasks.filter (!·.patrol)).map fun t => (t.robot, t.back)
  some { s with log := .goals goals :: .routes routes :: .occupancy s.traffic.occupancy :: s.log }

/-- The robots the patrol loop goes over; it is skipped without a route. -/
def patrolKeys (s : FleetNode R) : List String :=
  if 2 ≤ s.patrolRoute.length then s.robots.keys else []

def onTimer (s : FleetNode R) : Option (FleetNode R) := do
  let s ← s.patrolKeys.foldlM patrolStep s
  let (core, tasks) ← s.toFleetCore.taskLoop [] s.tasks
  publish { core with tasks }

end FleetNode

end LibiFleet
