import LibiFleet.Dijkstra
import LibiFleet.Traffic

/-!
# The data of the fleet node

`fleet_task.hpp`, `fms_types.hpp`, the requests and answers of the services, and
the record a run leaves behind: what the node publishes and logs, and the calls
it makes to the traffic plugin.
-/

namespace LibiFleet

variable {R : Type}

def kArrive [Double R] : R := 35 / 100
def kTierStep : Int := 50000000
def kAgeStep : Int := 128
def kSeqMax : Int := 100000
def kStopPrio : Int := 4 * kTierStep
def kMaxReroutes : Nat := 3
def kStuckTicks : Nat := 100
def kRerouteWaitTicks : Nat := 33

inductive Mode
  | patrol
  | idle
  | stop
  | charge
  deriving DecidableEq, Repr

/-- The mode names that `on_set_mode` accepts. -/
def Mode.ofString? (m : String) : Option Mode :=
  if m = "PATROL" then some .patrol
  else if m = "IDLE" then some .idle
  else if m = "STOP" then some .stop
  else if m = "CHARGE" then some .charge
  else none

structure RobotInfo (R : Type) where
  name : String
  x : R
  y : R
  battery : R
  busy : Bool
  taskId : String

/-- The entry that `robots_[name]` makes for an unknown name. -/
def RobotInfo.new [Double R] : RobotInfo R := ⟨"", 0, 0, 100, false, ""⟩

structure EnergyParams (R : Type) where
  drainPerM : R
  drainPerAct : R
  reserve : R

structure ActiveTask (R : Type) where
  id : String
  robot : String
  path : List Int
  idx : Nat
  moving : Bool
  waitLogged : Bool
  patrol : Bool
  stuck : Bool
  priority : Int
  startSeq : Nat
  armActions : Int
  reroutes : Nat
  lastX : R
  lastY : R
  noMove : Nat
  waitTicks : Nat

namespace ActiveTask

/-- A task at the start of its path. -/
def new [Double R] (id robot : String) (path : List Int) (patrol : Bool) (priority : Int)
    (startSeq : Nat) (armActions : Int) : ActiveTask R where
  id
  robot
  path
  idx := 1
  moving := false
  waitLogged := false
  patrol
  stuck := false
  priority
  startSeq
  armActions
  reroutes := 0
  lastX := 0
  lastY := 0
  noMove := 0
  waitTicks := 0

/-- `path[idx - 1]`, the vertex the task departs from. The source does not check the
index; `Wellformed.placed` says that it is in range. -/
def cur (t : ActiveTask R) : Int := t.path.getD (t.idx - 1) 0

/-- `path[idx]`, the vertex the task heads for. -/
def next (t : ActiveTask R) : Int := t.path.getD t.idx 0

/-- `path.back()`. -/
def back (t : ActiveTask R) : Int := t.path.getLastD 0

end ActiveTask

structure RobotState (R : Type) where
  name : String
  x : R
  y : R

structure SubmitRequest where
  dropoff : String
  requester : String
  robot : String
  priority : Int
  armActions : Int

structure SubmitResponse where
  accepted : Bool
  taskId : String
  reason : String
  deriving DecidableEq

def SubmitResponse.rejected (reason : String) : SubmitResponse := ⟨false, "", reason⟩

structure SetPluginsRequest where
  dispatcher : String
  traffic : String

structure SetPluginsResponse where
  ok : Bool
  activeDispatcher : String
  activeTraffic : String
  reason : String
  deriving DecidableEq

structure TriggerResponse where
  success : Bool
  message : String
  deriving DecidableEq

structure SetRobotModeRequest where
  robot : String
  mode : String

structure SetBatteryRequest (R : Type) where
  robot : String
  value : R

structure ServiceResponse where
  ok : Bool
  reason : String
  deriving DecidableEq

/-- `std::stoi`: spaces, a sign, digits up to the first other character; `none` where it
throws, for want of a digit or for a value outside `int`. -/
def stoi (s : String) : Option Int :=
  let cs := s.toList.dropWhile fun c => [9, 10, 11, 12, 13, 32].contains c.toNat
  let (negative, cs) :=
    match cs with
    | '-' :: cs => (true, cs)
    | '+' :: cs => (false, cs)
    | cs => (false, cs)
  let digits := cs.takeWhile Char.isDigit
  if digits.isEmpty then none
  else
    let n : Int := digits.foldl (fun n d => 10 * n + ((d.toNat - 48 : Nat) : Int)) 0
    let v := if negative then -n else n
    if -2147483648 ≤ v ∧ v ≤ 2147483647 then some v else none

/-- Which branch of `on_timer` replaced a path. -/
inductive Detour
  | deadlock
  | stopped
  | timed
  deriving DecidableEq, Repr

/-- What the node publishes and logs, the requests it makes to the traffic plugin, and the
robots whose task leaves `tasks_`. A `PathRequest` also names the vertex it leads to. -/
inductive Event (R : Type)
  | pathRequest (fleetName robot taskId : String) (x0 y0 : R) (vertex : Int) (target : Vertex R)
  | taskState (id state robot : String)
  | moveRequest (robot : String) (src dst priority : Int) (decision : MoveDecision)
  | arrival (robot : String) (vertex : Int)
  | lap (robot : String) (path : List Int)
  | reroute (robot : String) (cause : Detour)
  | erased (robot : String)
  | occupancy (nodes : List (Int × String))
  | routes (routes : List (String × List (Vertex R)))
  | goals (goals : List (String × Int))
  deriving DecidableEq

end LibiFleet
