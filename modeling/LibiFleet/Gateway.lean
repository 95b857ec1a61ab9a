import LibiFleet.Calls
import LibiFleet.Console
import LibiFleet.Priorities
import LibiFleet.Assignment
import Mathlib.Data.List.DropRight

/-!
# The services of the node and their callers

`console.py`, the console, and `main.py` with `ros_bridge.py`, the entrance for the tasks
of others, call the services of the node. Any number of calls may be under way, and the
node takes them in any order, between its other callbacks.
-/

namespace LibiFleet

open Std (ExtTreeMap)

variable {R : Type}

/-- A request to a service as its caller makes it, with what the plugin loader will answer. -/
inductive ServiceRequest (R : Type)
  | submit (req : SubmitRequest)
  | setMode (req : SetRobotModeRequest)
  | setBattery (req : SetBatteryRequest R)
  | setPlugins (req : SetPluginsRequest) (disp : Except String (Dispatcher R))
      (traf : Except String ReservationDeadlock)

inductive ServiceAnswer
  | submit (res : SubmitResponse)
  | service (res : ServiceResponse)
  | plugins (res : SetPluginsResponse)
  deriving DecidableEq

/-- `Bridge` of the console, `RosBridge` of the entrance, and everyone else. -/
inductive Caller
  | console
  | aba
  | other
  deriving DecidableEq

abbrev Demand (R : Type) := Caller × ServiceRequest R

/-- The request as it comes to the node: `value` is a `float32` in the message. -/
def SetBatteryRequest.sent [Double R] (req : SetBatteryRequest R) : SetBatteryRequest R :=
  { req with value := single req.value }

def ServiceRequest.callback [Double R] : ServiceRequest R → Callback R
  | submit req => .submit req
  | setMode req => .setMode req
  | setBattery req => .setBattery req.sent
  | setPlugins req disp traf => .setPlugins req disp traf

/-- The callback is no request to one of the services. -/
def Callback.Unasked : Callback R → Prop
  | .robotState _ | .timer | .reload _ => True
  | .submit _ | .setMode _ | .setBattery _ | .setPlugins .. => False

instance : DecidablePred (Callback.Unasked (R := R))
  | .robotState _ | .timer | .reload _ => inferInstanceAs (Decidable True)
  | .submit _ | .setMode _ | .setBattery _ | .setPlugins .. => inferInstanceAs (Decidable False)

namespace Callback

def submits : Callback R → Bool
  | .submit _ => true
  | _ => false

def setsMode (robot : String) : Callback R → Bool
  | .setMode req => req.robot = robot
  | _ => false

def setsBattery (robot : String) : Callback R → Bool
  | .setBattery req => req.robot = robot
  | _ => false

def swaps : Callback R → Bool
  | .setPlugins .. => true
  | _ => false

theorem Unasked.aside {cb : Callback R} (h : cb.Unasked) (robot : String) :
    cb.submits = false ∧ cb.setsMode robot = false ∧ cb.setsBattery robot = false ∧
      cb.swaps = false := by
  cases cb with
  | robotState | timer | reload => exact ⟨rfl, rfl, rfl, rfl⟩
  | submit | setMode | setBattery | setPlugins => cases h

end Callback

namespace Bridge

/-- What the console writes down of its calls: `battery_override`, `fleet_mode`, and the plugins
in `active`. -/
structure Notes (R : Type) where
  batteryOverride : String → Option R
  fleetMode : String → Option String
  active : String × String

def Notes.start : Notes R := ⟨fun _ => none, fun _ => none, ("?", "?")⟩

/-- `submit`, `set_mode`, `set_battery` and `set_plugins` up to the call. -/
def begins (b : Notes R) : Demand R → Notes R
  | (.console, .setBattery req) =>
    { b with batteryOverride := Function.update b.batteryOverride req.robot (some req.value) }
  | _ => b

/-- The same from the answer on. -/
def ends (b : Notes R) : Demand R → ServiceAnswer → Notes R
  | (.console, .setMode req), .service res =>
    if res.ok then { b with fleetMode := Function.update b.fleetMode req.robot (some req.mode) }
    else b
  | (.console, .setPlugins ..), .plugins res =>
    { b with active := (res.activeDispatcher, res.activeTraffic) }
  | _, _ => b

theorem ends_batteryOverride (b : Notes R) (q : Demand R) (answer : ServiceAnswer) :
    (ends b q answer).batteryOverride = b.batteryOverride := by
  unfold ends
  split
  · split <;> rfl
  · rfl
  · rfl

end Bridge

section Serve

variable [Double R]

def FleetNode.serve (s : FleetNode R) : ServiceRequest R → Option (FleetNode R × ServiceAnswer)
  | .submit req => (s.onSubmit req).map fun r => (r.1, .submit r.2)
  | .setMode req => some ((s.onSetMode req).1, .service (s.onSetMode req).2)
  | .setBattery req => some ((s.onSetBattery req.sent).1, .service (s.onSetBattery req.sent).2)
  | .setPlugins req disp traf =>
    some ((s.onSetPlugins req disp traf).1, .plugins (s.onSetPlugins req disp traf).2)

/-- A request is taken between two callbacks. -/
def Conf.serve : Conf R → Demand R → Option (Conf R × ServiceAnswer)
  | idle s, q => (s.serve q.2).map fun r => (idle r.1, r.2)
  | _, _ => none

def gateway (p : Setup R) :
    Service (Conf R) (Bridge.Notes R) (Action R) (Demand R) ServiceAnswer where
  server := ticks p
  serve := Conf.serve
  client := .start
  begins := Bridge.begins
  ends := Bridge.ends

abbrev Gateway (R : Type) := Line (Conf R) (Bridge.Notes R) (Demand R) ServiceAnswer

variable {p : Setup R} {c c' : Conf R} {q : Demand R} {answer : ServiceAnswer}

theorem serve_cases (h : c.serve q = some (c', answer)) :
    ∃ s s', c = .idle s ∧ c' = .idle s' ∧ s.serve q.2 = some (s', answer) := by
  cases c with
  | idle s =>
    obtain ⟨⟨s', answer'⟩, hs, heq⟩ := Option.map_eq_some_iff.mp h
    obtain ⟨rfl, rfl⟩ := Prod.mk.inj heq
    exact ⟨s, s', rfl, rfl, hs⟩
  | patrols | looping | asking => cases h

/-- What a service does is what its callback does. -/
theorem serve_step (h : c.serve q = some (c', answer)) :
    c.step (.call q.2.callback) = some c' := by
  obtain ⟨s, s', rfl, rfl, hserve⟩ := serve_cases h
  obtain ⟨caller, req⟩ := q
  cases req with
  | submit req =>
    obtain ⟨⟨s₁, res⟩, hs, heq⟩ := Option.map_eq_some_iff.mp hserve
    obtain ⟨rfl, -⟩ := Prod.mk.inj heq
    simp [ServiceRequest.callback, Conf.step, FleetNode.handle, hs]
  | setMode | setBattery | setPlugins =>
    obtain ⟨rfl, -⟩ := Prod.mk.inj (Option.some.inj hserve)
    rfl

theorem serve_effects (h : c.serve q = some (c', answer)) :
    Effects c (.call q.2.callback) c.node c'.node := by
  obtain ⟨s, s', rfl, rfl, -⟩ := serve_cases h
  exact step_effects trivial (serve_step h)

end Serve

section Kept

variable [Double R] {c : Conf R} {a : Action R} {robot q : String} {s s' : FleetNode R}

/-- A robot that has been seen has the mode that `on_set_mode` has given it last. -/
theorem Effect.robotMode_at (h : Effect c a robot s s')
    (aside : ∀ cb, a = .call cb → cb.setsMode q = false) : s'.robotMode[q]? = s.robotMode[q]? ∨
      s.robotMode[q]? = none ∧
        (s'.robotMode[q]? = some .patrol ∨ s'.robotMode[q]? = some .idle) := by
  cases h with
  | sighting msg =>
    by_cases hmem : msg.name ∈ s.robotMode
    · left
      simp [FleetNode.onRobotState, hmem]
    · by_cases hq : msg.name = q
      · subst hq
        right
        refine ⟨ExtTreeMap.getElem?_eq_none hmem, ?_⟩
        cases hpatrol : s.patrol <;> simp [FleetNode.onRobotState, hmem, hpatrol]
      · left
        simp [FleetNode.onRobotState, hmem, ExtTreeMap.getElem?_insert, hq]
  | mode called =>
    have hr : robot ≠ q := by simpa [Callback.setsMode] using aside _ called
    left
    simp [ExtTreeMap.getElem?_insert, hr]
  | _ => exact .inl rfl

theorem Effect.battery_at (h : Effect c a robot s s')
    (aside : ∀ cb, a = .call cb → cb.setsBattery q = false) :
    (s'.robot q).battery = (s.robot q).battery := by
  have written (k : String) (r : RobotInfo R) (hr : r.battery = (s.robot k).battery) :
      ((s.robots.insert k r).getD q .new).battery = (s.robot q).battery := by
    rw [ExtTreeMap.getD_insert]
    split
    · rename_i heq
      rw [← compare_eq_iff_eq.mp heq]
      exact hr
    · rfl
  cases h with
  | sighting => exact written _ _ rfl
  | battery req called =>
    have hr : req.robot ≠ q := by simpa [Callback.setsBattery] using aside _ called
    simp [FleetNode.onSetBattery, FleetCore.robot, ExtTreeMap.getD_insert, hr]
  | touch | look => exact congrArg RobotInfo.battery (FleetNode.robot_touch s.toFleetCore _ q)
  | cancel =>
    simp only [FleetCore.robot, ExtTreeMap.getD_eq_getD_getElem?, FleetNode.cancelTask_robots]
    split
    · cases s.robots[q]? <;> rfl
    · rfl
  | dispatch | patrol | fail | complete => exact written _ _ rfl
  | _ => rfl

theorem Effect.plugins_at (h : Effect c a robot s s')
    (aside : ∀ cb, a = .call cb → cb.swaps = false) :
    (s'.activeDisp, s'.activeTraf) = (s.activeDisp, s.activeTraf) := by
  cases h with
  | swap _ _ _ _ called => cases aside _ called
  | _ => rfl

end Kept

/-! ## Tasks for callers -/

/-- The task that is announced as ASSIGNED. -/
def Event.assigned? : Event R → Option String
  | .taskState id state _ => if state = "ASSIGNED" then some id else none
  | _ => none

/-- The tasks that have been announced as ASSIGNED. -/
def assignments (log : List (Event R)) : List String := log.filterMap Event.assigned?

/-- The task of an accepted submission. -/
def ServiceAnswer.assigned : ServiceAnswer → List String
  | .submit res => if res.accepted then [res.taskId] else []
  | _ => []

/-- What a bridge makes of a submission. -/
structure TaskResult where
  accepted : Bool
  taskId : Option String
  reason : String
  deriving DecidableEq

/-- The result is `none` as long as there is none. Where there is no call, the service was
`missing`, and a call that takes too long is `late`. -/
def submitResult (missing late : TaskResult) : Option (Outcome ServiceAnswer) → Option TaskResult
  | none => some missing
  | some .gone => some late
  | some (.answered (.submit res)) => some ⟨res.accepted, some res.taskId, res.reason⟩
  | some _ => none

namespace Bridge

/-- `str.isspace` of one character. -/
def isspace (c : Char) : Bool :=
  [9, 10, 11, 12, 13, 28, 29, 30, 31, 32, 133, 160, 5760, 8192, 8193, 8194, 8195, 8196, 8197, 8198,
    8199, 8200, 8201, 8202, 8232, 8233, 8239, 8287, 12288].contains c.toNat

def strip (s : String) : String := String.ofList ((s.toList.dropWhile isspace).rdropWhile isspace)

/-- The request of `submit`. -/
def submitRequest (goal : Int) (robot : String) (priority armActions : Int) (name : String) :
    SubmitRequest := ⟨toString goal, strip name, robot, priority, armActions⟩

/-- `submit` from the wait for the service on. -/
def submit : Option (Outcome ServiceAnswer) → Option TaskResult :=
  submitResult ⟨false, none, "fleet_unavailable"⟩ ⟨false, none, "timeout"⟩

end Bridge

namespace RosBridge

/-- The request of `submit_task`. -/
def submitRequest (dropoff requester : String) : SubmitRequest := ⟨dropoff, requester, "", 0, 0⟩

/-- `submit_task` from the wait for the service on. -/
def submitTask : Option (Outcome ServiceAnswer) → Option TaskResult :=
  submitResult ⟨false, some "", "fleet_unavailable"⟩ ⟨false, some "", "fleet_timeout"⟩

end RosBridge

/-- The answer to the request for a task: 200 with its id, or 503. -/
inductive HttpAnswer
  | ok (taskId : String)
  | unavailable (detail : String)

def postTask (res : TaskResult) : HttpAnswer :=
  if res.accepted then .ok (res.taskId.getD "")
  else .unavailable (if res.reason = "" then "no_robot_available" else res.reason)

/-- What the node has accepted with the call. -/
def Exchange.given (k : Exchange (Demand R) ServiceAnswer) : List String :=
  k.taken.elim [] ServiceAnswer.assigned

/-- A result with a task tells which one it is, and one without a task that there is none, or that
the answer was late. -/
def TaskResult.Tells (res : TaskResult) (late : String) (given : List String) : Prop :=
  if res.accepted then ∃ id, res.taskId = some id ∧ given = [id]
  else given = [] ∨ res.reason = late

section Tasks

variable [Double R] {c : Conf R} {a : Action R} {robot : String} {s s' : FleetNode R}
  {events log : List (Event R)}

omit [Double R] in
theorem assignments_silent (h : ∀ e ∈ events, e.assigned? = none) :
    assignments (events ++ log) = assignments log := by
  rw [assignments, List.filterMap_append, List.filterMap_eq_nil_iff.mpr h]
  rfl

/-- Nothing but a submission is announced as ASSIGNED. -/
theorem Effect.assignments_eq (h : Effect c a robot s s')
    (aside : ∀ cb, a = .call cb → cb.submits = false) :
    assignments s'.log = assignments s.log := by
  have silent {events : List (Event R)} (hlog : s'.log = events ++ s.log)
      (h : ∀ e ∈ events, e.assigned? = none) : assignments s'.log = assignments s.log := by
    rw [hlog, assignments_silent h]
  have told {t : ActiveTask R} {before after : List (Event R)} {e : Event R}
      (hbefore : ∀ e ∈ before, e.assigned? = none)
      (h : ∀ e ∈ after, e = .taskState t.id "EXECUTING" t.robot) (he : e.assigned? = none) :
      ∀ d ∈ before ++ after ++ [e], d.assigned? = none := by
    rw [List.forall_mem_append, List.forall_mem_append, List.forall_mem_singleton]
    refine ⟨⟨hbefore, ?_⟩, he⟩
    intro d hd
    rw [h d hd]
    rfl
  cases h with
  | sighting | battery | touch | vacate | mode | look | drive | reload | swap => rfl
  | cancel =>
    refine silent rfl ?_
    intro e he
    obtain ⟨t, -, rfl⟩ := List.mem_map.mp he
    rfl
  | dispatch _ _ _ _ _ _ _ _ _ _ _ called => cases aside _ called
  | stopClaim => exact silent (show _ = [_] ++ s.log from rfl) (by simp [Event.assigned?])
  | patrol | fail | lap | grant =>
    exact silent (show _ = [_, _] ++ s.log from rfl) (by simp [Event.assigned?])
  | pass => exact silent (show _ = [_] ++ s.log from rfl) (by simp [Event.assigned?])
  | complete => exact silent (show _ = [_, _, _] ++ s.log from rfl) (by simp [Event.assigned?])
  | @reroute _ t _ _ events cause _ _ _ _ _ _ _ _ htold =>
    exact silent (ask_log s.toFleetCore t ([.reroute t.robot cause] ++ events))
      (told (by simp [Event.assigned?]) htold rfl)
  | @hold _ t _ events _ _ _ _ _ _ _ htold =>
    exact silent (ask_log s.toFleetCore t ([] ++ events)) (told (by simp) htold rfl)
  | publish events reports =>
    refine silent rfl ?_
    intro e he
    have report := reports e he
    cases e with
    | taskState => cases report
    | _ => rfl

omit [Double R] in
theorem cancelTask_assignments (s : FleetNode R) (robot : String) :
    assignments (s.cancelTask robot).log = assignments s.log := by
  refine assignments_silent ?_
  intro e he
  obtain ⟨t, -, rfl⟩ := List.mem_map.mp he
  rfl

theorem accept_assignments {req : SubmitRequest} {res : SubmitResponse} {path : List Int}
    {arm : Int} (h : s.accept req robot path arm = (s', res)) :
    assignments s'.log = (ServiceAnswer.submit res).assigned ++ assignments s.log := by
  unfold FleetNode.accept at h
  dsimp only at h
  have kept : assignments (if (s.robot robot).busy then s.cancelTask robot else s).log =
      assignments s.log := by
    split
    · exact cancelTask_assignments s robot
    · rfl
  generalize (if (s.robot robot).busy then s.cancelTask robot else s) = m at h kept
  obtain ⟨rfl, rfl⟩ := Prod.mk.inj h
  rw [← kept]
  rfl

/-- A submission is announced if it is accepted, and under the id of the answer. -/
theorem onSubmit_assignments {req : SubmitRequest} {res : SubmitResponse}
    (h : s.onSubmit req = some (s', res)) :
    assignments s'.log = (ServiceAnswer.submit res).assigned ++ assignments s.log := by
  unfold FleetNode.onSubmit at h
  dsimp only at h
  split at h
  · obtain ⟨rfl, rfl⟩ := Prod.mk.inj (Option.some.inj h)
    rfl
  obtain ⟨choice, -, h⟩ := Option.bind_eq_some_iff.mp h
  cases choice with
  | error reason =>
    obtain ⟨rfl, rfl⟩ := Prod.mk.inj (Option.some.inj h)
    rfl
  | ok robot =>
    obtain ⟨route, -, h⟩ := Option.bind_eq_some_iff.mp h
    cases route with
    | error reason =>
      obtain ⟨rfl, rfl⟩ := Prod.mk.inj (Option.some.inj h)
      rfl
    | ok path =>
      have haccept := accept_assignments (Option.some.inj h)
      exact haccept

variable {p : Setup R}

theorem serve_assignments {c c' : Conf R} {q : Demand R} {answer : ServiceAnswer}
    (h : c.serve q = some (c', answer)) :
    assignments c'.node.log = answer.assigned ++ assignments c.node.log := by
  have heffects := serve_effects h
  obtain ⟨s, s', rfl, rfl, hs⟩ := serve_cases h
  obtain ⟨caller, req⟩ := q
  cases req with
  | submit req =>
    obtain ⟨⟨s₁, res⟩, hsubmit, heq⟩ := Option.map_eq_some_iff.mp hs
    obtain ⟨rfl, rfl⟩ := Prod.mk.inj heq
    exact onSubmit_assignments hsubmit
  | setMode | setBattery | setPlugins =>
    obtain ⟨rfl, rfl⟩ := Prod.mk.inj (Option.some.inj hs)
    refine heffects.keeps (P := fun t => assignments t.log = assignments s.log) ?_ rfl
    intro robot t t' he ht
    refine (he.assignments_eq ?_).trans ht
    intro cb called
    cases called
    rfl

end Tasks

/-! ## What the console shows -/

/-- The mode that is shown is that of the robot, and one that is not shown is neither STOP nor
CHARGE. -/
def ModeShown (mode : Option Mode) : Option String → Prop
  | some name => mode.isSome ∧ mode = Mode.ofString? name
  | none => mode ≠ some .stop ∧ mode ≠ some .charge

/-- `on_set_battery` keeps to the percentages. -/
def percent [Double R] (value : R) : R :=
  if value < 0 then 0 else if 100 < value then 100 else value

/-- The battery of a robot for which the console shows `value`. -/
def level [Double R] (value : Option R) : R := value.elim 100 fun v => percent (single v)

section Shown

variable [Double R] (p : Setup R)

def modeEntry (robot : String) : (gateway p).Entry (Option Mode) (Option String) where
  about q := q.2.callback.setsMode robot
  mine q := q.1 = .console
  held c := c.node.robotMode[robot]?
  shown b := b.fleetMode robot
  agrees := ModeShown
  enter _ v := v
  leave q answer v := match q, answer with
    | (.console, .setMode req), .service res => if res.ok then some req.mode else v
    | _, _ => v

def batteryEntry (robot : String) : (gateway p).Entry R (Option R) where
  about q := q.2.callback.setsBattery robot
  mine q := q.1 = .console
  held c := c.node.batteryOf robot
  shown b := b.batteryOverride robot
  agrees w v := w = level v
  enter q v := match q with
    | (.console, .setBattery req) => some req.value
    | _ => v
  leave _ _ v := v

def pluginsEntry : (gateway p).Entry (String × String) (String × String) where
  about q := q.2.callback.swaps
  mine q := q.1 = .console
  held c := (c.node.activeDisp, c.node.activeTraf)
  shown b := b.active
  agrees w v := v = ("?", "?") ∨ v = w
  enter _ v := v
  leave q answer v := match q, answer with
    | (.console, .setPlugins ..), .plugins res => (res.activeDispatcher, res.activeTraffic)
    | _, _ => v

/-- A step of the node by itself. -/
def Unasked (c : Conf R) (a : Action R) : Prop := a.With Callback.Unasked ∧ c.Sound

variable {p}

theorem ModeShown.keep {mode mode' : Option Mode} {name : Option String} (h : ModeShown mode name)
    (same : mode' = mode ∨ mode = none ∧ (mode' = some .patrol ∨ mode' = some .idle)) :
    ModeShown mode' name := by
  rcases same with rfl | ⟨rfl, hnew⟩
  · exact h
  · cases name with
    | some name => cases h.1
    | none => rcases hnew with rfl | rfl <;> simp [ModeShown]

section Kept

variable {W V : Type} {E : (gateway p).Entry W V} {view : FleetNode R → W}
  {touches : Callback R → Bool}

/-- What all effects keep but those of some callbacks. -/
def Spared (agrees : W → V → Prop) (view : FleetNode R → W) (touches : Callback R → Bool) : Prop :=
  ∀ (c : Conf R) a robot s s' v, Effect c a robot s s' →
    (∀ cb, a = .call cb → touches cb = false) → agrees (view s) v → agrees (view s') v

theorem spared_own (held : ∀ c, E.held c = view c.node) (h : Spared E.agrees view touches)
    (unasked : ∀ cb, cb.Unasked → touches cb = false) {c c' : Conf R} {a : Action R}
    (ha : Unasked c a) (hstep : (gateway p).server.step c a = some c') (v : V)
    (hv : E.agrees (E.held c) v) : E.agrees (E.held c') v := by
  rw [held] at hv ⊢
  refine (step_effects ha.2 hstep).keeps (P := fun s => E.agrees (view s) v) ?_ hv
  intro robot s s' he hs
  refine h c a robot s s' v he ?_ hs
  rintro cb rfl
  exact unasked cb ha.1

theorem spared_aside (held : ∀ c, E.held c = view c.node) (h : Spared E.agrees view touches)
    (about : ∀ q, E.about q = touches q.2.callback) {c c' : Conf R} {q : Demand R}
    {answer : ServiceAnswer} (aside : E.about q = false)
    (hserve : (gateway p).serve c q = some (c', answer)) (v : V) (hv : E.agrees (E.held c) v) :
    E.agrees (E.held c') v := by
  rw [held] at hv ⊢
  refine (serve_effects hserve).keeps (P := fun s => E.agrees (view s) v) ?_ hv
  intro robot s s' he hs
  refine h c _ robot s s' v he ?_ hs
  intro cb called
  cases called
  exact (about q).symm.trans aside

end Kept

theorem onSetMode_mode (s : FleetNode R) (req : SetRobotModeRequest) :
    (s.onSetMode req).2.ok = true ∧ (s.onSetMode req).1.robotMode[req.robot]?.isSome ∧
      (s.onSetMode req).1.robotMode[req.robot]? = Mode.ofString? req.mode ∨
    (s.onSetMode req).2.ok = false ∧ (s.onSetMode req).1 = s := by
  unfold FleetNode.onSetMode
  split
  · exact .inr ⟨rfl, rfl⟩
  · rename_i m known
    have claim (t : FleetNode R) : (t.stopClaim req.robot).robotMode = t.robotMode := by
      unfold FleetNode.stopClaim
      split <;> rfl
    refine .inl ⟨rfl, ?_⟩
    dsimp only
    generalize (if m ≠ .charge then (s.cancelTask req.robot).releaseAll req.robot else s) = t
    split
    · rw [claim, known]
      simp
    · rw [known]
      simp

theorem mode_spared (robot : String) :
    Spared (R := R) ModeShown (fun s => s.robotMode[robot]?) (Callback.setsMode robot) :=
  fun _ _ _ _ _ _ he aside hv => hv.keep (he.robotMode_at aside)

theorem modeEntry_sound (robot : String) : (modeEntry p robot).Sound Unasked where
  start := by simp [modeEntry, ModeShown, gateway, ticks, Conf.node, FleetNode.start,
    Bridge.Notes.start]
  own _ _ _ := spared_own (fun _ => rfl) (mode_spared robot) fun _ hcb => (hcb.aside robot).2.1
  aside _ _ _ _ := spared_aside (fun _ => rfl) (mode_spared robot) fun _ => rfl
  served := by
    rintro c ⟨caller, req⟩ c' answer v about mine hserve hv
    obtain ⟨s, s', rfl, rfl, hs⟩ := serve_cases hserve
    obtain rfl : caller = .console := by simpa [modeEntry] using mine
    cases req with
    | submit | setBattery | setPlugins => cases about
    | setMode req =>
      obtain rfl : req.robot = robot := of_decide_eq_true about
      obtain ⟨rfl, rfl⟩ := Prod.mk.inj (Option.some.inj hs)
      show ModeShown (s.onSetMode req).1.robotMode[req.robot]?
        (if (s.onSetMode req).2.ok then some req.mode else v)
      rcases onSetMode_mode s req with ⟨hok, hsome, hmode⟩ | ⟨hok, hsame⟩
      · rw [if_pos hok]
        exact ⟨hsome, hmode⟩
      · rw [hok, if_neg Bool.false_ne_true, hsame]
        exact hv
  begins := by
    rintro b ⟨caller, req⟩
    cases caller with
    | aba | other => exact (ite_self _).symm
    | console => cases req <;> exact (ite_self _).symm
  ends := by
    rintro b ⟨caller, req⟩ answer
    cases caller with
    | aba | other => exact (ite_self _).symm
    | console =>
      cases req with
      | submit | setBattery | setPlugins => cases answer <;> exact (ite_self _).symm
      | setMode req =>
        cases answer with
        | submit | plugins => exact (ite_self _).symm
        | service res =>
          show (if res.ok then { b with
            fleetMode := Function.update b.fleetMode req.robot (some req.mode) } else b).fleetMode
              robot = if decide (req.robot = robot) then
                if res.ok then some req.mode else b.fleetMode robot else b.fleetMode robot
          by_cases hok : res.ok = true
          · rw [if_pos hok, if_pos hok]
            by_cases hr : req.robot = robot
            · simp [hr]
            · simp [hr, Function.update_of_ne (Ne.symm hr)]
          · rw [if_neg hok, if_neg hok, ite_self]

theorem battery_spared (robot : String) : Spared (R := R)
    (fun w (v : Option R) => w = level v) (·.batteryOf robot)
    (Callback.setsBattery robot) := by
  intro c a r s s' v he aside hv
  dsimp only at hv ⊢
  rw [FleetCore.batteryOf_eq] at hv ⊢
  exact (he.battery_at aside).trans hv

theorem batteryEntry_sound (robot : String) : (batteryEntry p robot).Sound Unasked where
  start := rfl
  own _ _ _ :=
    spared_own (fun _ => rfl) (battery_spared robot) fun _ hcb => (hcb.aside robot).2.2.1
  aside _ _ _ _ := spared_aside (fun _ => rfl) (battery_spared robot) fun _ => rfl
  served := by
    rintro c ⟨caller, req⟩ c' answer v about mine hserve -
    obtain ⟨s, s', rfl, rfl, hs⟩ := serve_cases hserve
    obtain rfl : caller = .console := by simpa [batteryEntry] using mine
    cases req with
    | submit | setMode | setPlugins => cases about
    | setBattery req =>
      obtain rfl : req.robot = robot := of_decide_eq_true about
      obtain ⟨rfl, rfl⟩ := Prod.mk.inj (Option.some.inj hs)
      show (s.onSetBattery req.sent).1.batteryOf req.robot = percent (single req.value)
      rw [FleetCore.batteryOf_eq, FleetCore.robot]
      show ((s.robots.insert req.robot _).getD req.robot .new).battery = _
      rw [ExtTreeMap.getD_insert_self]
      rfl
  begins := by
    rintro b ⟨caller, req⟩
    cases caller with
    | aba | other => exact (ite_self _).symm
    | console =>
      cases req with
      | submit | setMode | setPlugins => exact (ite_self _).symm
      | setBattery req =>
        show Function.update b.batteryOverride req.robot (some req.value) robot =
          if decide (req.robot = robot) then some req.value else b.batteryOverride robot
        by_cases hr : req.robot = robot
        · simp [hr]
        · simp [hr, Function.update_of_ne (Ne.symm hr)]
  ends := by
    intro b q answer
    exact (congrFun (Bridge.ends_batteryOverride b q answer) robot).trans (ite_self _).symm

omit [Double R] in
theorem onSetPlugins_active (s : FleetNode R) (req : SetPluginsRequest)
    (disp : Except String (Dispatcher R)) (traf : Except String ReservationDeadlock) :
    ((s.onSetPlugins req disp traf).2.activeDispatcher,
      (s.onSetPlugins req disp traf).2.activeTraffic) =
    ((s.onSetPlugins req disp traf).1.activeDisp, (s.onSetPlugins req disp traf).1.activeTraf) := by
  unfold FleetNode.onSetPlugins
  dsimp only
  split
  · split
    · rfl
    · split <;> rfl
  · split
    · rfl
    · split
      · rfl
      · split <;> rfl

theorem plugins_spared : Spared (R := R) (fun w (v : String × String) => v = ("?", "?") ∨ v = w)
    (fun s => (s.activeDisp, s.activeTraf)) Callback.swaps := by
  intro c a robot s s' v he aside hv
  dsimp only
  rwa [he.plugins_at aside]

theorem pluginsEntry_sound : (pluginsEntry p).Sound Unasked where
  start := .inl rfl
  own _ _ _ := spared_own (fun _ => rfl) plugins_spared fun _ hcb => (hcb.aside "").2.2.2
  aside _ _ _ _ := spared_aside (fun _ => rfl) plugins_spared fun _ => rfl
  served := by
    rintro c ⟨caller, req⟩ c' answer v about mine hserve -
    obtain ⟨s, s', rfl, rfl, hs⟩ := serve_cases hserve
    obtain rfl : caller = .console := by simpa [pluginsEntry] using mine
    cases req with
    | submit | setMode | setBattery => cases about
    | setPlugins req disp traf =>
      obtain ⟨rfl, rfl⟩ := Prod.mk.inj (Option.some.inj hs)
      exact .inr (onSetPlugins_active s req disp traf)
  begins := by
    rintro b ⟨caller, req⟩
    cases caller with
    | aba | other => exact (ite_self _).symm
    | console => cases req <;> exact (ite_self _).symm
  ends := by
    rintro b ⟨caller, req⟩ answer
    cases caller with
    | aba | other => exact (ite_self _).symm
    | console =>
      cases req with
      | submit | setBattery => cases answer <;> exact (ite_self _).symm
      | setPlugins => cases answer <;> rfl
      | setMode req =>
        cases answer with
        | submit | plugins => exact (ite_self _).symm
        | service res =>
          show (if res.ok then _ else b).active = _
          split <;> rfl

/-- The node goes through a run of its own, whoever calls. -/
theorem gateway_reach {ok : Gateway R → Move (Action R) (Demand R) → Prop} {l : Gateway R}
    (hl : (gateway p).line.Reach ok l) : (ticks p).Reach (fun _ _ => True) l.server :=
  Service.reach_server rfl (fun _ _ _ _ h => ⟨_, trivial, h⟩)
    (fun _ _ _ _ _ _ _ h => ⟨_, trivial, serve_step h⟩) hl

/-- What the node handles in the move, for itself or for a caller, has `P`. -/
def Gateway.Handles (P : Callback R → Prop) (l : Gateway R) : Move (Action R) (Demand R) → Prop
  | .own a => a.With P
  | .take i => ∀ k ∈ l.calls[i]?, P k.request.2.callback
  | .miss _ | .call _ | .answer _ | .leave _ => True

theorem Gateway.Handles.mono {P Q : Callback R → Prop} (h : ∀ cb, P cb → Q cb) {l : Gateway R}
    {m : Move (Action R) (Demand R)} (hm : Gateway.Handles P l m) : Gateway.Handles Q l m := by
  cases m with
  | own a =>
    have ha : a.With P := hm
    exact ha.mono h
  | take => exact fun k hk => h _ (hm k hk)
  | miss | call | answer | leave => trivial

instance (P : Callback R → Prop) [DecidablePred P] (l : Gateway R) :
    DecidablePred (Gateway.Handles P l)
  | .own a => inferInstanceAs (Decidable (a.With P))
  | .take i => inferInstanceAs (Decidable (∀ k ∈ l.calls[i]?, P k.request.2.callback))
  | .miss _ | .call _ | .answer _ | .leave _ => inferInstanceAs (Decidable True)

theorem reach_handles {P : Callback R → Prop} {l : Gateway R}
    (hl : (gateway p).line.Reach (fun l m => Gateway.Handles P l m) l) :
    (ticks p).Reach (fun _ a => a.With P) l.server := by
  refine Service.reach_server rfl (fun _ a _ h hstep => ⟨a, h, hstep⟩) ?_ hl
  exact fun _ _ k _ _ h hk hserve => ⟨.call k.request.2.callback, h k hk, serve_step hserve⟩

theorem gateway_settled {W V : Type} {E : (gateway p).Entry W V} (hE : E.Sound Unasked)
    {l : Gateway R} (hl : (gateway p).line.Reach (E.Calm fun _ a => a.With Callback.Unasked) l)
    (still : ∀ k ∈ l.calls, E.about k.request = true → k.open = false) :
    E.agrees (E.held l.server) (E.shown l.client) := by
  have hsound (l : Gateway R)
      (hl : (gateway p).line.Reach (E.Calm fun _ a => a.With Callback.Unasked) l) :
      l.server.Sound := reach_sound (gateway_reach hl)
  refine hE.settled ((hl.assuming hsound).mono ?_) still
  rintro l m ⟨calm, sound⟩
  cases m with
  | own => exact ⟨calm, sound⟩
  | miss | call | take | answer | leave => exact calm

theorem submitResult_tells {ok : Gateway R → Move (Action R) (Demand R) → Prop} {l : Gateway R}
    (hl : (gateway p).line.Reach ok l) {k : Exchange (Demand R) ServiceAnswer} (hk : k ∈ l.calls)
    {missing late res : TaskResult} (none : late.accepted = false)
    (h : submitResult missing late (some k.outcome) = some res) :
    res.Tells late.reason k.given := by
  have htaken := Service.answered_taken hl k hk
  cases houtcome : k.outcome with
  | waiting =>
    rw [houtcome] at h
    cases h
  | gone =>
    rw [houtcome] at h
    obtain rfl := Option.some.inj h
    simp [TaskResult.Tells, none]
  | answered answer =>
    rw [houtcome] at h
    rw [Exchange.given, htaken answer houtcome, Option.elim_some]
    cases answer with
    | service | plugins => cases h
    | submit answer =>
      obtain rfl := Option.some.inj h
      cases haccepted : answer.accepted <;>
        simp [TaskResult.Tells, haccepted, ServiceAnswer.assigned]

/-- What the node announces as ASSIGNED is what it has accepted, and every accepted call is
announced once. A caller who is told of a task has one, and one who is told of none has none,
unless the answer was late. -/
theorem tasks_assigned_once {l : Gateway R}
    (hl : (gateway p).line.Reach (fun _ m => m.With fun a => a.With Callback.Unasked) l) :
    (assignments l.server.node.log).Perm (l.calls.flatMap Exchange.given) ∧
    ∀ k ∈ l.calls,
      (∀ res, Bridge.submit (some k.outcome) = some res → res.Tells "timeout" k.given) ∧
      ∀ res, RosBridge.submitTask (some k.outcome) = some res →
        (∀ id, postTask res = .ok id → k.given = [id]) ∧
        ∀ detail, postTask res = .unavailable detail → k.given = [] ∨ detail = "fleet_timeout" := by
  refine ⟨?_, ?_⟩
  · refine Service.tally (f := fun c : Conf R => assignments c.node.log)
      (g := fun _ answer => answer.assigned) rfl ?_ ?_
      (hl.assuming fun l hl => (reach_sound (gateway_reach hl) : l.server.Sound))
    · rintro l a c ⟨unasked, sound⟩ hstep
      refine (step_effects sound hstep).keeps
        (P := fun s => assignments s.log = assignments l.server.node.log) ?_ rfl
      intro robot s s' he hs
      refine (he.assignments_eq ?_).trans hs
      rintro cb rfl
      exact (Callback.Unasked.aside unasked "").1
    · exact fun _ _ _ _ h => serve_assignments h
  · intro k hk
    refine ⟨fun res hres => submitResult_tells hl hk rfl hres, ?_⟩
    intro res hres
    have htells : res.Tells "fleet_timeout" k.given := submitResult_tells hl hk rfl hres
    unfold TaskResult.Tells at htells
    unfold postTask
    cases haccepted : res.accepted with
    | true =>
      rw [haccepted, if_pos rfl] at htells
      obtain ⟨id, hid, hgiven⟩ := htells
      simp [hid, hgiven]
    | false =>
      rw [haccepted, if_neg Bool.false_ne_true] at htells
      refine ⟨by simp, ?_⟩
      rintro detail ⟨⟩
      refine htells.imp_right ?_
      intro hlate
      simp [hlate]

/-- The entrance does not wait for the answer, is asked again, and there are two tasks. -/
theorem tasks_assigned_once_late : ∃ l : Gateway ℚ,
    (l.calls.map fun k => RosBridge.submitTask (some k.outcome)) =
      [some ⟨false, some "", "fleet_timeout"⟩, some ⟨true, some "T-2", ""⟩] ∧
    (assignments l.server.node.log).Perm ["T-1", "T-2"] := by
  let ask : Demand ℚ := (.aba, .submit (RosBridge.submitRequest "2" ""))
  obtain ⟨l, hl, hcheck⟩ := (gateway (Yard.setup false [])).line.exists_reach
    (fun _ m => m.With fun a => a.With Callback.Unasked)
    (fun l => decide ((l.calls.map fun k => RosBridge.submitTask (some k.outcome)) =
        [some ⟨false, some "", "fleet_timeout"⟩, some ⟨true, some "T-2", ""⟩] ∧
      l.calls.flatMap Exchange.given = ["T-1", "T-2"]))
    [.own (.call (Yard.seen "r1" 0 0)), .own (.call (Yard.seen "r2" 10 0)), .call ask, .leave 0,
      .call ask, .take 0, .take 1, .answer 1] (by decide +kernel)
  obtain ⟨hresults, hgiven⟩ := of_decide_eq_true hcheck
  exact ⟨l, hresults, hgiven ▸ (tasks_assigned_once hl).1⟩

/-- The mode that the console shows for a robot is the mode it has, whenever no call about it is
under way. -/
theorem console_shows_mode {robot : String} {l : Gateway R}
    (hl : (gateway p).line.Reach ((modeEntry p robot).Calm fun _ a => a.With Callback.Unasked) l)
    (still : ∀ k ∈ l.calls, k.request.2.callback.setsMode robot = true → k.open = false) :
    (∀ name, l.client.fleetMode robot = some name →
      Mode.ofString? name = some (l.server.node.modeOf robot)) ∧
    (l.client.fleetMode robot = none →
      l.server.node.modeOf robot ≠ .stop ∧ l.server.node.modeOf robot ≠ .charge) := by
  have hshown : ModeShown l.server.node.robotMode[robot]? (l.client.fleetMode robot) :=
    gateway_settled (modeEntry_sound robot) hl still
  rw [FleetCore.modeOf, ExtTreeMap.getD_eq_getD_getElem?]
  constructor
  · intro name hname
    rw [hname] at hshown
    obtain ⟨m, hm⟩ := Option.isSome_iff_exists.mp hshown.1
    rw [← hshown.2, hm, Option.getD_some]
  · intro hnone
    rw [hnone] at hshown
    cases hmode : l.server.node.robotMode[robot]? with
    | none => simp
    | some m =>
      rw [hmode] at hshown
      exact ⟨fun h => hshown.1 (congrArg some h), fun h => hshown.2 (congrArg some h)⟩

/-- The robot is stopped in the middle of a tick, and the answer comes in the next one. -/
theorem console_shows_mode_stop : ∃ l : Gateway ℚ, l.client.fleetMode "r1" = some "STOP" ∧
    Mode.ofString? "STOP" = some (l.server.node.modeOf "r1") := by
  obtain ⟨l, hl, hcheck⟩ := (gateway (Yard.setup true [])).line.exists_reach
    ((modeEntry (Yard.setup true []) "r1").Calm fun _ a => a.With Callback.Unasked)
    (fun l => decide (l.client.fleetMode "r1" = some "STOP" ∧ ∀ k ∈ l.calls, k.open = false))
    [.own (.call (Yard.seen "r1" 0 0)), .own (.call .timer),
      .call (.console, .setMode ⟨"r1", "STOP"⟩), .own .go, .own .go, .take 0, .own (.call .timer),
      .answer 0] (by decide +kernel)
  obtain ⟨hname, still⟩ := of_decide_eq_true hcheck
  exact ⟨l, hname, (console_shows_mode hl fun k hk _ => still k hk).1 _ hname⟩

/-- The battery that decides about the tasks of the robot is the one that the console shows, as a
`float32` and within the percentages. -/
theorem console_shows_battery {robot : String} {l : Gateway R}
    (hl : (gateway p).line.Reach ((batteryEntry p robot).Calm fun _ a => a.With Callback.Unasked) l)
    (still : ∀ k ∈ l.calls, k.request.2.callback.setsBattery robot = true → k.open = false) :
    l.server.node.batteryOf robot =
      (l.client.batteryOverride robot).elim 100 fun v => percent (single v) :=
  gateway_settled (batteryEntry_sound robot) hl still

/-- One battery is shown that is more than full, and one that is no `float32`. -/
theorem console_shows_battery_over : ∃ l l' : Gateway ℚ,
    l.client.batteryOverride "r1" = some 150 ∧ l.server.node.batteryOf "r1" = 100 ∧
    l'.client.batteryOverride "r1" = some (157 / 10) ∧
    l'.server.node.batteryOf "r1" = 157 / 10 - 1 / 5242880 := by
  let way (value : ℚ) : List (Move (Action ℚ) (Demand ℚ)) :=
    [.call (.console, .setBattery ⟨"r1", value⟩), .own (.call (Yard.seen "r1" 0 0)), .take 0,
      .answer 0]
  have shows (value : ℚ) (h : ((gateway (Yard.setup true [])).line.runWhen
      ((batteryEntry (Yard.setup true []) "r1").Calm fun _ a => a.With Callback.Unasked)
      (gateway (Yard.setup true [])).line.start (way value)).any
        (fun l => decide (l.client.batteryOverride "r1" = some value ∧
          ∀ k ∈ l.calls, k.open = false)) = true) :
      ∃ l : Gateway ℚ, l.client.batteryOverride "r1" = some value ∧
        l.server.node.batteryOf "r1" = percent (single value) := by
    obtain ⟨l, hl, hcheck⟩ := (gateway (Yard.setup true [])).line.exists_reach _ _ _ h
    obtain ⟨hvalue, still⟩ := of_decide_eq_true hcheck
    have hbattery := console_shows_battery hl fun k hk _ => still k hk
    rw [hvalue] at hbattery
    exact ⟨l, hvalue, hbattery⟩
  obtain ⟨l, hvalue, hbattery⟩ := shows 150 (by decide +kernel)
  obtain ⟨l', hvalue', hbattery'⟩ := shows (157 / 10) (by decide +kernel)
  exact ⟨l, l', hvalue, hbattery.trans (by decide +kernel), hvalue',
    hbattery'.trans (by decide +kernel)⟩

theorem console_shows_plugins {l : Gateway R}
    (hl : (gateway p).line.Reach ((pluginsEntry p).Calm fun _ a => a.With Callback.Unasked) l)
    (still : ∀ k ∈ l.calls, k.request.2.callback.swaps = true → k.open = false) :
    l.client.active = ("?", "?") ∨
      l.client.active = (l.server.node.activeDisp, l.server.node.activeTraf) :=
  gateway_settled pluginsEntry_sound hl still

theorem console_shows_plugins_half : ∃ l : Gateway ℚ,
    l.client.active = ("libi_fleet::Greedy", "libi_fleet::ReservationDeadlock") ∧
    l.client.active = (l.server.node.activeDisp, l.server.node.activeTraf) := by
  obtain ⟨l, hl, hcheck⟩ := (gateway (Yard.setup true [])).line.exists_reach
    ((pluginsEntry (Yard.setup true [])).Calm fun _ a => a.With Callback.Unasked)
    (fun l => decide (l.client.active = ("libi_fleet::Greedy", "libi_fleet::ReservationDeadlock") ∧
      ∀ k ∈ l.calls, k.open = false))
    [.call (.console, .setPlugins ⟨"libi_fleet::Greedy", "libi_fleet::None"⟩ (.ok Auction.assign)
      (.error "no class")), .take 0, .answer 0] (by decide +kernel)
  obtain ⟨hactive, still⟩ := of_decide_eq_true hcheck
  refine ⟨l, hactive, (console_shows_plugins hl fun k hk _ => still k hk).resolve_left ?_⟩
  rw [hactive]
  decide

end Shown

end LibiFleet
