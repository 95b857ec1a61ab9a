import LibiFleet.Completion

/-!
# The turn of a task

What a step of the timer does to the one task it is at, and that it leaves the others as they
are: the counters and the flags of a task are followed from turn to turn.
-/

namespace LibiFleet

variable {R : Type}

/-- A task is reported as FAILED. -/
def Event.fails : Event R → Bool
  | .taskState _ state _ => state = "FAILED"
  | _ => false

/-- No task is reported as FAILED on the way from `s` to `s'`. -/
def FleetCore.Quiet (s s' : FleetCore R) : Prop :=
  ∃ events, s'.log = events ++ s.log ∧ ∀ e ∈ events, e.fails = false

namespace FleetCore.Quiet

variable {s s' s'' : FleetCore R}

theorem of_eq (h : s'.log = s.log) : s.Quiet s' := ⟨[], h, by simp⟩

theorem add {e : Event R} (h : s.Quiet s') (he : e.fails = false) (hlog : s''.log = e :: s'.log) :
    s.Quiet s'' := by
  obtain ⟨events, hevents, quiet⟩ := h
  refine ⟨e :: events, by rw [hlog, hevents]; rfl, ?_⟩
  rw [List.forall_mem_cons]
  exact ⟨he, quiet⟩

theorem trans (h : s.Quiet s') (h' : s'.Quiet s'') : s.Quiet s'' := by
  obtain ⟨events, hevents, quiet⟩ := h
  obtain ⟨events', hevents', quiet'⟩ := h'
  refine ⟨events' ++ events, by rw [hevents', hevents, List.append_assoc], ?_⟩
  rw [List.forall_mem_append]
  exact ⟨quiet', quiet⟩

/-- What is not in the news of a quiet step. -/
theorem news (h : s.Quiet s') {id robot : String} :
    .taskState id "FAILED" robot ∉ s.news s' := by
  obtain ⟨events, hevents, quiet⟩ := h
  rw [FleetCore.news_eq hevents]
  intro hmem
  have hfails := quiet _ hmem
  simp [Event.fails] at hfails

end FleetCore.Quiet

open FleetCore (Quiet)

theorem Event.Report.quiet {e : Event R} (h : e.Report) : e.fails = false := by
  cases e with
  | taskState => cases h
  | _ => rfl

theorem cancelTask_quiet (s : FleetNode R) (robot : String) :
    s.Quiet (s.cancelTask robot).toFleetCore := by
  refine ⟨_, rfl, ?_⟩
  intro e he
  obtain ⟨t, -, rfl⟩ := List.mem_map.mp he
  rfl

variable [Double R]

theorem enlist_quiet (s : FleetNode R) (key : String) (t : ActiveTask R) {label : String}
    (starts : label = "ASSIGNED" ∨ label = "PATROL") :
    s.Quiet (s.enlist key t label).toFleetCore := by
  have hstart : (Event.taskState t.id label t.robot : Event R).fails = false := by
    rcases starts with rfl | rfl <;> simp [Event.fails]
  have hclaim (p : Int) (d : MoveDecision) :
      (Event.moveRequest t.robot t.cur t.cur p d : Event R).fails = false := rfl
  obtain ⟨p, -, hlog⟩ := FleetNode.enlist_traffic s key label t
  refine ⟨[_, _], hlog, ?_⟩
  rw [List.forall_mem_cons, List.forall_mem_singleton]
  exact ⟨hstart, hclaim _ _⟩

/-- A request of a task is a quiet step. -/
theorem ask_quiet (s : FleetCore R) (t : ActiveTask R) : s.Quiet (s.ask t).2 :=
  ⟨[_], rfl, List.forall_mem_singleton.mpr rfl⟩

omit [Double R] in
theorem announceWait_quiet (s : FleetCore R) (t : ActiveTask R) : s.Quiet (s.announceWait t) := by
  obtain ⟨events, heq, told⟩ := announceWait_eq s t
  refine ⟨events, by rw [heq], ?_⟩
  intro e he
  rw [told e he]
  simp [Event.fails]

/-- The task is as it was made. -/
def ActiveTask.Fresh (t : ActiveTask R) : Prop :=
  t = .new t.id t.robot t.path t.patrol t.priority t.startSeq t.armActions

theorem new_fresh (id robot : String) (path : List Int) (patrol : Bool) (priority : Int)
    (startSeq : Nat) (armActions : Int) : (ActiveTask.new id robot path patrol priority startSeq
      armActions : ActiveTask R).Fresh := rfl

/-- The tasks of `s` and the one that `start` names, if it names one. -/
structure Recruits (s : FleetNode R) (start : Option (String × List Int)) (s' : FleetNode R) :
    Prop where
  tasks : ∀ t ∈ s'.tasks, t ∈ s.tasks ∨ t.Fresh
  started : ∀ robot path, start = some (robot, path) → ∃ t ∈ s'.tasks, t.robot = robot ∧ t.Fresh
  quiet : s.Quiet s'.toFleetCore

variable {s s' s'' : FleetNode R} {start : Option (String × List Int)}

theorem Recruits.kept (tasks : ∀ t ∈ s'.tasks, t ∈ s.tasks) (quiet : s.Quiet s'.toFleetCore) :
    Recruits s none s' where
  tasks t ht := .inl (tasks t ht)
  started := by
    intro robot path h
    cases h
  quiet := quiet

theorem Recruits.same (tasks : s'.tasks = s.tasks) (log : s'.log = s.log) : Recruits s none s' :=
  .kept (fun _ ht => tasks ▸ ht) (.of_eq log)

theorem Recruits.enlist (hs : Recruits s none s') (key : String) {t : ActiveTask R} {label : String}
    (fresh : t.Fresh) (starts : label = "ASSIGNED" ∨ label = "PATROL") :
    Recruits s (some (t.robot, t.path)) (s'.enlist key t label) where
  tasks := by
    intro u hu
    rcases FleetNode.mem_enlist.mp hu with hu | rfl
    · exact hs.tasks u hu
    · exact .inr fresh
  started := by
    intro robot path h
    cases h
    exact ⟨t, FleetNode.mem_enlist.mpr (.inr rfl), rfl, fresh⟩
  quiet := hs.quiet.trans (enlist_quiet s' key t starts)

theorem accept_recruits {req : SubmitRequest} {res : SubmitResponse} {robot : String}
    {path : List Int} {arm : Int} (h : s.accept req robot path arm = (s', res)) :
    Recruits s (some (robot, path)) s' := by
  unfold FleetNode.accept at h
  dsimp only at h
  have hkept : Recruits s none (if (s.robot robot).busy then s.cancelTask robot else s) := by
    split
    · exact .kept (fun _ ht => (FleetNode.mem_cancelTask.mp ht).1) (cancelTask_quiet s robot)
    · exact .same rfl rfl
  generalize (if (s.robot robot).busy then s.cancelTask robot else s) = t at h hkept
  obtain ⟨rfl, -⟩ := Prod.mk.inj h
  generalize (if req.requester = "" then t.taskCounter + 1 else t.taskCounter) = counter
  have hcounted : Recruits s none { t with taskCounter := counter } :=
    ⟨hkept.tasks, hkept.started, hkept.quiet⟩
  exact hcounted.enlist robot (new_fresh ..) (.inl rfl)

theorem onSubmit_recruits {req : SubmitRequest} {res : SubmitResponse}
    (h : s.onSubmit req = some (s', res)) : Recruits s (s.dispatches req) s' := by
  unfold FleetNode.onSubmit at h
  unfold FleetNode.dispatches
  dsimp only at h
  split at h
  · rename_i goal
    obtain ⟨rfl, -⟩ := Prod.mk.inj (Option.some.inj h)
    rw [if_pos goal]
    exact .same rfl rfl
  rename_i goal
  rw [if_neg goal]
  obtain ⟨choice, chosen, h⟩ := Option.bind_eq_some_iff.mp h
  rw [chosen]
  cases choice with
  | error reason =>
    obtain ⟨rfl, -⟩ := Prod.mk.inj (Option.some.inj h)
    exact .same rfl rfl
  | ok robot =>
    obtain ⟨route, hroute, h⟩ := Option.bind_eq_some_iff.mp h
    dsimp only
    rw [hroute]
    cases route with
    | error reason =>
      obtain ⟨rfl, -⟩ := Prod.mk.inj (Option.some.inj h)
      exact .same rfl rfl
    | ok path =>
      have hrecruits := accept_recruits (Option.some.inj h)
      exact ⟨hrecruits.tasks, hrecruits.started, hrecruits.quiet⟩

theorem onSetMode_recruits (s : FleetNode R) (req : SetRobotModeRequest) :
    Recruits s none (s.onSetMode req).1 := by
  unfold FleetNode.onSetMode
  split
  · exact .same rfl rfl
  rename_i m known
  have hcancel : Recruits s none (s.cancelTask req.robot) :=
    .kept (fun _ ht => (FleetNode.mem_cancelTask.mp ht).1) (cancelTask_quiet s req.robot)
  have hleft : Recruits s none
      (if m ≠ .charge then (s.cancelTask req.robot).releaseAll req.robot else s) := by
    split
    · exact ⟨hcancel.tasks, hcancel.started, hcancel.quiet⟩
    · exact .same rfl rfl
  dsimp only
  generalize (if m ≠ .charge then (s.cancelTask req.robot).releaseAll req.robot else s) = t
    at hleft ⊢
  split
  · unfold FleetNode.stopClaim
    split
    · exact ⟨hleft.tasks, hleft.started, hleft.quiet.add rfl rfl⟩
    · exact ⟨hleft.tasks, hleft.started, hleft.quiet⟩
  · exact ⟨hleft.tasks, hleft.started, hleft.quiet⟩

/-- What a callback other than the timer does to the tasks. -/
theorem handle_recruits {cb : Callback R} (other : cb ≠ .timer) (h : s.handle cb = some s') :
    Recruits s ((Conf.idle s).enlists (.call cb)) s' := by
  cases cb with
  | timer => exact absurd rfl other
  | robotState msg =>
    obtain rfl := Option.some.inj h
    exact .same rfl rfl
  | submit req =>
    obtain ⟨⟨s', res⟩, hs', rfl⟩ := Option.map_eq_some_iff.mp h
    exact onSubmit_recruits hs'
  | setPlugins req disp traf =>
    obtain rfl := Option.some.inj h
    obtain ⟨dispatcher, traffic, activeDisp, activeTraf, -, he⟩ := s.onSetPlugins_eq req disp traf
    rw [he]
    exact .same rfl rfl
  | reload file =>
    obtain ⟨⟨s', res⟩, hs', rfl⟩ := Option.map_eq_some_iff.mp h
    obtain ⟨graph, loaded, hs'⟩ := Option.bind_eq_some_iff.mp hs'
    cases graph with
    | none =>
      obtain ⟨rfl, -⟩ := Prod.mk.inj (Option.some.inj hs')
      exact .same rfl rfl
    | some graph =>
      obtain ⟨rfl, -⟩ := Prod.mk.inj (Option.some.inj hs')
      exact .same rfl rfl
  | setMode req =>
    obtain rfl := Option.some.inj h
    exact onSetMode_recruits s req
  | setBattery req =>
    obtain rfl := Option.some.inj h
    exact .same rfl rfl

theorem patrolStep_recruits {key : String} (h : s.patrolStep key = some s') :
    Recruits s (s.patrols key) s' := by
  unfold FleetNode.patrolStep at h
  unfold FleetNode.patrols
  dsimp only at h ⊢
  split at h
  · rename_i away
    obtain rfl := Option.some.inj h
    rw [if_pos (by tauto)]
    exact .same rfl rfl
  rename_i ready
  split at h
  · rename_i tasked
    obtain rfl := Option.some.inj h
    rw [if_pos (by tauto)]
    exact .same rfl rfl
  rename_i jobless
  obtain ⟨path, lap, h⟩ := Option.bind_eq_some_iff.mp h
  obtain rfl := Option.some.inj h
  rw [if_neg (by tauto), lap]
  have hkept : Recruits s none s := .same rfl rfl
  exact hkept.enlist key (new_fresh ..) (.inr rfl)

namespace Conf

/-- The branch of `on_timer` that replaces the path of the task which makes its request. -/
def takes : Conf R → Option Detour
  | asking s _ t _ =>
    let (decision, s) := s.ask t
    match decision with
    | .grant => none
    | .deadlock => if 2 ≤ (s.deadlockDetour t).length then some .deadlock else none
    | .wait =>
      if s.blockedByStopped t.next then
        if 2 ≤ (s.detour t t.back).length then some .stopped else none
      else if 2 ≤ (s.timedDetour t).length then some .timed else none
  | _ => none

/-- The robot whose task has a new path after the step: a new task, a new lap or a detour. -/
def installs : Conf R → Action R → Option String
  | looping s kept todo, a => ((looping s kept todo).laps a).map (·.1)
  | asking s kept t todo, _ => (asking s kept t todo).takes.map fun _ => t.robot
  | c, a => (c.enlists a).map (·.1)

/-- The robot whose WAIT counts towards a detour. -/
def waits : Conf R → Option String
  | asking s _ t _ =>
    if (s.ask t).1 = .wait ∧ (s.ask t).2.blockedByStopped t.next = false then some t.robot else none
  | _ => none

end Conf

/-! ## The turn -/

/-- What becomes of the observed task `u` before it is asked whether it is moving. -/
inductive Looked (c : Conf R) (u : ActiveTask R) : ActiveTask R → Prop
  | same (nolap : c.laps .go = none) : Looked c u u
  | passed : Looked c u u.arrived
  | lapped (path : List Int) : Looked c u { u.arrived with path, idx := 1 }

/-- What becomes of a task with its request. -/
inductive Asked (c : Conf R) (t : ActiveTask R) : ActiveTask R → Prop
  | grant (stays : c.takes = none) : Asked c t t.departed
  | detour (path : List Int) (cause : Detour) (takes : c.takes = some cause)
      (timed : cause = .timed → kRerouteWaitTicks ≤ t.waitTicks + 1) :
      Asked c t (t.detoured path cause)
  | hold (stuck : Bool) (waited : Nat) (stays : c.takes = none)
      (counted : waited ≤ t.waitTicks ∨ c.waits = some t.robot ∧ waited ≤ t.waitTicks + 1) :
      Asked c t { t with stuck, waitLogged := true, waitTicks := waited }

/-- What a step does with the tasks, and that it reports no task as FAILED but the one that has
been without progress for too long. -/
inductive Turn : Conf R → Action R → Conf R → Prop
  | call {s s' : FleetNode R} {cb} (other : cb ≠ .timer)
      (recruits : Recruits s ((Conf.idle s).enlists (.call cb)) s') :
      Turn (.idle s) (.call cb) (.idle s')
  | timer (s : FleetNode R) : Turn (.idle s) (.call .timer) (.patrols s s.patrolKeys)
  | patrol {s s' : FleetNode R} {key keys} (recruits : Recruits s (s.patrols key) s') :
      Turn (.patrols s (key :: keys)) .go (.patrols s' keys)
  | begin (s : FleetNode R) : Turn (.patrols s []) .go (.looping s.toFleetCore [] s.tasks)
  | fail {s s' : FleetCore R} {kept t todo}
      (stuck : kStuckTicks < (FleetCore.observe (s.robot t.robot) t).noMove)
      (log : s'.log = .erased t.robot :: .taskState t.id "FAILED" t.robot :: s.log) :
      Turn (.looping s kept (t :: todo)) .go (.looping s' kept todo)
  | complete {s s' : FleetCore R} {kept t todo} (quiet : s.Quiet s') :
      Turn (.looping s kept (t :: todo)) .go (.looping s' kept todo)
  | drive {s s' : FleetCore R} {kept t t' todo} (quiet : s.Quiet s')
      (looked : Looked (.looping s kept (t :: todo)) (FleetCore.observe (s.robot t.robot) t) t') :
      Turn (.looping s kept (t :: todo)) .go (.looping s' (kept ++ [t']) todo)
  | stand {s s' : FleetCore R} {kept t t' todo} (quiet : s.Quiet s')
      (looked : Looked (.looping s kept (t :: todo)) (FleetCore.observe (s.robot t.robot) t) t') :
      Turn (.looping s kept (t :: todo)) .go (.asking s' kept t' todo)
  | ask {s s' : FleetCore R} {kept t t' todo} (quiet : s.Quiet s')
      (asked : Asked (.asking s kept t todo) t t') :
      Turn (.asking s kept t todo) .go (.looping s' (kept ++ [t']) todo)
  | report {s : FleetCore R} {s' : FleetNode R} {kept} (quiet : s.Quiet s'.toFleetCore)
      (tasks : s'.tasks = kept) : Turn (.looping s kept []) .go (.idle s')

section Timer

variable {s s' : FleetCore R} {t : ActiveTask R} {kept todo : List (ActiveTask R)} {c : Conf R}

theorem arrive_looked {t' : Option (ActiveTask R)} (h : s.arrive t = some (s', t')) :
    s.Quiet s' ∧ ∀ u ∈ t', Looked c t u := by
  have harrive : s.Quiet (s.emit (.arrival t.robot t.next)) := (Quiet.of_eq rfl).add rfl rfl
  unfold FleetCore.arrive at h
  dsimp only at h
  split at h
  · split at h
    · obtain ⟨path, made, h⟩ := Option.bind_eq_some_iff.mp h
      obtain ⟨rfl, rfl⟩ := Prod.mk.inj (Option.some.inj h)
      refine ⟨harrive.add rfl rfl, ?_⟩
      intro u hu
      cases hu
      exact .lapped path
    · obtain ⟨rfl, rfl⟩ := Prod.mk.inj (Option.some.inj h)
      have hdone : (Event.taskState t.id "COMPLETED" t.robot : Event R).fails = false := by
        simp [Event.fails]
      refine ⟨(harrive.add hdone rfl).add rfl rfl, ?_⟩
      intro u hu
      cases hu
  · obtain ⟨rfl, rfl⟩ := Prod.mk.inj (Option.some.inj h)
    refine ⟨harrive, ?_⟩
    intro u hu
    cases hu
    exact .passed

variable (kept todo) in
theorem settle_looked {t' : Option (ActiveTask R)} (h : s.settle t = some (s', t')) :
    t' = none ∧ kStuckTicks < (FleetCore.observe (s.robot t.robot) t).noMove ∧
      s'.log = .erased t.robot :: .taskState t.id "FAILED" t.robot :: s.log ∨
    s.Quiet s' ∧ ∀ u ∈ t', Looked (.looping s kept (t :: todo))
      (FleetCore.observe (s.robot t.robot) t) u := by
  unfold FleetCore.settle at h
  dsimp only at h
  obtain ⟨tv, hv, h⟩ := Option.bind_eq_some_iff.mp h
  rw [FleetNode.robot_touch] at h
  split at h
  · rename_i stuck
    obtain ⟨rfl, rfl⟩ := Prod.mk.inj (Option.some.inj h)
    obtain ⟨traffic, -, -, he⟩ :=
      fail_eq (s.touch t.robot) (FleetCore.observe (s.robot t.robot) t)
    exact .inl ⟨rfl, stuck, by rw [he]; rfl⟩
  rename_i unstuck
  right
  split at h
  · have hlooked := arrive_looked (c := .looping s kept (t :: todo)) h
    exact ⟨hlooked.1, hlooked.2⟩
  · rename_i far
    obtain ⟨rfl, rfl⟩ := Prod.mk.inj (Option.some.inj h)
    refine ⟨.of_eq rfl, ?_⟩
    intro u hu
    cases hu
    have hv' : s.graph.vertex t.next = some tv := hv
    have hfar : ¬ (t.moving = true ∧
        hypot ((s.robot t.robot).x - tv.x) ((s.robot t.robot).y - tv.y) < kArrive) := far
    refine .same ?_
    simp only [Conf.laps, FleetNode.robot_touch, hv', Option.bind_eq_bind, Option.bind_some,
      if_neg unstuck]
    rw [if_neg]
    exact fun hlap => hfar ⟨hlap.1, hlap.2.1⟩

theorem timedDetour_due (long : 2 ≤ (s.timedDetour t).length) :
    kRerouteWaitTicks ≤ t.waitTicks + 1 := by
  unfold FleetCore.timedDetour at long
  split at long
  · rename_i due
    exact due.1
  · simp at long

theorem onDeadlock_asked {t' : ActiveTask R} (deadlock : (s.ask t).1 = .deadlock)
    (h : (s.ask t).2.onDeadlock t = (s', t')) :
    s.Quiet s' ∧ Asked (.asking s kept t todo) t t' := by
  unfold FleetCore.onDeadlock at h
  dsimp only at h
  split at h
  · rename_i long
    obtain ⟨rfl, rfl⟩ := Prod.mk.inj h
    have takes : (Conf.asking s kept t todo).takes = some .deadlock := by
      simp [Conf.takes, deadlock, long]
    exact ⟨(ask_quiet s t).add rfl rfl, .detour _ .deadlock takes (by simp)⟩
  · rename_i short
    obtain ⟨rfl, rfl⟩ := Prod.mk.inj h
    have stays : (Conf.asking s kept t todo).takes = none := by
      simp [Conf.takes, deadlock, short]
    exact ⟨(ask_quiet s t).trans (announceWait_quiet _ t),
      .hold true t.waitTicks stays (.inl (Nat.le_refl _))⟩

theorem onWait_asked {t' : ActiveTask R} (wait : (s.ask t).1 = .wait)
    (h : (s.ask t).2.onWait t = (s', t')) :
    s.Quiet s' ∧ Asked (.asking s kept t todo) t t' := by
  unfold FleetCore.onWait at h
  split at h
  · rename_i blocked
    dsimp only at h
    split at h
    · rename_i long
      obtain ⟨rfl, rfl⟩ := Prod.mk.inj h
      have takes : (Conf.asking s kept t todo).takes = some .stopped := by
        simp [Conf.takes, wait, blocked, long]
      exact ⟨(ask_quiet s t).add rfl rfl, .detour _ .stopped takes (by simp)⟩
    · rename_i short
      obtain ⟨rfl, rfl⟩ := Prod.mk.inj h
      have stays : (Conf.asking s kept t todo).takes = none := by
        simp [Conf.takes, wait, blocked, short]
      exact ⟨ask_quiet s t, .hold t.stuck t.waitTicks stays (.inl (Nat.le_refl _))⟩
  · rename_i free
    have told := (ask_quiet s t).trans (announceWait_quiet _ t)
    dsimp only at h
    split at h
    · rename_i long
      obtain ⟨rfl, rfl⟩ := Prod.mk.inj h
      have takes : (Conf.asking s kept t todo).takes = some .timed := by
        simp [Conf.takes, wait, free, long]
      exact ⟨told.add rfl rfl, .detour _ .timed takes fun _ => timedDetour_due long⟩
    · rename_i short
      obtain ⟨rfl, rfl⟩ := Prod.mk.inj h
      have stays : (Conf.asking s kept t todo).takes = none := by
        simp [Conf.takes, wait, free, short]
      have waits : (Conf.asking s kept t todo).waits = some t.robot := by
        simp [Conf.waits, wait, free]
      refine ⟨told, .hold t.stuck _ stays (.inr ⟨waits, ?_⟩)⟩
      split <;> omega

variable (kept todo) in
theorem request_asked {t' : ActiveTask R} (h : s.request t = some (s', t')) :
    s.Quiet s' ∧ Asked (.asking s kept t todo) t t' := by
  rcases request_cases h with ⟨granted, h⟩ | ⟨deadlock, h⟩ | ⟨wait, h⟩
  · obtain ⟨target, known, rfl, rfl⟩ := onGrant_eq h
    have stays : (Conf.asking s kept t todo).takes = none := by
      simp [Conf.takes, granted]
    exact ⟨(ask_quiet s t).add rfl rfl, .grant stays⟩
  · exact onDeadlock_asked deadlock h
  · exact onWait_asked wait h

end Timer

theorem next_turn {c c' : Conf R} (h : c.next = some c') : Turn c .go c' := by
  cases c with
  | idle s => cases h
  | patrols s keys =>
    cases keys with
    | nil =>
      obtain rfl := Option.some.inj h
      exact .begin s
    | cons key keys =>
      obtain ⟨s', hs', rfl⟩ := Option.map_eq_some_iff.mp h
      exact .patrol (patrolStep_recruits hs')
  | looping s kept todo =>
    cases todo with
    | nil =>
      obtain ⟨s', hs', rfl⟩ := Option.map_eq_some_iff.mp h
      obtain ⟨events, rfl, reports⟩ := FleetNode.publish_eq hs'
      exact .report ⟨events, rfl, fun e he => (reports e he).quiet⟩ rfl
    | cons t todo =>
      obtain ⟨⟨s', t'⟩, hs', rfl⟩ := Option.map_eq_some_iff.mp h
      rcases settle_looked kept todo hs' with ⟨rfl, stuck, hlog⟩ | ⟨quiet, looked⟩
      · exact .fail stuck hlog
      cases t' with
      | none => exact .complete quiet
      | some t' =>
        dsimp only
        split
        · exact .drive quiet (looked t' rfl)
        · exact .stand quiet (looked t' rfl)
  | asking s kept t todo =>
    obtain ⟨⟨s', t'⟩, hs', rfl⟩ := Option.map_eq_some_iff.mp h
    obtain ⟨quiet, asked⟩ := request_asked kept todo hs'
    exact .ask quiet asked

/-- Every step is a turn. -/
theorem step_turn {c c' : Conf R} {a : Action R} (h : c.step a = some c') : Turn c a c' := by
  rcases step_cases h with
    ⟨rfl, hnext⟩ | ⟨s, rfl, rfl, rfl⟩ | ⟨s, s', cb, rfl, rfl, other, hs', rfl⟩
  · exact next_turn hnext
  · exact .timer s
  · exact .call other (handle_recruits other hs')

/-- FAILED is published in the turn of the task, when its robot has made no progress. -/
theorem Turn.failed {c c' : Conf R} {a : Action R} (h : Turn c a c') {id robot : String}
    (he : .taskState id "FAILED" robot ∈ c.node.news c'.node.toFleetCore) :
    ∃ s kept t todo, c = .looping s kept (t :: todo) ∧ t.id = id ∧ t.robot = robot ∧
      kStuckTicks < (FleetCore.observe (s.robot t.robot) t).noMove := by
  have never {s s' : FleetCore R} (quiet : s.Quiet s') : .taskState id "FAILED" robot ∉ s.news s' :=
    quiet.news
  cases h with
  | call _ recruits => exact absurd he (never recruits.quiet)
  | timer => exact absurd he (never (.of_eq rfl))
  | patrol recruits => exact absurd he (never recruits.quiet)
  | begin => exact absurd he (never (.of_eq rfl))
  | complete quiet => exact absurd he (never quiet)
  | drive quiet => exact absurd he (never quiet)
  | stand quiet => exact absurd he (never quiet)
  | ask quiet => exact absurd he (never quiet)
  | report quiet => exact absurd he (never quiet)
  | @fail s s' kept t todo stuck hlog =>
    have hnews : s.news s' = [.erased t.robot, .taskState t.id "FAILED" t.robot] :=
      FleetCore.news_eq hlog
    have hmem : .taskState id "FAILED" robot ∈ s.news s' := he
    rw [hnews] at hmem
    simp only [List.mem_cons, reduceCtorEq, Event.taskState.injEq, true_and, false_or,
      List.not_mem_nil, or_false] at hmem
    exact ⟨s, kept, t, todo, rfl, hmem.1.symm, hmem.2.symm, stuck⟩

end LibiFleet
