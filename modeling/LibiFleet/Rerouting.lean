import LibiFleet.Assignment

/-!
# How often a task is rerouted

`reroutes` of a task counts the detours of its deadlocks since the last node it has
reached, and the DEADLOCK branch gives up after `kMaxReroutes` of them. The detours
around stopped robots and those of long waits are not counted.
-/

namespace LibiFleet

variable {R : Type}

namespace Event

/-- The robot has reached a node, or starts with a new task. -/
def advances (robot : String) : Event R → Bool
  | .arrival q _ => q = robot
  | e => e.startOf = some robot

/-- A detour of the robot, for one of the causes. -/
def turns (causes : Detour → Bool) (robot : String) : Event R → Bool
  | .reroute q cause => q = robot ∧ causes cause = true
  | _ => false

/-- The event tells nothing of the way of the robot. -/
def Idle (robot : String) (e : Event R) : Prop :=
  e.advances robot = false ∧ ∀ causes, e.turns causes robot = false

end Event

/-- The detours of the robot since its last node, or since its task was started. -/
def detoursSince (causes : Detour → Bool) (robot : String) (log : List (Event R)) : Nat :=
  (log.takeWhile (!·.advances robot)).countP (·.turns causes robot)

section Reading

variable {causes : Detour → Bool} {robot : String} {log events : List (Event R)} {e : Event R}

theorem detoursSince_advance (h : e.advances robot = true) :
    detoursSince causes robot (e :: log) = 0 := by
  simp [detoursSince, h]

theorem detoursSince_turn (h : e.turns causes robot = true) :
    detoursSince causes robot (e :: log) = detoursSince causes robot log + 1 := by
  have hstill : e.advances robot = false := by
    cases e with
    | reroute => rfl
    | _ => cases h
  simp [detoursSince, hstill, h]

theorem detoursSince_other (h : e.advances robot = false) (h' : e.turns causes robot = false) :
    detoursSince causes robot (e :: log) = detoursSince causes robot log := by
  simp [detoursSince, h, h']

theorem detoursSince_idle (h : ∀ e ∈ events, e.Idle robot) :
    detoursSince causes robot (events ++ log) = detoursSince causes robot log := by
  induction events with
  | nil => rfl
  | cons e events ih =>
    obtain ⟨⟨hstill, hstraight⟩, hevents⟩ := List.forall_mem_cons.mp h
    exact (detoursSince_other hstill (hstraight causes)).trans (ih hevents)

theorem idle_taskState {id state : String} (h : state ≠ "ASSIGNED" ∧ state ≠ "PATROL")
    (q : String) : (Event.taskState id state q : Event R).Idle robot := by
  simp [Event.Idle, Event.advances, Event.startOf, Event.turns, h]

theorem advances_start {id state : String} (h : state = "ASSIGNED" ∨ state = "PATROL") :
    (Event.taskState id state robot : Event R).advances robot = true := by
  simp [Event.advances, Event.startOf, h]

/-- What is about another robot tells nothing of this one. -/
theorem Event.Aside.idle {q : String} (h : e.Aside q) (hq : robot ≠ q) : e.Idle robot := by
  cases e with
  | taskState | arrival | reroute =>
    cases h
    simp [Event.Idle, Event.advances, Event.startOf, Event.turns, Ne.symm hq]
  | moveRequest => cases h
  | pathRequest | lap | erased | occupancy | routes | goals =>
    simp [Event.Idle, Event.advances, Event.startOf, Event.turns]

theorem Event.Report.idle (h : e.Report) : e.Idle robot := by
  cases e with
  | occupancy | routes | goals => simp [Event.Idle, Event.advances, Event.startOf, Event.turns]
  | _ => cases h

end Reading

variable [Double R] {p : Setup R} {c c' : Conf R} {a : Action R} {robot : String}
  {s s' : FleetNode R} {causes : Detour → Bool}

/-- A robot goes on as before, or it advances and counts from zero, or it takes a detour. -/
inductive Pace (c : Conf R) (robot : String) (s s' : FleetNode R) : Prop
  | same (events) (hlog : s'.log = events ++ s.log) (idle : ∀ e ∈ events, e.Idle robot)
      (old : ∀ t ∈ s'.tasks, t.robot = robot →
        ∃ u ∈ s.tasks, u.robot = robot ∧ t.reroutes = u.reroutes)
  | fresh {older e} (after) (hlog : s'.log = after ++ e :: older)
      (advances : e.advances robot = true)
      (idle : ∀ e ∈ after, e.Idle robot) (zero : ∀ t ∈ s'.tasks, t.robot = robot → t.reroutes = 0)
  | detour {events t} (cause) (hlog : s'.log = .reroute robot cause :: (events ++ s.log))
      (idle : ∀ e ∈ events, e.Idle robot) (ht : t ∈ s.tasks) (hr : t.robot = robot)
      (next : ∀ u ∈ s'.tasks, u.robot = robot →
        u.reroutes = if cause = .deadlock then t.reroutes + 1 else t.reroutes)
      (counted : cause = .deadlock → t.reroutes < kMaxReroutes)
      (stopped : cause = .stopped → c.StoppedReroute) (timed : cause = .timed → c.TimedReroute)

theorem Effect.pace (h : Effect c a robot s s') (hl : Ledger s) : Pace c robot s s' := by
  have unlogged (hlog : s'.log = s.log) (htasks : ∀ t ∈ s'.tasks, t ∈ s.tasks) :
      Pace c robot s s' :=
    .same [] hlog (by simp) fun t ht hr => ⟨t, htasks t ht, hr, rfl⟩
  have idle {e : Event R} (he : e.Idle robot) : ∀ x ∈ [e], x.Idle robot :=
    List.forall_mem_singleton.mpr he
  have told {t : ActiveTask R} {events : List (Event R)}
      (h : ∀ e ∈ events, e = .taskState t.id "EXECUTING" t.robot) :
      ∀ e ∈ events, e.Idle t.robot := fun e he => h e he ▸ idle_taskState (by decide) _
  cases h with
  | sighting | battery | touch | mode | vacate | reload | swap => exact unlogged rfl fun _ => id
  | drive head =>
    apply unlogged rfl
    intro t ht
    rw [head]
    exact (List.perm_append_singleton _ _).mem_iff.mp ht
  | cancel =>
    refine .same _ rfl ?_ ?_
    · intro e he
      obtain ⟨t, -, rfl⟩ := List.mem_map.mp he
      exact ⟨rfl, fun _ => rfl⟩
    · intro t ht hr
      exact absurd hr (FleetNode.mem_cancelTask.mp ht).2
  | stopClaim =>
    exact .same [_] rfl (idle ⟨rfl, fun _ => rfl⟩) fun t ht hr => ⟨t, ht, hr, rfl⟩
  | dispatch _ _ _ known free =>
    refine .fresh [] rfl (advances_start (.inl rfl)) (by simp) ?_
    intro t ht hr
    rcases FleetNode.mem_enlist.mp ht with ht | rfl
    · exact absurd hr (hl.jobless known free t ht)
    · rfl
  | patrol _ _ _ jobless =>
    refine .fresh [] rfl (advances_start (.inr rfl)) (by simp) ?_
    intro t ht hr
    rcases FleetNode.mem_enlist.mp ht with ht | rfl
    · exact absurd hr (jobless t ht)
    · rfl
  | look head =>
    refine .same [] rfl (by simp) ?_
    intro u hu hr
    obtain rfl := hl.eq_first head hu hr
    exact ⟨_, by simp [head], rfl, rfl⟩
  | fail head =>
    refine .same [_, _] rfl ?_ ?_
    · exact List.forall_mem_cons.mpr ⟨⟨rfl, fun _ => rfl⟩, idle (idle_taskState (by decide) _)⟩
    · intro u hu hr
      exact absurd hr (hl.robot_ne_head head hu)
  | pass head =>
    refine .fresh [] rfl (by simp [Event.advances]) (by simp) ?_
    intro u hu hr
    obtain rfl := hl.eq_first head hu hr
    rfl
  | lap _ head =>
    refine .fresh [_] rfl (by simp [Event.advances]) (idle ⟨rfl, fun _ => rfl⟩) ?_
    intro u hu hr
    obtain rfl := hl.eq_first head hu hr
    rfl
  | complete head =>
    refine .fresh [_, _] rfl (by simp [Event.advances]) ?_ ?_
    · exact List.forall_mem_cons.mpr ⟨⟨rfl, fun _ => rfl⟩, idle (idle_taskState (by decide) _)⟩
    · intro u hu hr
      exact absurd hr (hl.robot_ne_head head hu)
  | grant _ head =>
    refine .same [_, _] rfl ?_ ?_
    · exact List.forall_mem_cons.mpr ⟨⟨rfl, fun _ => rfl⟩, idle ⟨rfl, fun _ => rfl⟩⟩
    · intro u hu hr
      obtain rfl := hl.eq_turned head hu hr
      exact ⟨_, by simp [head], rfl, rfl⟩
  | @reroute _ t rest path events cause _ head _ _ _ _ _ timed htold counted stopped =>
    refine .detour cause (congrArg (_ :: ·) (ask_log s.toFleetCore t events)) ?_ (t := t)
      (by simp [head]) rfl ?_ counted stopped timed
    · exact List.forall_mem_append.mpr ⟨told htold, idle ⟨rfl, fun _ => rfl⟩⟩
    · intro u hu hr
      obtain rfl := hl.eq_turned head hu hr
      cases cause <;> rfl
  | @hold _ t rest events _ _ _ head _ _ _ htold =>
    refine .same _ (ask_log s.toFleetCore t events) ?_ ?_
    · exact List.forall_mem_append.mpr ⟨told htold, idle ⟨rfl, fun _ => rfl⟩⟩
    · intro u hu hr
      obtain rfl := hl.eq_turned head hu hr
      exact ⟨_, by simp [head], rfl, rfl⟩
  | publish events reports =>
    exact .same _ rfl (fun e he => (reports e he).idle) fun t ht hr => ⟨t, ht, hr, rfl⟩

/-- The causes are counted: a detour of any other kind may be among them, but is not taken. -/
structure Conf.Fair (c : Conf R) (causes : Detour → Bool) : Prop where
  deadlock : causes .deadlock = true
  stopped : causes .stopped = true → ¬ c.StoppedReroute
  timed : causes .timed = true → ¬ c.TimedReroute

/-- The counter of every task is the number of detours on record, and these are within the bound. -/
structure Counted (causes : Detour → Bool) (s : FleetNode R) : Prop where
  counter : ∀ t ∈ s.tasks, detoursSince causes t.robot s.log = t.reroutes
  bound : ∀ robot, detoursSince causes robot s.log ≤ kMaxReroutes

theorem Pace.counted (h : Pace c robot s s') (fair : c.Fair causes) (hs : Counted causes s) :
    detoursSince causes robot s'.log ≤ kMaxReroutes ∧
      ∀ t ∈ s'.tasks, t.robot = robot → detoursSince causes robot s'.log = t.reroutes := by
  cases h with
  | same events hlog idle old =>
    rw [hlog, detoursSince_idle idle]
    refine ⟨hs.bound robot, ?_⟩
    intro t ht hr
    obtain ⟨u, hu, rfl, heq⟩ := old t ht hr
    rw [heq]
    exact hs.counter u hu
  | fresh after hlog advances idle zero =>
    rw [hlog, detoursSince_idle idle, detoursSince_advance advances]
    exact ⟨Nat.zero_le _, fun t ht hr => (zero t ht hr).symm⟩
  | @detour events t cause hlog idle ht hr next counted stopped timed =>
    subst hr
    have hcount := hs.counter t ht
    by_cases hd : cause = .deadlock
    · have hturn : (Event.reroute t.robot cause : Event R).turns causes t.robot = true := by
        simp [Event.turns, hd, fair.deadlock]
      rw [hlog, detoursSince_turn hturn, detoursSince_idle idle, hcount]
      refine ⟨counted hd, ?_⟩
      intro u hu hr
      rw [next u hu hr, if_pos hd]
    · have huncounted : causes cause = false := by
        cases cause with
        | deadlock => exact absurd rfl hd
        | stopped => exact Bool.eq_false_of_not_eq_true fun h => fair.stopped h (stopped rfl)
        | timed => exact Bool.eq_false_of_not_eq_true fun h => fair.timed h (timed rfl)
      have hstraight : (Event.reroute t.robot cause : Event R).turns causes t.robot = false := by
        simp [Event.turns, huncounted]
      rw [hlog, detoursSince_other rfl hstraight, detoursSince_idle idle, hcount]
      refine ⟨hcount ▸ hs.bound t.robot, ?_⟩
      intro u hu hr
      rw [next u hu hr, if_neg hd]

theorem Effect.counted (h : Effect c a robot s s') (hl : Ledger s) (fair : c.Fair causes)
    (hs : Counted causes s) : Counted causes s' := by
  obtain ⟨hbound, hcounter⟩ := (h.pace hl).counted fair hs
  have other (q : String) (hq : q ≠ robot) :
      detoursSince causes q s'.log = detoursSince causes q s.log := by
    obtain ⟨events, requests, hlog, aside, hrequests⟩ := h.record
    have hidle : ∀ e ∈ requests, e.Idle q := by
      rcases hrequests with rfl | ⟨src, dst, p, rfl⟩
      · simp
      · exact List.forall_mem_singleton.mpr ⟨rfl, fun _ => rfl⟩
    rw [hlog, detoursSince_idle (fun e he => (aside e he).idle hq), detoursSince_idle hidle]
  constructor
  · intro t ht
    by_cases hr : t.robot = robot
    · exact hr ▸ hcounter t ht hr
    · rw [other t.robot hr]
      exact hs.counter t ((h.tasks_other hl hr).mp ht)
  · intro q
    by_cases hq : q = robot
    · exact hq ▸ hbound
    · rw [other q hq]
      exact hs.bound q

theorem reach_counted {ok : Conf R → Action R → Prop}
    (offers : ∀ c a, ok c a → a.With Callback.Offers) (fair : ∀ c a, ok c a → c.Fair causes)
    (hc : (ticks p).Reach ok c) : Counted causes c.node := by
  refine reach_books offers (P := Counted causes) ?_ ?_ hc
  · exact ⟨by simp [FleetNode.start], by simp [FleetNode.start, detoursSince]⟩
  · exact fun c a _ _ _ hok he _ hl hs => he.counted hl (fair c a hok) hs

/-- The detours of deadlocks are bounded in every run. -/
theorem deadlock_reroutes_bounded (hc : (ticks p).Reach (fun _ a => a.With Callback.Steady) c)
    (robot : String) : detoursSince (· = .deadlock) robot c.node.log ≤ kMaxReroutes := by
  have hcounted : Counted (· = .deadlock) c.node := reach_counted
    (fun _ _ h => h.mono fun _ => Callback.Steady.offers) (fun _ _ _ => ⟨rfl, by simp, by simp⟩) hc
  exact hcounted.bound robot

/-- In the runs in which only deadlocks lead to detours, a robot takes at most `kMaxReroutes` of
them from the start of a task to its first node, and from a node to the next. -/
theorem reroutes_bounded (hc : (ticks p).Reach (fun c a => a.With Callback.Steady ∧
    ¬ c.StoppedReroute ∧ ¬ c.TimedReroute) c) (robot : String) :
    detoursSince (fun _ => true) robot c.node.log ≤ kMaxReroutes := by
  have hcounted : Counted (fun _ => true) c.node := reach_counted
    (fun _ _ h => h.1.mono fun _ => Callback.Steady.offers)
    (fun _ _ h => ⟨rfl, fun _ => h.2.1, fun _ => h.2.2⟩) hc
  exact hcounted.bound robot

theorem reroutes_bounded_headOn : ∃ c : Conf ℚ,
    (ticks (Yard.setup false [])).Reach (fun c a => a.With Callback.Steady ∧
      ¬ c.StoppedReroute ∧ ¬ c.TimedReroute) c ∧
    .reroute "r2" .deadlock ∈ c.node.log ∧
    detoursSince (fun _ => true) "r2" c.node.log ≤ kMaxReroutes := by
  obtain ⟨c, hc, hcheck⟩ := (ticks (Yard.setup false [])).exists_reach
    (fun c a => a.With Callback.Steady ∧ ¬ c.StoppedReroute ∧ ¬ c.TimedReroute)
    (fun c => decide (.reroute "r2" .deadlock ∈ c.node.log))
    ([.call (Yard.seen "r1" 10 10), .call (Yard.send "r1" "4")] ++ Yard.taken .timer 4 ++
      [.call (Yard.seen "r1" 10 0), .call (Yard.seen "r2" 20 0), .call (Yard.send "r2" "0")] ++
      Yard.taken .timer 6) (by decide +kernel)
  exact ⟨c, hc, of_decide_eq_true hcheck, reroutes_bounded hc "r2"⟩

/-- Between two robots that are stopped, a task is sent from one detour to the other, tick after
tick. -/
theorem reroutes_unbounded : ¬ ∀ (p : Setup ℚ) (c : Conf ℚ),
    (ticks p).Reach (fun _ a => a.With Callback.Steady) c →
    ∀ robot, detoursSince (fun _ => true) robot c.node.log ≤ kMaxReroutes := by
  intro h
  obtain ⟨c, hc, hcheck⟩ := (ticks (Yard.setup false [])).exists_reach
    (fun _ a => a.With Callback.Steady)
    (fun c => decide (kMaxReroutes < detoursSince (fun _ => true) "r1" c.node.log))
    ([.call (Yard.seen "s1" 10 0), .call (Yard.mode "s1" "STOP"), .call (Yard.seen "s3" 0 (-10)),
      .call (Yard.mode "s3" "STOP"), .call (Yard.seen "r1" 0 0), .call (Yard.send "r1" "2")] ++
      (List.replicate 4 (Yard.taken .timer 4)).flatten) (by decide +kernel)
  exact absurd (h _ c hc "r1") (not_le.mpr (of_decide_eq_true hcheck))

end LibiFleet
