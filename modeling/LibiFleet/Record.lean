import LibiFleet.Frames

/-!
# What a step adds to the record

The record of a run only grows. What an effect adds to it is about its robot, and
whatever a step publishes or logs is the doing of one of its effects.
-/

namespace LibiFleet

variable {R : Type}

/-- The event is about the robot, and is not a request to the plugin. -/
def Event.Aside (robot : String) : Event R → Prop
  | .pathRequest _ q _ _ _ _ _ | .taskState _ _ q | .arrival q _ | .lap q _ | .reroute q _
  | .erased q => q = robot
  | .moveRequest .. => False
  | .occupancy _ | .routes _ | .goals _ => True

/-- The robot for which the event announces a new task. -/
def Event.startOf : Event R → Option String
  | .taskState _ state robot =>
    if state = "ASSIGNED" ∨ state = "PATROL" then some robot else none
  | _ => none

theorem Event.Report.aside {e : Event R} (h : e.Report) (robot : String) : e.Aside robot := by
  cases e with
  | occupancy | routes | goals => trivial
  | _ => cases h

/-- What is in the record of `s'` and not in that of `s`, where `s'` comes after `s`. -/
def FleetCore.news (s s' : FleetCore R) : List (Event R) :=
  s'.log.take (s'.log.length - s.log.length)

theorem FleetCore.news_eq {s s' : FleetCore R} {events : List (Event R)}
    (h : s'.log = events ++ s.log) : s.news s' = events := by
  simp [news, h]

variable [Double R]

/-- An event that an effect of the robot may add to the record. -/
inductive Adds (c : Conf R) (a : Action R) (s : FleetNode R) : String → Event R → Prop
  | request {robot : String} (src dst p : Int) :
      Adds c a s robot (.moveRequest robot src dst p (s.traffic.requestMove robot src dst p).1)
  | send {t : ActiveTask R} {target : Vertex R} (at_request : s = c.node) (here : t ∈ s.tasks)
      (still : t.moving = false) (known : s.graph.vertex t.next = some target) :
      Adds c a s t.robot (.pathRequest s.fleetName t.robot
        (t.robot ++ "-" ++ toString (s.pathSeq + 1)) (s.robot t.robot).x (s.robot t.robot).y
        t.next target)
  | start {id label robot : String} (starts : label = "ASSIGNED" ∨ label = "PATROL") :
      Adds c a s robot (.taskState id label robot)
  | wait {t : ActiveTask R} (here : t ∈ s.tasks) :
      Adds c a s t.robot (.taskState t.id "EXECUTING" t.robot)
  | fail {t : ActiveTask R} (here : t ∈ s.tasks) (stuck : kStuckTicks < t.noMove) :
      Adds c a s t.robot (.taskState t.id "FAILED" t.robot)
  | complete {t : ActiveTask R} (here : t ∈ s.tasks) (last : t.path.length ≤ t.idx + 1)
      (dispatched : t.patrol = false) (near : s.Near t.robot t.next) (timer : a = .go) :
      Adds c a s t.robot (.taskState t.id "COMPLETED" t.robot)
  | arrive {t : ActiveTask R} (here : t ∈ s.tasks) : Adds c a s t.robot (.arrival t.robot t.next)
  | lap {t : ActiveTask R} (path : List Int) (here : t ∈ s.tasks) :
      Adds c a s t.robot (.lap t.robot path)
  | reroute {t : ActiveTask R} (cause : Detour) (here : t ∈ s.tasks) :
      Adds c a s t.robot (.reroute t.robot cause)
  | erase {t : ActiveTask R} (here : t ∈ s.tasks) : Adds c a s t.robot (.erased t.robot)
  | report {robot : String} {e : Event R} (reports : e.Report) : Adds c a s robot e

section Record

variable {s s' : FleetNode R} {c : Conf R} {a : Action R} {robot : String}

/-- What an effect adds to the record: at most one request, made of the state before, and then
events about its robot. -/
theorem Effect.record (h : Effect c a robot s s') : ∃ events requests,
    s'.log = events ++ (requests ++ s.log) ∧ (∀ e ∈ events, e.Aside robot) ∧
    (requests = [] ∨ ∃ src dst p, requests =
      [.moveRequest robot src dst p (s.traffic.requestMove robot src dst p).1]) := by
  have told {t : ActiveTask R} {events : List (Event R)}
      (h : ∀ e ∈ events, e = .taskState t.id "EXECUTING" t.robot) :
      ∀ e ∈ events, e.Aside t.robot := fun e he => h e he ▸ rfl
  cases h with
  | sighting | battery | touch | vacate | mode | look | drive | reload | swap =>
    exact ⟨[], [], rfl, by simp, .inl rfl⟩
  | cancel =>
    refine ⟨_, [], rfl, ?_, .inl rfl⟩
    intro e he
    obtain ⟨t, ht, rfl⟩ := List.mem_map.mp he
    exact FleetNode.mem_closing robot t ht
  | stopClaim => exact ⟨[], [_], rfl, by simp, .inr ⟨_, _, _, rfl⟩⟩
  | dispatch | patrol =>
    exact ⟨[_], [_], rfl, List.forall_mem_singleton.mpr rfl, .inr ⟨_, _, _, rfl⟩⟩
  | fail =>
    exact ⟨[_, _], [], rfl, List.forall_mem_cons.mpr ⟨rfl, List.forall_mem_singleton.mpr rfl⟩,
      .inl rfl⟩
  | pass => exact ⟨[_], [], rfl, List.forall_mem_singleton.mpr rfl, .inl rfl⟩
  | lap =>
    exact ⟨[_, _], [], rfl, List.forall_mem_cons.mpr ⟨rfl, List.forall_mem_singleton.mpr rfl⟩,
      .inl rfl⟩
  | complete =>
    exact ⟨[_, _, _], [], rfl, List.forall_mem_cons.mpr ⟨rfl, List.forall_mem_cons.mpr
      ⟨rfl, List.forall_mem_singleton.mpr rfl⟩⟩, .inl rfl⟩
  | grant => exact ⟨[_], [_], rfl, List.forall_mem_singleton.mpr rfl, .inr ⟨_, _, _, rfl⟩⟩
  | reroute events _ _ _ _ _ _ _ _ _ htold =>
    exact ⟨_ :: events, [_], rfl, List.forall_mem_cons.mpr ⟨rfl, told htold⟩, .inr ⟨_, _, _, rfl⟩⟩
  | hold events _ _ _ _ _ _ _ htold => exact ⟨events, [_], rfl, told htold, .inr ⟨_, _, _, rfl⟩⟩
  | publish events reports => exact ⟨events, [], rfl, fun e he => (reports e he).aside _, .inl rfl⟩

theorem Effect.grows (h : Effect c a robot s s') : s'.log = s.news s'.toFleetCore ++ s.log := by
  obtain ⟨events, requests, hlog, -, -⟩ := h.record
  have hnews : s.news s'.toFleetCore = events ++ requests := by
    apply FleetCore.news_eq
    rw [hlog, List.append_assoc]
  rw [hnews, hlog, List.append_assoc]

/-- The request of a task is the first thing that its step adds to the record. -/
theorem ask_log (s : FleetCore R) (t : ActiveTask R) (events : List (Event R)) :
    events ++ (s.ask t).2.log = events ++
      [.moveRequest t.robot t.cur t.next (s.computePriority t.robot t) (s.ask t).1] ++ s.log :=
  List.append_cons ..

/-- Everything that an effect adds is one of these. -/
theorem Effect.adds (h : Effect c a robot s s') {e : Event R} (he : e ∈ s.news s'.toFleetCore) :
    Adds c a s robot e := by
  have added {events : List (Event R)} (hlog : s'.log = events ++ s.log)
      (all : ∀ e ∈ events, Adds c a s robot e) : Adds c a s robot e :=
    all e (FleetCore.news_eq hlog ▸ he)
  have none : ∀ e ∈ ([] : List (Event R)), Adds c a s robot e := by simp
  have one {e : Event R} (h : Adds c a s robot e) : ∀ x ∈ [e], Adds c a s robot x :=
    List.forall_mem_singleton.mpr h
  have two {e e' : Event R} (h : Adds c a s robot e) (h' : Adds c a s robot e') :
      ∀ x ∈ [e, e'], Adds c a s robot x := List.forall_mem_cons.mpr ⟨h, one h'⟩
  have here {t : ActiveTask R} {rest : List (ActiveTask R)} (head : s.tasks = t :: rest) :
      t ∈ s.tasks := head ▸ List.mem_cons_self
  cases h with
  | sighting | battery | touch | vacate | mode | look | drive | reload | swap =>
    exact added (show _ = [] ++ s.log from rfl) none
  | cancel =>
    apply added rfl
    intro e he
    obtain ⟨t, ht, rfl⟩ := List.mem_map.mp he
    obtain ⟨hmem, hr⟩ := List.mem_filter.mp ht
    obtain rfl : t.robot = robot := by simpa using hr
    exact .erase hmem
  | stopClaim => exact added (show _ = [_] ++ s.log from rfl) (one (.request _ _ _))
  | dispatch =>
    exact added (show _ = [_, _] ++ s.log from rfl) (two (.start (.inl rfl)) (.request _ _ _))
  | patrol =>
    exact added (show _ = [_, _] ++ s.log from rfl) (two (.start (.inr rfl)) (.request _ _ _))
  | fail head stuck =>
    exact added (show _ = [_, _] ++ s.log from rfl)
      (two (.erase (here head)) (.fail (here head) stuck))
  | pass head => exact added (show _ = [_] ++ s.log from rfl) (one (.arrive (here head)))
  | lap _ head =>
    exact added (show _ = [_, _] ++ s.log from rfl)
      (two (.lap _ (here head)) (.arrive (here head)))
  | complete head moving last dispatched near timer =>
    exact added (show _ = [_, _, _] ++ s.log from rfl)
      (List.forall_mem_cons.mpr ⟨.erase (here head),
        two (.complete (here head) last dispatched near timer) (.arrive (here head))⟩)
  | grant at_request head still _ known =>
    exact added (show _ = [_, _] ++ s.log from rfl)
      (two (.send at_request (here head) still known) (.request _ _ _))
  | reroute events cause _ head _ _ _ _ _ _ told =>
    apply added (ask_log s.toFleetCore _ (.reroute _ cause :: events))
    rw [List.forall_mem_append, List.forall_mem_cons]
    refine ⟨⟨.reroute cause (here head), ?_⟩, one (.request _ _ _)⟩
    intro e he
    exact told e he ▸ .wait (here head)
  | hold events _ _ _ head _ _ _ told =>
    apply added (ask_log s.toFleetCore _ events)
    rw [List.forall_mem_append]
    refine ⟨?_, one (.request _ _ _)⟩
    intro e he
    exact told e he ▸ .wait (here head)
  | publish events reports => exact added rfl fun e he => .report (reports e he)

/-- A path is sent to the robot of the first task alone, from its place to the vertex it heads for,
when its request is granted. -/
theorem Effect.sends (h : Effect c a robot s s') {fleetName r taskId : String} {x y : R} {v : Int}
    {target : Vertex R}
    (he : .pathRequest fleetName r taskId x y v target ∈ s.news s'.toFleetCore) :
    s = c.node ∧ ∃ t ∈ s.tasks, t.robot = r ∧ t.moving = false ∧ v = t.next ∧
      s.graph.vertex v = some target ∧ x = (s.robot r).x ∧ y = (s.robot r).y := by
  cases h.adds he with
  | send at_request here still known =>
    exact ⟨at_request, _, here, rfl, still, rfl, known, rfl, rfl⟩
  | report reports => cases reports

theorem Effects.grows (h : Effects c a s s') : s'.log = s.news s'.toFleetCore ++ s.log := by
  induction h with
  | refl => simp [FleetCore.news]
  | @tail t u _ _ he ih =>
    have hlog : u.log = (t.news u.toFleetCore ++ s.news t.toFleetCore) ++ s.log := by
      rw [he.grows, List.append_assoc, ← ih]
    rw [FleetCore.news_eq hlog, hlog]

/-- What a step adds to the record, one of its effects adds, from a state with what the effects
keep. -/
theorem Effects.exists_news {I : FleetNode R → Prop} (h : Effects c a s s')
    (keeps : ∀ robot t t', Effect c a robot t t' → I t → I t') (hI : I s) {e : Event R}
    (he : e ∈ s.news s'.toFleetCore) :
    ∃ robot t t', Effect c a robot t t' ∧ I t ∧ e ∈ t.news t'.toFleetCore := by
  induction h with
  | refl => simp [FleetCore.news] at he
  | @tail t u robot ht hu ih =>
    have hlog : u.log = (t.news u.toFleetCore ++ s.news t.toFleetCore) ++ s.log := by
      rw [hu.grows, List.append_assoc, ← ht.grows]
    rw [FleetCore.news_eq hlog] at he
    rcases List.mem_append.mp he with he | he
    · exact ⟨robot, t, u, hu, ht.keeps keeps hI, he⟩
    · exact ih he

end Record

end LibiFleet
