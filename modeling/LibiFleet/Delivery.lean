import LibiFleet.Completion
import LibiFleet.Lanes
import LibiFleet.Laps
import LibiFleet.Standstill

/-!
# A task is carried out

A robot that gets to where it is sent drives along the path of its task, vertex after
vertex. At the end of it a dispatched task is COMPLETED, and a patrol goes on with another
lap. A request that is refused costs the robot no more than a tick.
-/

namespace LibiFleet

variable {R : Type}

/-- The vertices at which the robot arrives, the last one first. -/
def arrivals (robot : String) (log : List (Event R)) : List Int :=
  log.filterMap fun
    | .arrival q v => if q = robot then some v else none
    | _ => none

/-- How often the robot has been refused a node. -/
def refusals (robot : String) (log : List (Event R)) : Nat :=
  log.countP fun
    | .moveRequest q _ _ _ decision => q = robot ∧ decision ≠ .grant
    | _ => false

/-- The robot takes a detour, or its task is given up. -/
def Event.Hinders (robot : String) : Event R → Prop
  | .reroute q _ => q = robot
  | .taskState _ state q => q = robot ∧ state = "FAILED"
  | _ => False

instance (robot : String) : DecidablePred (Event.Hinders (R := R) robot)
  | .reroute q _ => inferInstanceAs (Decidable (q = robot))
  | .taskState _ state q => inferInstanceAs (Decidable (q = robot ∧ state = "FAILED"))
  | .arrival .. | .erased .. | .goals .. | .routes .. | .occupancy .. | .moveRequest ..
  | .pathRequest .. | .lap .. => inferInstanceAs (Decidable False)

/-- Between the two records the robot is hindered. -/
def Hindered (robot : String) (log log' : List (Event R)) : Prop :=
  ∃ e older, e.Hinders robot ∧ log <:+ older ∧ e :: older <:+ log'

/-- Since the record `log` the robot has driven along the rest of the path of `t`, in its order, and
the task has then been COMPLETED. -/
def Delivered (t : ActiveTask R) (log log' : List (Event R)) : Prop :=
  ∃ events, .taskState t.id "COMPLETED" t.robot :: (events ++ log) <:+ log' ∧
    (arrivals t.robot events).reverse = t.path.drop t.idx

/-- What the ticks of the robot have been spent on, but for the departure after the last arrival. -/
def spent (robot : String) (log : List (Event R)) : Nat :=
  (arrivals robot log).length + refusals robot log

section Reading

variable {robot : String} {log log' log'' events : List (Event R)} {t : ActiveTask R}

theorem arrivals_append :
    arrivals robot (events ++ log) = arrivals robot events ++ arrivals robot log :=
  List.filterMap_append

theorem refusals_mono (h : log <:+ log') : refusals robot log ≤ refusals robot log' :=
  h.sublist.countP_le

theorem spent_mono (h : log <:+ log') : spent robot log ≤ spent robot log' :=
  Nat.add_le_add (h.filterMap _).length_le (refusals_mono h)

theorem Hindered.mono (h : Hindered robot log log') (hlog : log' <:+ log'') :
    Hindered robot log log'' := by
  obtain ⟨e, older, he, hbase, hmem⟩ := h
  exact ⟨e, older, he, hbase, hmem.trans hlog⟩

theorem Hindered.before (h : Hindered robot log' log'') (hlog : log <:+ log') :
    Hindered robot log log'' := by
  obtain ⟨e, older, he, hbase, hmem⟩ := h
  exact ⟨e, older, he, hlog.trans hbase, hmem⟩

theorem Delivered.mono (h : Delivered t log log') (hlog : log' <:+ log'') :
    Delivered t log log'' := by
  obtain ⟨events, hmem, harrivals⟩ := h
  exact ⟨events, hmem.trans hlog, harrivals⟩

/-- What is about other robots tells of no arrival of this one. -/
theorem arrivals_aside {q : String} (h : ∀ e ∈ events, e.Aside q) (hq : q ≠ robot) :
    arrivals robot events = [] := by
  apply List.filterMap_eq_nil_iff.mpr
  intro e he
  cases e with
  | arrival r v =>
    have hr : r = q := h _ he
    exact if_neg (hr ▸ hq)
  | _ => rfl

end Reading

/-- The lap around the route from a vertex of it. -/
def around (route : List Int) (v : Int) : List Int := route.rotate (route.idxOf v) ++ [v]

/-- The path of the task and its place on it after arrivals, the last one first. A patrol that has
come to the end goes on with a lap from there. -/
inductive Along (t : ActiveTask R) (route : List Int) : List Int → List Int → Nat → Prop
  | start : Along t route [] t.path t.idx
  | pass {seen path idx v} (h : Along t route seen path idx) (here : path[idx]? = some v)
      (more : idx + 1 < path.length) : Along t route (v :: seen) path (idx + 1)
  | lap {seen path idx v} (h : Along t route seen path idx) (here : path[idx]? = some v)
      (last : path.length ≤ idx + 1) (patrol : t.patrol = true) (stop : v ∈ route) :
      Along t route (v :: seen) (around route v) 1

theorem take_next {l : List Int} {i : Nat} {v : Int} (h : l[i]? = some v) :
    l.take i ++ [v] = l.take (i + 1) := by
  rw [List.take_add_one, h]
  rfl

/-- A dispatched task keeps to its path. -/
theorem Along.dispatched {t : ActiveTask R} {route seen path : List Int} {idx : Nat}
    (h : Along t route seen path idx) (dispatched : t.patrol = false) :
    path = t.path ∧ t.idx ≤ idx ∧ seen.reverse = (t.path.drop t.idx).take (idx - t.idx) := by
  induction h with
  | start => exact ⟨rfl, le_rfl, by simp⟩
  | @pass seen path idx v h here _ ih =>
    obtain ⟨rfl, hle, hseen⟩ := ih
    refine ⟨rfl, Nat.le_succ_of_le hle, ?_⟩
    have hnext : (t.path.drop t.idx)[idx - t.idx]? = some v := by
      rw [List.getElem?_drop, Nat.add_sub_cancel' hle, here]
    rw [List.reverse_cons, hseen, Nat.succ_sub hle, take_next hnext]
  | lap _ _ _ patrol =>
    rw [dispatched] at patrol
    cases patrol

/-- How many ticks the robot of the task has made use of. -/
def pace (log : List (Event R)) (u : ActiveTask R) : Nat :=
  spent u.robot log + if u.moving then 1 else 0

/-- `u` is what the task `t` of the record `log` has become. The robot has followed its path. -/
structure Underway (t : ActiveTask R) (log : List (Event R)) (s : FleetNode R)
    (u : ActiveTask R) : Prop where
  mem : u ∈ s.tasks
  same : t.Continues u
  came : ∃ events, s.log = events ++ log ∧
    Along t s.patrolRoute (arrivals t.robot events) u.path u.idx

variable [Double R]

/-- What may become of the task in a step: it is hindered, it comes to its end, or it goes on. -/
inductive Proceeds (t : ActiveTask R) (log : List (Event R)) (u : ActiveTask R)
    (s s' : FleetNode R) : Prop
  | hindered (h : Hindered t.robot s.log s'.log)
  | delivered (dispatched : t.patrol = false) (h : Delivered t log s'.log)
  | goes (u') (underway : Underway t log s' u') (farther : pace s.log u ≤ pace s'.log u')
      (target : pace s'.log u' = pace s.log u → u'.moving = true →
        u.moving = true ∧ u'.next = u.next)

/-- A patrol of the robot goes on with a lap from where it has come to. -/
def Conf.LapsJoin (robot : String) (c : Conf R) (a : Action R) : Prop :=
  ∀ l ∈ c.laps a, l.1 = robot → l.2.2.head? = some l.2.1

instance (robot : String) (c : Conf R) : DecidablePred (c.LapsJoin robot) := fun a =>
  inferInstanceAs (Decidable (∀ l ∈ c.laps a, l.1 = robot → l.2.2.head? = some l.2.1))

section Effects

variable {c c' : Conf R} {a : Action R} {robot : String} {s s' s'' : FleetNode R}
  {t u u' : ActiveTask R} {log : List (Event R)}

/-- A lap that begins where the robot has come to. -/
theorem makePatrolPath_around {s : FleetCore R} {v : Int} {path : List Int}
    (made : s.makePatrolPath (s.robot robot) (-1) = some path) (hne : s.patrolRoute ≠ [])
    (near : s.Near robot v) (head : path.head? = some v) :
    v ∈ s.patrolRoute ∧ path = around s.patrolRoute v := by
  obtain ⟨k, w, hw, rfl, hfirst⟩ := makePatrolPath_first made hne
  obtain rfl : w = v := Option.some.inj ((lap_head hw).symm.trans head)
  have hmem := List.mem_of_getElem? hw
  obtain ⟨p, hp, hd⟩ := near
  have haway : s.graph.away (s.robot robot) w = some _ := congrArg _ hp
  obtain ⟨b, d, hb, hbd, before, -⟩ := hfirst w hmem _ haway hd
  obtain rfl : w = b := Option.some.inj (hw.symm.trans hb)
  -- it is the first place of the vertex, as those before it are farther away
  have hk : s.patrolRoute.idxOf w = k := by
    have hlt := List.idxOf_lt_length_iff.mpr hmem
    have hat : s.patrolRoute[s.patrolRoute.idxOf w]? = some w := by
      rw [List.getElem?_eq_getElem hlt, List.getElem_idxOf hlt]
    refine le_antisymm ?_ ?_
    · obtain ⟨hlen, heq⟩ := List.getElem?_eq_some_iff.mp hw
      by_contra hgt
      have hno := List.not_of_lt_findIdx (not_le.mp hgt)
      simp [heq] at hno
    · by_contra hgt
      exact lt_irrefl _ (before _ (not_le.mp hgt) w d hat hbd)
  exact ⟨hmem, by rw [around, hk]⟩

omit [Double R] in
theorem ActiveTask.Placed.next_eq (hp : u.Placed) : u.path[u.idx]? = some u.next := by
  rw [ActiveTask.next, List.getD_eq_getElem?_getD, List.getElem?_eq_getElem hp.2, Option.getD_some]

omit [Double R] in
/-- The task goes on without an arrival. -/
theorem Underway.keep (hu : Underway t log s u) (mem : u' ∈ s'.tasks) (same : u.Continues u')
    (path : u'.path = u.path) (idx : u'.idx = u.idx) (route : s'.patrolRoute = s.patrolRoute)
    {events : List (Event R)} (hlog : s'.log = events ++ s.log)
    (silent : arrivals t.robot events = []) : Underway t log s' u' where
  mem := mem
  same := hu.same.trans same
  came := by
    obtain ⟨older, hold, along⟩ := hu.came
    refine ⟨events ++ older, ?_, ?_⟩
    · rw [hlog, hold, List.append_assoc]
    · rwa [arrivals_append, silent, List.nil_append, path, idx, route]

omit [Double R] in
theorem arrivals_here {v : Int} :
    arrivals robot (.arrival robot v :: log : List (Event R)) = v :: arrivals robot log := by
  simp [arrivals]

omit [Double R] in
/-- The record has grown, and the task moves if it did. -/
theorem pace_mono (hlog : log <:+ s'.log) (hr : u'.robot = u.robot)
    (moving : u.moving = true → u'.moving = true) : pace log u ≤ pace s'.log u' := by
  have hspent : spent u.robot log ≤ spent u.robot s'.log := spent_mono hlog
  unfold pace
  rw [hr]
  by_cases hm : u.moving = true
  · rw [if_pos hm, if_pos (moving hm)]
    omega
  · rw [if_neg hm]
    omega

omit [Double R] in
/-- With an arrival the robot makes no more use of its tick than with the departure before. -/
theorem pace_arrived {v : Int} {log' : List (Event R)} (hlog : .arrival u.robot v :: log <:+ log')
    (hr : u'.robot = u.robot) (moving : u.moving = true) (still : u'.moving = false) :
    pace log u ≤ pace log' u' := by
  have hspent : spent u.robot (.arrival u.robot v :: log) ≤ spent u.robot log' := spent_mono hlog
  have hone : spent u.robot (.arrival u.robot v :: log) = spent u.robot log + 1 := by
    simp [spent, arrivals_here, refusals]
    omega
  simp only [pace, hr, moving, still, if_true, Bool.false_eq_true, if_false]
  omega

omit [Double R] in
theorem pace_departed {log' : List (Event R)} (hlog : log <:+ log') (still : u.moving = false) :
    pace log u < pace log' u.departed := by
  have hspent : spent u.robot log ≤ spent u.robot log' := spent_mono hlog
  simp only [pace, ActiveTask.departed, still, Bool.false_eq_true, if_false, if_true]
  omega

namespace Underway

omit [Double R]

variable {events : List (Event R)}

/-- The task goes on with its path, and its robot has neither arrived nor set off. -/
theorem goes (hu : Underway t log s u) (mem : u' ∈ s'.tasks) (same : u.Continues u')
    (path : u'.path = u.path) (idx : u'.idx = u.idx) (moving : u'.moving = u.moving)
    (route : s'.patrolRoute = s.patrolRoute) (hlog : s'.log = events ++ s.log)
    (silent : arrivals t.robot events = []) : Proceeds t log u s s' := by
  refine .goes u' (hu.keep mem same path idx route hlog silent)
    (pace_mono ⟨_, hlog.symm⟩ same.robot fun hm => moving.trans hm) ?_
  intro _ hm
  exact ⟨moving ▸ hm, by rw [ActiveTask.next, path, idx, ActiveTask.next]⟩

/-- What the robot has reached with one arrival more. -/
theorem arrives (hu : Underway t log s u) (events : List (Event R)) :
    arrivals t.robot (.arrival u.robot u.next :: events) = u.next :: arrivals t.robot events := by
  rw [hu.same.robot, arrivals_here]

theorem passes (hu : Underway t log s u) (hp : u.Placed) (moving : u.moving = true)
    (more : u.idx + 1 < u.path.length) (mem : u.arrived ∈ s'.tasks)
    (route : s'.patrolRoute = s.patrolRoute) (hlog : s'.log = .arrival u.robot u.next :: s.log) :
    Proceeds t log u s s' := by
  obtain ⟨older, hold, along⟩ := hu.came
  refine .goes u.arrived ⟨mem, hu.same.trans ⟨rfl, rfl, rfl, rfl⟩, ?_⟩
    (pace_arrived ⟨[], hlog.symm⟩ rfl moving rfl) ?_
  · refine ⟨.arrival u.robot u.next :: older, by rw [hlog, hold, List.cons_append], ?_⟩
    rw [hu.arrives, route]
    exact along.pass hp.next_eq more
  · intro _ hm
    cases hm

/-- The robot of a patrol has come to the end of its path, and the next lap begins there. -/
theorem rounds (hu : Underway t log s u) (hp : u.Placed) (moving : u.moving = true)
    (last : u.path.length ≤ u.idx + 1) (patrol : t.patrol = true) (stop : u.next ∈ s.patrolRoute)
    (mem : { u.arrived with path := around s.patrolRoute u.next, idx := 1 } ∈ s'.tasks)
    (route : s'.patrolRoute = s.patrolRoute) {path : List Int}
    (hlog : s'.log = .lap u.robot path :: .arrival u.robot u.next :: s.log) :
    Proceeds t log u s s' := by
  obtain ⟨older, hold, along⟩ := hu.came
  refine .goes _ ⟨mem, hu.same.trans ⟨rfl, rfl, rfl, rfl⟩, ?_⟩
    (pace_arrived (hlog ▸ List.suffix_cons ..) rfl moving rfl) ?_
  · refine ⟨.lap u.robot path :: .arrival u.robot u.next :: older,
      by rw [hlog, hold, List.cons_append, List.cons_append], ?_⟩
    rw [route]
    show Along t s.patrolRoute (arrivals t.robot (.arrival u.robot u.next :: older)) _ _
    rw [hu.arrives]
    exact along.lap hp.next_eq last patrol stop
  · intro _ hm
    cases hm

/-- The robot of a dispatched task has come to the end of its path. -/
theorem completes (hu : Underway t log s u) (hp : u.Placed) (last : u.path.length ≤ u.idx + 1)
    (dispatched : t.patrol = false) {e : Event R} (hlog : s'.log =
      e :: .taskState u.id "COMPLETED" u.robot :: .arrival u.robot u.next :: s.log) :
    Proceeds t log u s s' := by
  obtain ⟨older, hold, along⟩ := hu.came
  obtain ⟨hpath, hidx, hseen⟩ := along.dispatched dispatched
  refine .delivered dispatched ⟨.arrival u.robot u.next :: older, ?_, ?_⟩
  · rw [hlog, List.cons_append, ← hold, ← hu.same.id, ← hu.same.robot]
    exact List.suffix_cons ..
  · have hlast : (t.path.drop t.idx)[u.idx - t.idx]? = some u.next := by
      rw [List.getElem?_drop, Nat.add_sub_cancel' hidx, ← hpath, hp.next_eq]
    have hlen : (t.path.drop t.idx).length ≤ u.idx - t.idx + 1 := by
      rw [List.length_drop, ← hpath]
      omega
    rw [hu.arrives, List.reverse_cons, hseen, take_next hlast, List.take_of_length_le hlen]

theorem departs (hu : Underway t log s u) (still : u.moving = false) (mem : u.departed ∈ s'.tasks)
    (route : s'.patrolRoute = s.patrolRoute) (hlog : s'.log = events ++ s.log)
    (silent : arrivals t.robot events = []) : Proceeds t log u s s' := by
  have hpace : pace s.log u < pace s'.log u.departed := pace_departed ⟨events, hlog.symm⟩ still
  refine .goes u.departed ?_ hpace.le fun heq => absurd heq hpace.ne'
  exact hu.keep mem ⟨rfl, rfl, rfl, rfl⟩ rfl rfl route hlog silent

end Underway

/-- The effects of other robots. -/
theorem Effect.proceeds_other (h : Effect c a robot s s') (hl : Ledger s) (hr : robot ≠ t.robot)
    (hu : Underway t log s u) : Proceeds t log u s s' := by
  obtain ⟨events, requests, hlog, haside, hrequests⟩ := h.record
  have hmem : u ∈ s'.tasks := (h.tasks_other hl (hu.same.robot ▸ hr.symm)).mpr hu.mem
  have silent : arrivals t.robot (events ++ requests) = [] := by
    rw [arrivals_append, arrivals_aside haside hr, List.nil_append]
    rcases hrequests with rfl | ⟨src, dst, p, rfl⟩
    · rfl
    · rfl
  rw [← List.append_assoc] at hlog
  exact hu.goes hmem (.refl u) rfl rfl rfl h.patrolRoute_eq hlog silent

/-- The effects of the robot itself, which nobody disturbs. -/
theorem Effect.proceeds_own (h : Effect c a robot s s') (hw : Wellformed s)
    (free : ¬ c.Disturbs t.robot a) (joins : t.patrol = true → c.LapsJoin t.robot a)
    (hr : robot = t.robot) (hu : Underway t log s u) : Proceeds t log u s s' := by
  have hp : u.Placed := hw.placed u hu.mem
  have undisturbed : c.cancels a ≠ some robot := fun hc => free (.inl (hr ▸ hc))
  have unset : a.sets robot ≠ true := fun hset => free (.inr (hr ▸ hset))
  have first {v : ActiveTask R} {rest : List (ActiveTask R)} (head : s.tasks = v :: rest)
      (hv : robot = v.robot) : u = v :=
    hw.ledger.eq_head head hu.mem (hu.same.robot.trans (hr.symm.trans hv))
  have route := h.patrolRoute_eq
  cases h with
  | sighting | touch | reload | swap =>
    exact hu.goes hu.mem (.refl u) rfl rfl rfl route (show _ = [] ++ s.log from rfl) rfl
  | publish events reports =>
    refine hu.goes hu.mem (.refl u) rfl rfl rfl route rfl ?_
    apply List.filterMap_eq_nil_iff.mpr
    intro e he
    have report := reports e he
    cases e with
    | arrival => cases report
    | _ => rfl
  | battery req called | mode called | stopClaim called =>
    rw [called] at unset
    simp [Action.sets] at unset
  | cancel _ called | vacate _ _ called => exact absurd called undisturbed
  | dispatch here _ _ _ _ _ start _ _ _ _ called =>
    subst here called
    exact absurd (congrArg (Option.map Prod.fst) start) undisturbed
  | patrol _ _ _ jobless => exact absurd (hu.same.robot.trans hr.symm) (jobless u hu.mem)
  | fail head =>
    obtain rfl := first head rfl
    have hinders : (Event.taskState u.id "FAILED" u.robot : Event R).Hinders t.robot := ⟨hr, rfl⟩
    exact .hindered ⟨_, s.log, hinders, List.suffix_refl _, List.suffix_cons ..⟩
  | @look _ v rest head =>
    obtain rfl := first head rfl
    exact hu.goes List.mem_cons_self ⟨rfl, rfl, rfl, rfl⟩ rfl rfl rfl route
      (show _ = [] ++ s.log from rfl) rfl
  | @pass _ v rest head moving more =>
    obtain rfl := first head rfl
    exact hu.passes hp moving more List.mem_cons_self route rfl
  | @lap _ v rest path _ head moving last patrol made start near =>
    obtain rfl := first head rfl
    have patrol' : t.patrol = true := hu.same.patrol.symm.trans patrol
    have hne : s.patrolRoute ≠ [] := List.ne_nil_of_length_pos
      (Nat.lt_of_lt_of_le Nat.zero_lt_two (hw.laps u hu.mem patrol))
    obtain ⟨stop, rfl⟩ := makePatrolPath_around made hne near (joins patrol' _ start hr)
    exact hu.rounds hp moving last patrol' stop List.mem_cons_self route rfl
  | @complete _ v rest head moving last dispatched =>
    obtain rfl := first head rfl
    exact hu.completes hp last (hu.same.patrol.symm.trans dispatched) rfl
  | drive head =>
    obtain rfl := first head rfl
    exact hu.goes List.mem_concat_self (.refl u) rfl rfl rfl route
      (show _ = [] ++ s.log from rfl) rfl
  | @grant _ v rest target _ head still =>
    obtain rfl := first head rfl
    exact hu.departs still List.mem_concat_self route (show _ = [_, _] ++ s.log from rfl) rfl
  | @reroute _ v _ _ events cause =>
    have hinders : (Event.reroute v.robot cause : Event R).Hinders t.robot := hr
    have older : s.log <:+ events ++ (s.ask v).2.log :=
      (List.suffix_cons ..).trans (List.suffix_append ..)
    exact .hindered ⟨_, _, hinders, older, List.suffix_refl _⟩
  | @hold _ v _ events _ _ _ head _ _ _ told =>
    obtain rfl := first head rfl
    refine hu.goes List.mem_concat_self ⟨rfl, rfl, rfl, rfl⟩ rfl rfl rfl route
      (show _ = (events ++ [_]) ++ s.log by rw [List.append_assoc]; rfl) ?_
    apply List.filterMap_eq_nil_iff.mpr
    intro e he
    rcases List.mem_append.mp he with he | he
    · rw [told e he]
    · rw [List.mem_singleton.mp he]

omit [Double R] in
theorem Proceeds.trans (h : Proceeds t log u s s') (grows : s.log <:+ s'.log)
    (grows' : s'.log <:+ s''.log)
    (next : ∀ u', Underway t log s' u' → Proceeds t log u' s' s'') : Proceeds t log u s s'' := by
  cases h with
  | hindered h => exact .hindered (h.mono grows')
  | delivered dispatched h => exact .delivered dispatched (h.mono grows')
  | goes u' underway farther target =>
    cases next u' underway with
    | hindered h => exact .hindered (h.before grows)
    | delivered dispatched h => exact .delivered dispatched h
    | goes u'' underway' farther' target' =>
      refine .goes u'' underway' (farther.trans farther') ?_
      intro heq moving
      obtain ⟨moving', next'⟩ := target' (by omega) moving
      obtain ⟨moving'', next''⟩ := target (by omega) moving'
      exact ⟨moving'', next'.trans next''⟩

theorem Effects.proceeds (h : Effects c a s s') (hw : Wellformed s) (hc : Wellformed c.node)
    (plain : a.With Callback.Plain) (free : ¬ c.Disturbs t.robot a)
    (joins : t.patrol = true → c.LapsJoin t.robot a) (hu : Underway t log s u) :
    Proceeds t log u s s' := by
  induction h with
  | refl => exact .goes u hu le_rfl fun _ moving => ⟨moving, rfl⟩
  | @tail v w robot heffects heffect ih =>
    have hwv : Wellformed v := heffects.keeps (fun _ _ _ he hw => he.wellformed hw hc plain) hw
    have grows : s.log <:+ v.log := ⟨_, heffects.grows.symm⟩
    have grows' : v.log <:+ w.log := ⟨_, heffect.grows.symm⟩
    refine ih.trans grows grows' ?_
    intro u' hu'
    by_cases hr : robot = t.robot
    · exact heffect.proceeds_own hwv free joins hr hu'
    · exact heffect.proceeds_other hwv.ledger hr hu'

/-- A robot that is near a vertex stays there until it reports another place. -/
theorem Effects.near (h : Effects c a s s') (steady : a.With Callback.Steady) {k : String}
    (unseen : a.sights k = false) {v : Int} (near : s.Near k v) : s'.Near k v := by
  refine h.keeps (P := fun s => s.Near k v) ?_ near
  rintro robot s s' he ⟨p, hv, hd⟩
  obtain ⟨hx, hy⟩ := he.place unseen
  have hgraph : s'.graph = s.graph := by
    rcases he.graph with hsame | ⟨file, -, called, -⟩
    · exact hsame
    · rw [called] at steady
      exact steady.elim
  exact ⟨p, hgraph ▸ hv, by rwa [hx, hy]⟩

end Effects

/-! ## One tick after the other -/

/-- The tasks that the tick has still to look at. -/
def Conf.due : Conf R → List (ActiveTask R)
  | idle _ => []
  | patrols s _ => s.tasks
  | looping _ _ todo => todo
  | asking _ _ t todo => t :: todo

/-- The robot is where its task has sent it, if the task has. -/
def Conf.Ready (robot : String) (c : Conf R) : Prop :=
  ∀ u ∈ c.node.tasks, u.robot = robot → u.moving = true → c.node.Near robot u.next

instance (robot : String) (c : Conf R) : Decidable (c.Ready robot) :=
  inferInstanceAs (Decidable (∀ u ∈ c.node.tasks, _ → _ → _))

section Ticks

variable {c c' : Conf R} {a : Action R} {t u u' : ActiveTask R} {log : List (Event R)}

/-- A task that goes on moving has not been near its vertex. -/
theorem settle_moving {s s' : FleetCore R} (h : s.settle t = some (s', some u))
    (moving : u.moving = true) : ¬ s'.Near u.robot u.next := by
  unfold FleetCore.settle at h
  dsimp only at h
  obtain ⟨tv, hv, h⟩ := Option.bind_eq_some_iff.mp h
  split at h
  · cases h
  split at h
  · rename_i near
    unfold FleetCore.arrive at h
    dsimp only at h
    split at h
    · split at h
      · obtain ⟨path, -, h⟩ := Option.bind_eq_some_iff.mp h
        cases h
        cases moving
      · cases h
    · cases h
      cases moving
  · rename_i far
    cases h
    rintro ⟨p, hp, hd⟩
    have hvp : tv = p := Option.some.inj (hv.symm.trans hp)
    exact far ⟨moving, hvp ▸ hd⟩

omit [Double R] in
/-- Tasks on the two sides of the loop are of different robots. -/
theorem Ledger.apart {s : FleetNode R} {l kept : List (ActiveTask R)} (hl : Ledger s)
    (tasks : s.tasks = l ++ kept) (hu : u ∈ l) (hu' : u' ∈ kept) : u'.robot ≠ u.robot := by
  have once := hl.once
  rw [tasks, List.map_append] at once
  have hne := (List.nodup_append.mp once).2.2 _ (List.mem_map_of_mem hu) _ (List.mem_map_of_mem hu')
  exact hne.symm

/-- What becomes of a task that is still due: it stays so, it drives on, or it makes its request. -/
theorem due_next (hl : Ledger c.node) (hl' : Ledger c'.node) (hu : u ∈ c.due)
    (hu' : u' ∈ c'.node.tasks) (same : u'.robot = u.robot) (h : c.next = some c') :
    u' ∈ c'.due ∨ (u'.moving = true ∧ ¬ c'.node.Near u'.robot u'.next) ∨
      ∃ s kept todo s', c = .asking s kept u todo ∧ s.request u = some (s', u') ∧
        c' = .looping s' (kept ++ [u']) todo := by
  cases c with
  | idle s => cases h
  | patrols s keys =>
    cases keys with
    | nil =>
      obtain rfl := Option.some.inj h
      rw [Conf.node_looping] at hu'
      exact .inl hu'
    | cons key keys =>
      obtain ⟨s', -, rfl⟩ := Option.map_eq_some_iff.mp h
      exact .inl hu'
  | looping s kept todo =>
    cases todo with
    | nil => cases hu
    | cons v todo =>
      have other (hk : u' ∈ kept) : False := hl.apart rfl hu hk same
      obtain ⟨⟨s', v'⟩, hsettle, rfl⟩ := Option.map_eq_some_iff.mp h
      cases v' with
      | none => exact .inl ((List.mem_append.mp hu').resolve_right other)
      | some v' =>
        dsimp only at hu' ⊢
        by_cases moving : v'.moving = true
        · rw [if_pos moving] at hu' ⊢
          rcases List.mem_append.mp hu' with hu' | hu'
          · exact .inl hu'
          rcases List.mem_append.mp hu' with hu' | hu'
          · exact (other hu').elim
          · obtain rfl := List.mem_singleton.mp hu'
            exact .inr (.inl ⟨moving, settle_moving hsettle moving⟩)
        · rw [if_neg moving] at hu' ⊢
          rcases List.mem_cons.mp hu' with rfl | hu'
          · exact .inl List.mem_cons_self
          rcases List.mem_append.mp hu' with hu' | hu'
          · exact .inl (List.mem_cons_of_mem _ hu')
          · exact (other hu').elim
  | asking s kept v todo =>
    have other (hk : u' ∈ kept) : False := hl.apart (l := v :: todo) rfl hu hk same
    obtain ⟨⟨s', v'⟩, hrequest, rfl⟩ := Option.map_eq_some_iff.mp h
    rcases List.mem_append.mp hu' with hmem | hmem
    · exact .inl hmem
    rcases List.mem_append.mp hmem with hmem | hmem
    · exact (other hmem).elim
    obtain rfl := List.mem_singleton.mp hmem
    rcases List.mem_cons.mp hu with rfl | hu
    · exact .inr (.inr ⟨s, kept, todo, s', rfl, hrequest, rfl⟩)
    · have hmem' : u ∈ (Conf.looping s' (kept ++ [u']) todo).node.tasks :=
        List.mem_append_left _ hu
      obtain rfl := hl'.eq_of_robot hmem' hu' same.symm
      exact .inl hu

/-- The request of a task is of use: it sets off, or it is refused. -/
theorem request_counts {s s' : FleetCore R} (h : s.request u = some (s', u'))
    (still : u.moving = false) (grows : s.log <:+ s'.log) (hr : u'.robot = u.robot) :
    pace s.log u < pace s'.log u' := by
  by_cases granted : (s.ask u).1 = .grant
  · rcases request_cases h with ⟨-, h⟩ | ⟨no, -⟩ | ⟨no, -⟩
    · obtain ⟨-, -, rfl, -⟩ := onGrant_eq h
      exact pace_departed grows still
    · rw [granted] at no
      cases no
    · rw [granted] at no
      cases no
  · have hask : spent u.robot (s.ask u).2.log = spent u.robot s.log + 1 := by
      have hlog : (s.ask u).2.log = .moveRequest u.robot u.cur u.next
        (s.computePriority u.robot u) (s.ask u).1 :: s.log := rfl
      rw [hlog]
      simp [spent, arrivals, refusals, granted]
      omega
    have hspent : spent u.robot (s.ask u).2.log ≤ spent u.robot s'.log :=
      spent_mono (refused_request h granted).2.1
    simp only [pace, hr, still, Bool.false_eq_true, if_false]
    omega

/-- How far the task has come after so many ticks that its robot was ready for. In the middle of a
tick the task may still have to set off. -/
inductive Headway (t : ActiveTask R) (log : List (Event R)) (ticks : Nat) (c : Conf R) : Prop
  | hindered (h : Hindered t.robot log c.node.log)
  | delivered (dispatched : t.patrol = false) (h : Delivered t log c.node.log)
  | goes (v) (underway : Underway t log c.node v)
      (made : ticks + spent t.robot log ≤ pace c.node.log v ∨
        v ∈ c.due ∧ ticks + spent t.robot log ≤ pace c.node.log v + 1 ∧
          (v.moving = true → c.node.Near t.robot v.next))

/-- What a step in the middle of a tick leaves for it to do. -/
theorem Headway.next {ticks : Nat} (hu : Underway t log c.node u) (hu' : Underway t log c'.node u')
    (hs : c.Sound) (hl : Ledger c.node) (hl' : Ledger c'.node) (grows : c.node.log <:+ c'.node.log)
    (farther : pace c.node.log u ≤ pace c'.node.log u')
    (target : pace c'.node.log u' = pace c.node.log u → u'.moving = true →
      u.moving = true ∧ u'.next = u.next)
    (near : ∀ v, c.node.Near t.robot v → c'.node.Near t.robot v) (due : u ∈ c.due)
    (made : ticks + spent t.robot log ≤ pace c.node.log u + 1)
    (ready : u.moving = true → c.node.Near t.robot u.next) (h : c.next = some c') :
    Headway t log ticks c' := by
  by_cases hpace : pace c'.node.log u' = pace c.node.log u
  · have ready' (moving : u'.moving = true) : c'.node.Near t.robot u'.next := by
      obtain ⟨moving', hnext⟩ := target hpace moving
      rw [hnext]
      exact near _ (ready moving')
    have hr : u'.robot = u.robot := hu'.same.robot.trans hu.same.robot.symm
    rcases due_next hl hl' due hu'.mem hr h with hdue | ⟨moving, far⟩ |
        ⟨s, kept, todo, s', rfl, hrequest, rfl⟩
    · exact .goes u' hu' (.inr ⟨hdue, by omega, ready'⟩)
    · exact absurd (hu'.same.robot ▸ ready' moving) far
    · have hmore := request_counts hrequest hs grows hr
      exact absurd hpace hmore.ne'
  · exact .goes u' hu' (.inl (by omega))

/-- One step brings the task on its way, and every tick counts for which its robot is ready. -/
theorem Headway.step {ticks : Nat} (hway : Headway t log ticks c) (hlog : log <:+ c.node.log)
    (hs : c.Sound) (hw : Wellformed c.node) (hw' : Wellformed c'.node)
    (plain : a.With Callback.Plain) (free : ¬ c.Disturbs t.robot a)
    (joins : t.patrol = true → c.LapsJoin t.robot a) (h : c.step a = some c') :
    Headway t log (ticks + if a.timers = 1 ∧ c.Ready t.robot then 1 else 0) c' := by
  have heffects := step_effects hs h
  have grows : c.node.log <:+ c'.node.log := ⟨_, heffects.grows.symm⟩
  cases hway with
  | hindered hno => exact .hindered (hno.mono grows)
  | delivered dispatched hdone => exact .delivered dispatched (hdone.mono grows)
  | goes u hu made =>
    cases heffects.proceeds hw hw plain free joins hu with
    | hindered hno => exact .hindered (hno.before hlog)
    | delivered dispatched hdone => exact .delivered dispatched hdone
    | goes u' hu' farther target =>
      rcases step_cases h with ⟨rfl, hnext⟩ | ⟨s, rfl, rfl, rfl⟩ |
        ⟨s, s', cb, rfl, rfl, hcb, -, rfl⟩
      · have calm : ¬ ((Action.go : Action R).timers = 1 ∧ c.Ready t.robot) := by
          rintro ⟨hgo, -⟩
          cases hgo
        rw [if_neg calm]
        rcases made with made | ⟨due, made, ready⟩
        · exact .goes u' hu' (.inl (by omega))
        · have near (v : Int) (hv : c.node.Near t.robot v) : c'.node.Near t.robot v :=
            heffects.near trivial rfl hv
          exact Headway.next hu hu' hs hw.ledger hw'.ledger grows farther target near due made ready
            hnext
      · have made := made.resolve_right (by simp [Conf.due])
        split
        · rename_i ready
          refine .goes u' hu' (.inr ⟨hu'.mem, by omega, ?_⟩)
          intro moving
          exact ready.2 u' hu'.mem hu'.same.robot moving
        · exact .goes u' hu' (.inl (by omega))
      · have made := made.resolve_right (by simp [Conf.due])
        have calm : (Action.call cb).timers ≠ 1 := by
          cases cb with
          | timer => exact absurd rfl hcb
          | _ => exact Nat.zero_ne_one
        rw [if_neg fun hc => calm hc.1]
        exact .goes u' hu' (.inl (by omega))

end Ticks

/-! ## Over whole runs -/

/-- How many ticks of the way the robot has been ready for. -/
def served (robot : String) (way : Past R) : Nat :=
  way.countP fun e => e.2.timers = 1 ∧ e.1.Ready robot

variable {p : Setup R}

/-- The task after any run in which nobody disturbs its robot. -/
theorem headway_run {t : ActiveTask R} {s : FleetNode R} {c : Conf R} {way : Past R}
    (hs : (ticks p).Reach (fun _ a => a.With Callback.Plain) (.idle s)) (ht : t ∈ s.tasks)
    (run : (ticks p).Run (fun c a => (a.With Callback.Plain ∧ ¬ c.Disturbs t.robot a) ∧
      (t.patrol = true → c.LapsJoin t.robot a)) (.idle s) way c) :
    c.node.patrolRoute = s.patrolRoute ∧ Headway t s.log (served t.robot way) c := by
  have start : Headway t s.log (served (R := R) t.robot []) (.idle s) := by
    refine .goes t ⟨ht, .refl t, [], rfl, .start⟩ (.inl ?_)
    simp only [served, List.countP_nil, Conf.node, pace]
    omega
  refine (run.invariant (P := fun way c => s.log <:+ c.node.log ∧
    c.node.patrolRoute = s.patrolRoute ∧ Headway t s.log (served t.robot way) c) hs
    (fun _ _ h => h.1.1) ⟨List.suffix_refl _, rfl, start⟩ ?_).2
  rintro way c a c' hc ok hstep ⟨hlog, hroute, hway⟩
  have hsound : c.Sound := reach_sound hc
  have hw : Wellformed c.node := reach_wellformed (fun _ _ h => h) hc
  have hw' : Wellformed c'.node := wellformed_step ok.1.1 hstep hsound hw
  have heffects := step_effects hsound hstep
  have hroute' : c'.node.patrolRoute = s.patrolRoute :=
    heffects.keeps (P := fun s' => s'.patrolRoute = s.patrolRoute)
      (fun _ _ _ he h => he.patrolRoute_eq.trans h) hroute
  refine ⟨hlog.trans ⟨_, heffects.grows.symm⟩, hroute', ?_⟩
  have hcount : served t.robot ((c, a) :: way) =
      served t.robot way + if a.timers = 1 ∧ c.Ready t.robot then 1 else 0 := by
    simp [served, List.countP_cons]
  rw [hcount]
  exact hway.step hlog hsound hw hw' ok.1.1 ok.1.2 ok.2 hstep

/-- Between two ticks the robot of a task that goes on has arrived or been refused as often as it
has been ready, but for the departure under way. -/
theorem Headway.arrived {t : ActiveTask R} {s s' : FleetNode R} {n : Nat}
    (h : Headway t s.log n (.idle s')) : Hindered t.robot s.log s'.log ∨
      (t.patrol = false ∧ Delivered t s.log s'.log) ∨
      ∃ u events, u ∈ s'.tasks ∧ s'.log = events ++ s.log ∧
        Along t s'.patrolRoute (arrivals t.robot events) u.path u.idx ∧
        n + refusals t.robot s.log ≤
          (arrivals t.robot events).length + refusals t.robot s'.log + 1 := by
  cases h with
  | hindered h => exact .inl h
  | delivered dispatched h => exact .inr (.inl ⟨dispatched, h⟩)
  | goes u hu made =>
    obtain ⟨events, hlog, along⟩ := hu.came
    refine .inr (.inr ⟨u, events, hu.mem, hlog, along, ?_⟩)
    have made := made.resolve_right (by simp [Conf.due])
    have hcount : spent t.robot s'.log = (arrivals t.robot events).length +
        (arrivals t.robot s.log).length + refusals t.robot s'.log := by
      rw [spent]
      simp only [Conf.node] at hlog
      rw [hlog, arrivals_append, List.length_append]
    have hpace : pace s'.log u ≤ spent t.robot s'.log + 1 := by
      rw [pace, hu.same.robot]
      split <;> omega
    have made : n + spent t.robot s.log ≤ pace s'.log u := made
    rw [spent] at made
    omega

/-- A dispatched task with ticks enough is at its end. -/
theorem Headway.delivered_of {t : ActiveTask R} {s s' : FleetNode R} {n : Nat}
    (h : Headway t s.log n (.idle s')) (hw : Wellformed s') (dispatched : t.patrol = false)
    (long : t.path.length - t.idx + refusals t.robot s'.log < n + refusals t.robot s.log) :
    Hindered t.robot s.log s'.log ∨ Delivered t s.log s'.log := by
  rcases h.arrived with h | ⟨-, h⟩ | ⟨u, events, hu, -, along, hcount⟩
  · exact .inl h
  · exact .inr h
  · have hlt : u.idx < u.path.length := (hw.placed u hu).2
    obtain ⟨hpath, hidx, hseen⟩ := along.dispatched dispatched
    have hlen : (arrivals t.robot events).length ≤ u.idx - t.idx := by
      rw [← List.length_reverse, hseen]
      exact List.length_take_le ..
    rw [hpath] at hlt
    omega

/-- A dispatched task whose robot gets to where it is sent, and whom nobody disturbs, takes a detour
or is given up, or its robot drives along the rest of the path, in its order, and the task is
COMPLETED: within a tick for each vertex that is left and for each refusal, and one more. -/
theorem task_delivered {t : ActiveTask R} {s s' : FleetNode R} {way : Past R}
    (hs : (ticks p).Reach (fun _ a => a.With Callback.Plain) (.idle s))
    (ht : t ∈ s.tasks) (dispatched : t.patrol = false)
    (run : (ticks p).Run (fun c a => a.With Callback.Plain ∧ ¬ c.Disturbs t.robot a) (.idle s)
      way (.idle s'))
    (long : t.path.length - t.idx + refusals t.robot s'.log <
      served t.robot way + refusals t.robot s.log) :
    Hindered t.robot s.log s'.log ∨ Delivered t s.log s'.log := by
  have hs' := hs.run (fun _ _ h => h.1) run
  have noLap : t.patrol = true → False := fun h => Bool.false_ne_true (dispatched.symm.trans h)
  have hway := (headway_run hs ht (run.mono fun _ _ h => ⟨h, fun h => (noLap h).elim⟩)).2
  exact hway.delivered_of (reach_wellformed (fun _ _ h => h) hs') dispatched long

/-- A robot that is ready for every tick. -/
theorem served_all {robot : String} {ok : Conf R → Action R → Prop} {c c' : Conf R} {way : Past R}
    (run : (ticks p).Run (fun c a => ok c a ∧ (a.timers = 1 → c.Ready robot)) c way c') :
    served robot way = (way.map (·.2)).countP fun a => a.timers = 1 := by
  induction run with
  | refl => rfl
  | @tail way c _ a _ hok _ ih =>
    have hcount : (a.timers = 1 ∧ c.Ready robot) = (a.timers = 1) :=
      propext ⟨And.left, fun ha => ⟨ha, hok.2 ha⟩⟩
    have ih : way.countP (fun e => e.2.timers = 1 ∧ e.1.Ready robot) = _ := ih
    simp only [served, List.countP_cons, List.map_cons, hcount, ih]

theorem task_delivered_corridor : ∃ s s' : FleetNode ℚ, ∃ t ∈ s.tasks,
    t.path = [0, 1, 2] ∧ t.idx = 1 ∧ Delivered t s.log s'.log := by
  let M := ticks (Yard.setup false [])
  let free (c : Conf ℚ) (a : Action ℚ) : Prop :=
    (a.With Callback.Plain ∧ ¬ c.Disturbs "r1" a) ∧ (a.timers = 1 → c.Ready "r1")
  let drive := Yard.taken .timer 4 ++ .call (Yard.seen "r1" 10 0) :: Yard.taken .timer 4 ++
    .call (Yard.seen "r1" 20 0) :: Yard.taken .timer 3
  obtain ⟨s, hs, hcheck⟩ := exists_rests (Yard.setup false []) (fun _ a => a.With Callback.Plain)
    (fun s => decide (∃ t ∈ s.tasks, t.robot = "r1" ∧ t.patrol = false ∧ t.path = [0, 1, 2] ∧
      t.idx = 1) && (M.runWhen free (.idle s) drive).any (Conf.rests fun s' =>
        decide (refusals "r1" s'.log = 0 ∧ ∀ e ∈ s'.log, ¬ e.Hinders "r1")))
    [.call (Yard.seen "r1" 0 0), .call (Yard.send "r1" "2")] (by decide +kernel)
  obtain ⟨htask, hrun⟩ := Bool.and_eq_true_iff.mp hcheck
  obtain ⟨t, ht, hr, dispatched, hpath, hidx⟩ := of_decide_eq_true htask
  obtain ⟨s', way, run, hway, hlog⟩ := run_rests hrun
  obtain ⟨never, clear⟩ := of_decide_eq_true hlog
  have hserved : served t.robot way = 3 := by
    rw [hr, served_all run, hway]
    decide +kernel
  have long : t.path.length - t.idx + refusals t.robot s'.log <
      served t.robot way + refusals t.robot s.log := by
    rw [hserved, hr, never, hpath, hidx]
    exact Nat.lt_add_right _ (by decide)
  have run' : M.Run (fun c a => a.With Callback.Plain ∧ ¬ c.Disturbs t.robot a) (.idle s) way
      (.idle s') := run.mono fun _ _ h => hr ▸ h.1
  refine ⟨s, s', t, ht, hpath, hidx, (task_delivered hs ht dispatched run' long).resolve_left ?_⟩
  rintro ⟨e, older, hinders, -, hmem⟩
  exact clear e (hmem.subset List.mem_cons_self) (hr ▸ hinders)

end LibiFleet
