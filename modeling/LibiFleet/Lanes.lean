import LibiFleet.Completion
import LibiFleet.Laps

/-!
# Robots drive along lanes

A path request starts wherever the robot is, and the task believes the robot to be at
`path[idx - 1]`. It is there in the runs that start a task only for a robot that is at
the first vertex of its path, and in which a robot that waits does not move away.
-/

namespace LibiFleet

open Std (ExtTreeMap)

variable {R : Type} [Double R]

/-- The place is closer than `kArrive` to the vertex. -/
def Navgraph.At (g : Navgraph R) (x y : R) (v : Int) : Prop :=
  ∃ p ∈ g.vertex v, hypot (x - p.x) (y - p.y) < kArrive

instance (g : Navgraph R) (x y : R) (v : Int) : Decidable (g.At x y v) :=
  inferInstanceAs (Decidable (∃ p ∈ g.vertex v, hypot (x - p.x) (y - p.y) < kArrive))

instance (s : FleetCore R) (robot : String) (v : Int) : Decidable (s.Near robot v) :=
  inferInstanceAs (Decidable (s.graph.At (s.robot robot).x (s.robot robot).y v))

variable {p : Setup R} {c c' : Conf R} {a : Action R} {robot : String} {s s' : FleetNode R}

/-- A lap begins and ends at the same vertex of the route: one the robot is at, if it is at one. -/
theorem makePatrolPath_at {s : FleetCore R} {r : RobotInfo R} {path : List Int}
    (long : 2 ≤ s.patrolRoute.length) (made : s.makePatrolPath r (-1) = some path) :
    ∃ v ∈ s.patrolRoute, path.head? = some v ∧ path.getLast? = some v ∧
      ((∃ w ∈ s.patrolRoute, s.graph.At r.x r.y w) → s.graph.At r.x r.y v) := by
  have hne : s.patrolRoute ≠ [] := by
    intro hnil
    simp [hnil] at long
  obtain ⟨k, v, hv, rfl, hfirst⟩ := makePatrolPath_first made hne
  refine ⟨v, List.mem_of_getElem? hv, lap_head hv, List.getLast?_concat, ?_⟩
  intro hat
  obtain ⟨w, hw, q, hq, near⟩ := hat
  have haway : s.graph.away r w = some (hypot (r.x - q.x) (r.y - q.y)) := by
    rw [Navgraph.away, Option.mem_def.mp hq, Option.map_some]
  -- the nearest vertex is no farther than one that is near
  obtain ⟨v', d, hv', hd, -, hleast⟩ := hfirst w hw _ haway near
  obtain rfl := Option.some.inj (hv'.symm.trans hv)
  obtain ⟨p, hp, rfl⟩ := Option.map_eq_some_iff.mp hd
  exact ⟨p, hp, (hleast w hw _ haway).trans_lt near⟩

/-- Every task is at a valid place of its path, and the path of a patrol ends on the route. -/
structure Rounds (s : FleetNode R) : Prop where
  fits : ∀ t ∈ s.tasks, t.Fits s.patrolRoute
  ends : ∀ t ∈ s.tasks, t.patrol = true → ∃ v ∈ s.patrolRoute, t.path.getLast? = some v

/-- A detour of a patrol leads back to the route. -/
theorem detour_ends {t : ActiveTask R} {path : List Int} {cause : Detour} (patrol : t.patrol = true)
    (old : ∃ v ∈ s.patrolRoute, t.path.getLast? = some v)
    (found : path = s.detour t (if cause = .stopped then t.back else s.detourGoal t))
    (long : 2 ≤ path.length) : ∃ v ∈ s.patrolRoute, path.getLast? = some v := by
  have hne : path ≠ [] := by
    intro hnil
    simp [hnil] at long
  have route := Navgraph.dijkstra_route found.symm hne
  refine ⟨_, ?_, route.last⟩
  split
  · obtain ⟨v, hv, hlast⟩ := old
    rwa [ActiveTask.back, List.getLastD_eq_getLast?, hlast]
  · have hgoal : 0 ≤ s.detourGoal t := by
      have hmem := List.mem_of_getLast? route.last
      rename_i hcause
      rw [if_neg hcause] at hmem
      exact (route.range _ hmem).1
    simp only [FleetCore.detourGoal, patrol, if_true, FleetCore.patrolSucc] at hgoal ⊢
    split at hgoal
    · rename_i i hi
      have hlen : (i + 1) % s.patrolRoute.length < s.patrolRoute.length := by
        apply Nat.mod_lt
        obtain ⟨v, hv, -⟩ := old
        exact List.length_pos_of_mem hv
      rw [List.getD_eq_getElem?_getD, List.getElem?_eq_getElem hlen, Option.getD_some]
      exact List.getElem_mem hlen
    · simp at hgoal

theorem Effect.rounds (h : Effect c a robot s s') (hs : Rounds s) : Rounds s' := by
  have lap {r : RobotInfo R} {path : List Int} (long : 2 ≤ s.patrolRoute.length)
      (made : s.makePatrolPath r (-1) = some path) :
      ∃ v ∈ s.patrolRoute, path.getLast? = some v := by
    obtain ⟨v, hv, -, hlast, -⟩ := makePatrolPath_at long made
    exact ⟨v, hv, hlast⟩
  refine ⟨h.patrolRoute_eq ▸ h.fits hs.fits, ?_⟩
  rw [h.patrolRoute_eq]
  intro t ht patrol
  cases h.stems ht with
  | same here | look here | pass here | grant here | hold _ _ here =>
    have hold := hs.ends _ here patrol
    exact hold
  | dispatch => cases patrol
  | patrol _ _ long made => exact lap long made
  | lap here _ patrol made => exact lap ((hs.fits _ here).2 patrol) made
  | reroute cause here _ found long =>
    rw [ActiveTask.detoured_patrol] at patrol
    rw [ActiveTask.detoured_path]
    exact detour_ends patrol (hs.ends _ here patrol) found long

/-- The state message that the step takes. -/
def Action.message : Action R → Option (RobotState R)
  | .call (.robotState msg) => some msg
  | _ => none

/-- A task that the step starts for the robot finds it at the first vertex of its path, and a
message that comes while its task waits finds it at the vertex the task departs from. -/
def Docked (robot : String) (c : Conf R) (a : Action R) : Prop :=
  (∀ e ∈ c.enlists a, e.1 = robot → c.node.Near robot (e.2.headD 0)) ∧
  ∀ msg ∈ a.message, msg.name = robot → ∀ t ∈ c.node.tasks, t.robot = robot → t.moving = false →
    c.node.graph.At msg.x msg.y t.cur

instance (robot : String) (c : Conf R) (a : Action R) : Decidable (Docked robot c a) :=
  inferInstanceAs (Decidable (_ ∧ _))

/-- A robot whose task waits is at the vertex that the task departs from. -/
def Waits (robot : String) (s : FleetNode R) : Prop :=
  ∀ t ∈ s.tasks, t.robot = robot → t.moving = false → s.Near robot t.cur

/-- The graph is the same, and the robot at the same place. -/
structure Unmoved (robot : String) (s s' : FleetCore R) : Prop where
  graph : s'.graph = s.graph
  x : (s'.robot robot).x = (s.robot robot).x
  y : (s'.robot robot).y = (s.robot robot).y

theorem Unmoved.near {s s' : FleetCore R} (h : Unmoved robot s s') {v : Int} :
    s'.Near robot v ↔ s.Near robot v := by
  unfold FleetCore.Near
  rw [h.graph, h.x, h.y]

theorem Unmoved.trans {s s' s'' : FleetCore R} (h : Unmoved robot s s')
    (h' : Unmoved robot s' s'') : Unmoved robot s s'' where
  graph := h'.graph.trans h.graph
  x := h'.x.trans h.x
  y := h'.y.trans h.y

theorem Effect.unmoved (h : Effect c a robot s s') (steady : a.With Callback.Steady) {k : String}
    (unseen : a.sights k = false) :
    Unmoved k s.toFleetCore s'.toFleetCore where
  graph := by
    rcases h.graph with hg | ⟨file, -, rfl, -⟩
    · exact hg
    · exact False.elim steady
  x := (h.place unseen).1
  y := (h.place unseen).2

/-- A task departs from the first vertex of its path first. -/
theorem new_cur (id robot : String) (path : List Int) (patrol : Bool) (priority : Int)
    (startSeq : Nat) (armActions : Int) : (ActiveTask.new id robot path patrol priority startSeq
      armActions : ActiveTask R).cur = path.headD 0 := by
  cases path <;> rfl

theorem Effect.waits (h : Effect c a robot s s') (hr : Rounds s)
    (docked : Docked robot c a) (since : Unmoved robot c.node.toFleetCore s.toFleetCore)
    (hs : Waits robot s) :
    ∀ t ∈ s'.tasks, t.robot = robot → t.moving = false → s.Near robot t.cur := by
  intro u hu hrobot still
  have joined {path : List Int} (start : c.enlists a = some (robot, path)) :
      s.Near robot (path.headD 0) := since.near.mpr (docked.1 _ start rfl)
  cases h.stems hu with
  | same here => exact hs u here hrobot still
  | dispatch _ _ _ start =>
    rw [new_cur]
    exact joined start
  | patrol _ _ _ _ start =>
    rw [new_cur]
    exact joined start
  | look here =>
    have hold := hs _ here rfl still
    exact hold
  | pass _ _ near => exact near
  | @lap t path here last patrol made near =>
    obtain ⟨hfits, hlong⟩ := hr.fits t here
    obtain ⟨w, hw, hlast⟩ := hr.ends t here patrol
    obtain ⟨v, -, hfirst, -, hat⟩ := makePatrolPath_at (hlong patrol) made
    have hcur : ({ t.arrived with path, idx := 1 } : ActiveTask R).cur = v := by
      obtain ⟨rest, rfl⟩ := List.head?_eq_some_iff.mp hfirst
      rfl
    rw [hcur]
    refine hat ⟨w, hw, ?_⟩
    rw [next_last hfits last, Option.some.injEq] at hlast
    exact hlast ▸ near
  | grant => cases still
  | reroute cause here waiting found long =>
    rw [(detour_spec found long cause).1]
    exact hs _ here rfl waiting
  | hold _ _ here waiting =>
    have hold := hs _ here rfl waiting
    exact hold

theorem waits_step (hsound : c.Sound) (hl : Ledger c.node) (hr : Rounds c.node)
    (steady : a.With Callback.Steady) (docked : Docked robot c a) (h : c.step a = some c')
    (hs : Waits robot c.node) : Waits robot c'.node := by
  by_cases unseen : a.sights robot = false
  · have offers : a.With Callback.Offers := steady.mono fun _ => Callback.Steady.offers
    have hall : Ledger c'.node ∧ Rounds c'.node ∧
        Unmoved robot c.node.toFleetCore c'.node.toFleetCore ∧ Waits robot c'.node := by
      refine (step_effects hsound h).keeps (P := fun s => Ledger s ∧ Rounds s ∧
        Unmoved robot c.node.toFleetCore s.toFleetCore ∧ Waits robot s) ?_
        ⟨hl, hr, ⟨rfl, rfl, rfl⟩, hs⟩
      rintro q s s' he ⟨hl, hr, since, hs⟩
      have now := he.unmoved steady unseen
      refine ⟨he.ledger offers hl, he.rounds hr, since.trans now, ?_⟩
      intro t ht hrobot still
      rw [now.near]
      by_cases hq : robot = q
      · subst hq
        exact he.waits hr docked since hs t ht hrobot still
      · exact hs t ((he.tasks_other hl (hrobot.symm ▸ hq)).mp ht) hrobot still
    exact hall.2.2.2
  · obtain ⟨msg, rfl, rfl⟩ := Action.sights_iff.mp (Bool.eq_true_of_not_eq_false unseen)
    cases c with
    | idle s =>
      obtain rfl := Option.some.inj h
      intro t ht hrobot still
      have hat := docked.2 msg rfl rfl t ht hrobot still
      have hplace : ((s.onRobotState msg).robot msg.name).x = msg.x ∧
          ((s.onRobotState msg).robot msg.name).y = msg.y := by
        simp [FleetNode.onRobotState, FleetCore.robot]
      unfold FleetCore.Near
      rw [Conf.node, hplace.1, hplace.2]
      exact hat
    | patrols | looping | asking => cases h

theorem reach_rounds {ok : Conf R → Action R → Prop}
    (offers : ∀ c a, ok c a → a.With Callback.Offers) (hc : (ticks p).Reach ok c) :
    Rounds c.node :=
  reach_books offers (P := Rounds) ⟨by simp [FleetNode.start], by simp [FleetNode.start]⟩
    (fun _ _ _ _ _ _ he _ _ hs => he.rounds hs) hc

/-- Every path request of the next step to the robot starts closer than `kArrive` to the vertex
`path[idx - 1]` of its task, and leads to `path[idx]`. -/
def SendsFromVertex (robot : String) (c : Conf R) : Prop :=
  ∀ a c', c.step a = some c' → ∀ fleetName taskId x y v target,
    .pathRequest fleetName robot taskId x y v target ∈ c.node.news c'.node.toFleetCore →
      ∃ t ∈ c.node.tasks, t.robot = robot ∧ v = t.next ∧
        ∃ u, c.node.graph.vertex t.cur = some u ∧ hypot (x - u.x) (y - u.y) < kArrive

/-- The path requests to a robot start where its task believes it to be, and those of dispatched
tasks lead along lanes, if the robot is at the first vertex whenever a task is started for it and
does not move away while it waits. -/
theorem driven_along_lanes (hc : (ticks p).Reach
    (fun c a => a.With Callback.Steady ∧ Docked robot c a) c) :
    SendsFromVertex robot c ∧ ∀ t ∈ c.node.tasks, t.patrol = false →
      t.cur = t.next ∨ c.node.graph.Lane t.cur t.next := by
  have offers (c : Conf R) (a : Action R) (h : a.With Callback.Steady ∧ Docked robot c a) :
      a.With Callback.Offers := h.1.mono fun _ => Callback.Steady.offers
  have known (c : Conf R)
      (hc : (ticks p).Reach (fun c a => a.With Callback.Steady ∧ Docked robot c a) c) :
      c.Sound ∧ Ledger c.node ∧ Rounds c.node :=
    ⟨reach_sound hc, reach_ledger offers hc, reach_rounds offers hc⟩
  have hwaits : Waits robot c.node := by
    refine (hc.assuming known).invariant (P := fun c => Waits robot c.node) ?_ ?_
    · intro t ht
      cases ht
    · rintro c a c' ⟨⟨steady, docked⟩, hsound, hl, hr⟩ hstep hs
      exact waits_step hsound hl hr steady docked hstep hs
  have hwalk : ∀ t ∈ c.node.tasks, t.patrol = false → c.node.graph.Walk t.path := by
    refine reach_books offers
      (P := fun s => ∀ t ∈ s.tasks, t.patrol = false → s.graph.Walk t.path) ?_ ?_ hc
    · intro t ht
      cases ht
    · exact fun _ _ _ _ _ hok he _ _ hs => he.lanes hok.1 hs
  constructor
  · intro a c' hstep fleetName taskId x y v target he
    obtain ⟨q, s, s', heffect, -, he⟩ :=
      (step_effects (reach_sound hc) hstep).exists_news (I := fun _ => True) (by simp) trivial he
    obtain ⟨rfl, t, ht, hr, still, rfl, -, rfl, rfl⟩ := heffect.sends he
    obtain ⟨u, hu, hnear⟩ := hwaits t ht hr still
    subst hr
    exact ⟨t, ht, rfl, rfl, u, hu, hnear⟩
  · intro t ht dispatched
    exact ((hwalk t ht dispatched).lane ((known c hc).2.2.fits t ht).1).symm

theorem driven_along_lanes_one : ∃ c c' : Conf ℚ, (ticks (Yard.setup false [])).Reach
    (fun c a => a.With Callback.Steady ∧ Docked "r1" c a) c ∧ c.step .go = some c' ∧
    ∃ x y target, .pathRequest "libi" "r1" "r1-1" x y 1 target ∈
      c.node.news c'.node.toFleetCore ∧ ∃ t ∈ c.node.tasks, t.next = 1 ∧
        ∃ u, c.node.graph.vertex t.cur = some u ∧ hypot (x - u.x) (y - u.y) < kArrive := by
  obtain ⟨c, hc, hcheck⟩ := (ticks (Yard.setup false [])).exists_reach
    (fun c a => a.With Callback.Steady ∧ Docked "r1" c a)
    (fun c => decide (∃ c' ∈ c.step .go, .pathRequest "libi" "r1" "r1-1" (1 / 5) 0 1 ⟨10, 0⟩ ∈
      c.node.news c'.node.toFleetCore))
    ([.call (Yard.seen "r1" 0 0), .call (Yard.send "r1" "2"), .call (Yard.seen "r1" (1 / 5) 0)] ++
      Yard.taken .timer 2) (by decide +kernel)
  obtain ⟨c', hstep, he⟩ := of_decide_eq_true hcheck
  obtain ⟨t, ht, -, hv, hu⟩ := (driven_along_lanes hc).1 .go c' hstep _ _ _ _ _ _ he
  exact ⟨c, c', hc, hstep, _, _, _, he, t, ht, hv.symm, hu⟩

/-- A robot that stands off the vertices is driven to the second vertex of its path from where it
is; and so is one that was at the first vertex, but has moved away while it waited. -/
theorem driven_off_lanes :
    (¬ ∀ (p : Setup ℚ) (c : Conf ℚ), (ticks p).Reach (fun _ a => a.With Callback.Steady) c →
      ∀ robot, SendsFromVertex robot c) ∧
    ¬ ∀ (p : Setup ℚ) (c : Conf ℚ), (ticks p).Reach (fun c a => a.With Callback.Steady ∧
      ∀ e ∈ c.enlists a, c.node.Near e.1 (e.2.headD 0)) c → ∀ robot, SendsFromVertex robot c := by
  have off (c : Conf ℚ) (id : String)
      (h : ∃ c' ∈ c.step .go, .pathRequest "libi" "r1" id 3 0 1 ⟨10, 0⟩ ∈
      c.node.news c'.node.toFleetCore ∧ ∀ t ∈ c.node.tasks, t.robot = "r1" →
        ∀ u ∈ c.node.graph.vertex t.cur, ¬ hypot (3 - u.x) (0 - u.y) < kArrive) :
      ¬ SendsFromVertex "r1" c := by
    intro hsends
    obtain ⟨c', hstep, he, hfar⟩ := h
    obtain ⟨t, ht, hr, -, u, hu, hnear⟩ := hsends .go c' hstep _ _ _ _ _ _ he
    exact hfar t ht hr u hu hnear
  constructor
  · intro h
    obtain ⟨c, hc, hcheck⟩ := (ticks (Yard.setup false [])).exists_reach
      (fun _ a => a.With Callback.Steady)
      (fun c => decide (∃ c' ∈ c.step .go, .pathRequest "libi" "r1" "r1-1" 3 0 1 ⟨10, 0⟩ ∈
        c.node.news c'.node.toFleetCore ∧ ∀ t ∈ c.node.tasks, t.robot = "r1" →
          ∀ u ∈ c.node.graph.vertex t.cur, ¬ hypot (3 - u.x) (0 - u.y) < kArrive))
      ([.call (Yard.seen "r1" 3 0), .call (Yard.send "r1" "2")] ++ Yard.taken .timer 2)
      (by decide +kernel)
    exact off c _ (of_decide_eq_true hcheck) (h _ c hc "r1")
  · intro h
    obtain ⟨c, hc, hcheck⟩ := (ticks (Yard.setup false [])).exists_reach
      (fun c a => a.With Callback.Steady ∧ ∀ e ∈ c.enlists a, c.node.Near e.1 (e.2.headD 0))
      (fun c => decide (∃ c' ∈ c.step .go, .pathRequest "libi" "r1" "r1-2" 3 0 1 ⟨10, 0⟩ ∈
        c.node.news c'.node.toFleetCore ∧ ∀ t ∈ c.node.tasks, t.robot = "r1" →
          ∀ u ∈ c.node.graph.vertex t.cur, ¬ hypot (3 - u.x) (0 - u.y) < kArrive))
      ([.call (Yard.seen "r2" 10 0), .call (Yard.send "r2" "1"), .call (Yard.seen "r1" 0 0),
        .call (Yard.send "r1" "2")] ++ Yard.taken .timer 6 ++ .call (Yard.seen "r1" 3 0) ::
        Yard.taken .timer 3) (by decide +kernel)
    exact off c _ (of_decide_eq_true hcheck) (h _ c hc "r1")

end LibiFleet
