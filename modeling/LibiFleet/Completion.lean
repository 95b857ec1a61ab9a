import LibiFleet.Assignment
import LibiFleet.Reload

/-!
# A completed task has reached its goal

The goal of a task is kept only as the last vertex of its path, which every detour
replaces. It stays the goal of the request that was accepted, and a robot whose task is
COMPLETED is at it, as far as its messages tell.
-/

namespace LibiFleet

open Std (ExtTreeMap)

variable {R : Type}

/-- The place in the last state message of the robot. -/
def lastSeen (k : String) : Past R → Option (R × R)
  | [] => none
  | (_, .call (.robotState msg)) :: past =>
    if msg.name = k then some (msg.x, msg.y) else lastSeen k past
  | _ :: past => lastSeen k past

variable [Double R]

/-- The place of the robot: the origin as long as no message has told another. -/
def position (k : String) (past : Past R) : R × R := (lastSeen k past).getD (0, 0)

variable {p : Setup R} {c c' : Conf R} {a : Action R} {robot : String} {s s' : FleetNode R}

/-- Only a state message moves a robot. -/
theorem Effect.place (h : Effect c a robot s s') {k : String}
    (unseen : a.sights k = false) :
    (s'.robot k).x = (s.robot k).x ∧ (s'.robot k).y = (s.robot k).y := by
  rcases h.readings k with ⟨msg, called, name, -⟩ | ⟨hx, hy, -⟩
  · have seen := Action.sights_iff.mpr ⟨msg, called, name⟩
    rw [unseen] at seen
    cases seen
  · exact ⟨hx, hy⟩

omit [Double R] in
theorem lastSeen_unseen {k : String} (unseen : a.sights k = false) (past : Past R) :
    lastSeen k ((c, a) :: past) = lastSeen k past := by
  cases a with
  | go => rfl
  | call cb =>
    cases cb with
    | robotState msg =>
      have hk : msg.name ≠ k := by simpa [Action.sights] using unseen
      simp [lastSeen, hk]
    | submit | timer | setPlugins | reload | setMode | setBattery => rfl

/-- A step without a message of the robot leaves it where it is. -/
theorem step_place (h : c.step a = some c') (hs : c.Sound) {k : String}
    (unseen : a.sights k = false) :
    (c'.node.robot k).x = (c.node.robot k).x ∧ (c'.node.robot k).y = (c.node.robot k).y := by
  refine (step_effects hs h).keeps (P := fun s =>
    (s.robot k).x = (c.node.robot k).x ∧ (s.robot k).y = (c.node.robot k).y) ?_ ⟨rfl, rfl⟩
  rintro robot s s' he ⟨hx, hy⟩
  obtain ⟨hx', hy'⟩ := he.place unseen
  exact ⟨hx'.trans hx, hy'.trans hy⟩

theorem place_step (h : c.step a = some c') (hs : c.Sound) {past : Past R} {k : String}
    (hpast : position k past = ((c.node.robot k).x, (c.node.robot k).y)) :
    position k ((c, a) :: past) = ((c'.node.robot k).x, (c'.node.robot k).y) := by
  by_cases unseen : a.sights k = false
  · obtain ⟨hx, hy⟩ := step_place h hs unseen
    rw [position, lastSeen_unseen unseen, ← position, hpast, hx, hy]
  · obtain ⟨msg, rfl, rfl⟩ := Action.sights_iff.mp (Bool.eq_true_of_not_eq_false unseen)
    cases c with
    | idle s =>
      obtain rfl := Option.some.inj h
      simp [position, lastSeen, Conf.node, FleetNode.onRobotState, FleetCore.robot]
    | patrols | looping | asking => cases h

/-- `robots_` has the robots where their messages have put them. -/
theorem reach_position {ok : Conf R × Past R → Action R → Prop} {m : Conf R × Past R}
    (hm : (ticks p).traced.Reach ok m) (k : String) :
    position k m.2 = ((m.1.node.robot k).x, (m.1.node.robot k).y) := by
  refine (hm.assuming fun _ => traced_sound).invariant
    (P := fun m => position k m.2 = ((m.1.node.robot k).x, (m.1.node.robot k).y)) ?_ ?_
  · simp [ticks, Machine.traced, position, lastSeen, FleetNode.start, Conf.node, FleetCore.robot,
      RobotInfo.new]
  · rintro ⟨c, past⟩ a ⟨c', past'⟩ ⟨-, hsound⟩ hstep hP
    obtain ⟨hstep, rfl⟩ := Machine.traced_step hstep
    exact place_step hstep hsound hP

/-- The task was made for a request that was accepted, and its path leads to the goal of it. -/
def Serves (past : Past R) (t : ActiveTask R) : Prop :=
  ∃ s req s₁, (.idle s, .call (.submit req)) ∈ past ∧
    s.onSubmit req = some (s₁, ⟨true, t.id, ""⟩) ∧ s₁.taskSeq = t.startSeq ∧
    t.path.getLast? = some (FleetNode.goalOf req)

theorem Serves.mono {past past' : Past R} {t : ActiveTask R} (h : Serves past t)
    (hsub : ∀ e ∈ past, e ∈ past') : Serves past' t := by
  obtain ⟨s, req, s₁, hmem, hrest⟩ := h
  exact ⟨s, req, s₁, hsub _ hmem, hrest⟩

/-- The same request is served by a task whose path ends at the same vertex. -/
theorem Serves.same {past : Past R} {t u : ActiveTask R} (h : Serves past t) (hid : u.id = t.id)
    (hseq : u.startSeq = t.startSeq) (hlast : u.path.getLast? = t.path.getLast?) :
    Serves past u := by
  obtain ⟨s, req, s₁, hmem, hsub, hseq₁, hgoal⟩ := h
  exact ⟨s, req, s₁, hmem, hid ▸ hsub, hseq₁.trans hseq.symm, hlast.trans hgoal⟩

/-- A path from the nearest vertex to the goal, as a submission makes it. -/
theorem route_last {g : Navgraph R} {start goal : Int} {path : List Int}
    (route : path = if start = goal then [goal, goal] else g.dijkstra start goal (-1))
    (long : 2 ≤ path.length) : path.getLast? = some goal := by
  split at route
  · rw [route]
    rfl
  · have hne : path ≠ [] := by
      intro hnil
      simp [hnil] at long
    exact (Navgraph.dijkstra_route route.symm hne).last

theorem dispatches_last {req : SubmitRequest} {path : List Int}
    (h : s.dispatches req = some (robot, path)) :
    path.getLast? = some (FleetNode.goalOf req) := by
  unfold FleetNode.dispatches at h
  split at h
  · cases h
  split at h
  · split at h
    · rename_i hroute
      obtain ⟨-, rfl⟩ := Prod.mk.inj (Option.some.inj h)
      obtain ⟨long, route⟩ := checkRoute_ok hroute
      exact route_last route long
    · cases h
  · cases h

/-- A detour of a dispatched task ends where the path did. -/
theorem detour_last {t : ActiveTask R} {path : List Int} {cause : Detour}
    (dispatched : t.patrol = false) (placed : t.Placed)
    (found : path = s.detour t (if cause = .stopped then t.back else s.detourGoal t))
    (long : 2 ≤ path.length) : path.getLast? = t.path.getLast? := by
  have hgoal : (if cause = .stopped then t.back else s.detourGoal t) = t.back := by
    simp [FleetCore.detourGoal, dispatched]
  rw [hgoal] at found
  have hne : path ≠ [] := by
    intro hnil
    simp [hnil] at long
  rw [(Navgraph.dijkstra_route found.symm hne).last, ActiveTask.back]
  have hpath : t.path ≠ [] := by
    intro hnil
    have := placed.2
    simp [hnil] at this
  rw [List.getLast?_eq_some_getLast hpath, List.getLastD_eq_getLast?,
    List.getLast?_eq_some_getLast hpath]
  rfl

/-- Every dispatched task drives along lanes to the goal of a request that was accepted. -/
structure Delivers (s : FleetNode R) (past : Past R) : Prop where
  fits : ∀ t ∈ s.tasks, t.Fits s.patrolRoute
  lanes : ∀ t ∈ s.tasks, t.patrol = false → s.graph.Walk t.path
  serves : ∀ t ∈ s.tasks, t.patrol = false → Serves past t

theorem Effect.lanes (h : Effect c a robot s s') (steady : a.With Callback.Steady)
    (hs : ∀ t ∈ s.tasks, t.patrol = false → s.graph.Walk t.path) :
    ∀ t ∈ s'.tasks, t.patrol = false → s'.graph.Walk t.path := by
  have hgraph : s'.graph = s.graph := by
    obtain hsame | ⟨file, -, rfl, -⟩ := h.graph
    · exact hsame
    · exact False.elim steady
  rw [hgraph]
  intro t ht dispatched
  cases h.stems ht with
  | same here | look here | pass here | grant here | hold _ _ here =>
    have hold := hs _ here dispatched
    exact hold
  | dispatch _ _ _ _ _ route => exact route_walk route
  | patrol => cases dispatched
  | lap here _ patrol =>
    exact absurd (dispatched.symm.trans patrol) Bool.false_ne_true
  | reroute cause here _ found =>
    rw [ActiveTask.detoured_path, found]
    exact dijkstra_walk ..

theorem Effect.serves {past : Past R} (h : Effect c a robot s s') (hpast : (c, a) ∈ past)
    (hs : Delivers s past) : ∀ t ∈ s'.tasks, t.patrol = false → Serves past t := by
  intro t ht dispatched
  cases h.stems ht with
  | same here => exact hs.serves _ here dispatched
  | look here | pass here | grant here | hold _ _ here =>
    have hold := hs.serves _ here dispatched
    exact hold.same rfl rfl rfl
  | dispatch _ _ idler start _ _ _ called answer final =>
    subst idler called
    exact ⟨_, _, _, hpast, answer, final, dispatches_last start⟩
  | patrol => cases dispatched
  | lap here _ patrol =>
    exact absurd (dispatched.symm.trans patrol) Bool.false_ne_true
  | reroute cause here _ found long =>
    rw [ActiveTask.detoured_patrol] at dispatched
    refine (hs.serves _ here dispatched).same (ActiveTask.detoured_id ..)
      (ActiveTask.detoured_startSeq ..) ?_
    rw [ActiveTask.detoured_path]
    exact detour_last dispatched (hs.fits _ here).1 found long

theorem Effect.delivers {past : Past R} (h : Effect c a robot s s')
    (steady : a.With Callback.Steady) (hpast : (c, a) ∈ past) (hs : Delivers s past) :
    Delivers s' past where
  fits := by
    rw [h.patrolRoute_eq]
    exact h.fits hs.fits
  lanes := h.lanes steady hs.lanes
  serves := h.serves hpast hs

theorem reach_delivers {m : Conf R × Past R}
    (hm : (ticks p).traced.Reach (fun _ a => a.With Callback.Steady) m) :
    Delivers m.1.node m.2 := by
  refine reach_remembers (P := Delivers) (fun _ _ h => h.mono fun _ => Callback.Steady.offers)
    ?_ ?_ ?_ hm
  · exact ⟨by simp [FleetNode.start], by simp [FleetNode.start], by simp [FleetNode.start]⟩
  · intro s past e hs
    exact ⟨hs.fits, hs.lanes,
      fun t ht hp => (hs.serves t ht hp).mono fun _ => List.mem_cons_of_mem _⟩
  · exact fun c past a robot s s' steady he _ _ hs => he.delivers steady List.mem_cons_self hs

/-- COMPLETED is published by the timer, for a dispatched task whose robot is at the last vertex. -/
theorem Effect.completes (h : Effect c a robot s s') {id r : String}
    (he : .taskState id "COMPLETED" r ∈ s.news s'.toFleetCore) : a = .go ∧
      ∃ t ∈ s.tasks, t.id = id ∧ t.robot = r ∧ t.patrol = false ∧ t.path.length ≤ t.idx + 1 ∧
        s.Near r t.next := by
  generalize hlabel : "COMPLETED" = label at he
  cases h.adds he with
  | start starts => simp [← hlabel] at starts
  | wait | fail => simp at hlabel
  | complete here last dispatched near timer =>
    exact ⟨timer, _, here, rfl, rfl, dispatched, last, near⟩
  | report reports => cases reports

omit [Double R] in
theorem next_last {t : ActiveTask R} (placed : t.Placed) (last : t.path.length ≤ t.idx + 1) :
    t.path.getLast? = some t.next := by
  have hidx : t.idx = t.path.length - 1 := by
    have := placed.2
    omega
  rw [List.getLast?_eq_getElem?, ← hidx, ActiveTask.next, List.getD_eq_getElem?_getD,
    List.getElem?_eq_getElem placed.2]
  rfl

/-- What the timer has not changed when it comes to a task. -/
structure Meanwhile (c : Conf R) (s : FleetNode R) : Prop where
  ledger : Ledger s
  graph : s.graph = c.node.graph
  place : ∀ k, (s.robot k).x = (c.node.robot k).x ∧ (s.robot k).y = (c.node.robot k).y
  tasks : ∀ t ∈ s.tasks, t.patrol = false → ∃ u ∈ c.node.tasks, u.Continues t

theorem Effect.meanwhile (h : Effect c .go robot s s') (hs : Meanwhile c s) : Meanwhile c s' where
  ledger := h.ledger trivial hs.ledger
  graph := by
    obtain hg | ⟨file, -, called, -⟩ := h.graph
    · exact hg.trans hs.graph
    · cases called
  place := by
    intro k
    obtain ⟨hx, hy⟩ := h.place (k := k) rfl
    exact ⟨hx.trans (hs.place k).1, hy.trans (hs.place k).2⟩
  tasks := by
    intro t ht dispatched
    obtain ⟨u, hu, same⟩ | ⟨-, -, -, -, hcall⟩ := h.origin hs.ledger ht
    · obtain ⟨v, hv, same'⟩ := hs.tasks u hu (same.patrol ▸ dispatched)
      exact ⟨v, hv, same'.trans same⟩
    · obtain ⟨sub, called⟩ := hcall dispatched
      cases called

/-- Every dispatched task is at a valid place of a path along lanes to the goal of a request that
was accepted, whatever detours it has taken; and COMPLETED is published for a task only when its
robot is closer than `kArrive` to that goal. -/
theorem completed_at_goal {m : Conf R × Past R}
    (hm : (ticks p).traced.Reach (fun _ a => a.With Callback.Steady) m) :
    (∀ t ∈ m.1.node.tasks, t.patrol = false → 1 ≤ t.idx ∧ t.idx < t.path.length ∧
      m.1.node.graph.Walk t.path ∧ Serves m.2 t) ∧
    ∀ a c' id r, (ticks p).step m.1 a = some c' →
      .taskState id "COMPLETED" r ∈ m.1.node.news c'.node.toFleetCore →
      ∃ t ∈ m.1.node.tasks, t.id = id ∧ t.robot = r ∧ t.patrol = false ∧
        ∃ s req s₁ v, (.idle s, .call (.submit req)) ∈ m.2 ∧
          s.onSubmit req = some (s₁, ⟨true, id, ""⟩) ∧ s₁.taskSeq = t.startSeq ∧
          m.1.node.graph.vertex (FleetNode.goalOf req) = some v ∧
          hypot ((position r m.2).1 - v.x) ((position r m.2).2 - v.y) < kArrive := by
  have offers (m : Conf R × Past R) (a : Action R) (h : a.With Callback.Steady) :
      a.With Callback.Offers := h.mono fun _ => Callback.Steady.offers
  have hdelivers := reach_delivers hm
  have hl : Ledger m.1.node := traced_ledger offers hm
  constructor
  · intro t ht dispatched
    obtain ⟨hidx, hlt⟩ := (hdelivers.fits t ht).1
    exact ⟨hidx, hlt, hdelivers.lanes t ht dispatched, hdelivers.serves t ht dispatched⟩
  · intro a c' id r hstep he
    have heffects := step_effects (traced_sound hm) hstep
    obtain ⟨_, _, _, hcomplete, -, hnews⟩ :=
      heffects.exists_news (I := fun _ => True) (by simp) trivial he
    obtain ⟨rfl, -⟩ := hcomplete.completes hnews
    -- the state in which the task is completed still knows it by its request
    obtain ⟨_, s, s', hcomplete, ⟨hmean, hdel⟩, hnews⟩ :=
      heffects.exists_news (I := fun s => Meanwhile m.1 s ∧ Delivers s ((m.1, .go) :: m.2))
        (fun _ _ _ h hI => ⟨h.meanwhile hI.1, h.delivers trivial List.mem_cons_self hI.2⟩)
        ⟨⟨hl, rfl, fun _ => ⟨rfl, rfl⟩, fun t ht _ => ⟨t, ht, .refl t⟩⟩,
          ⟨hdelivers.fits, hdelivers.lanes, fun t ht hp =>
            (hdelivers.serves t ht hp).mono fun _ => List.mem_cons_of_mem _⟩⟩ he
    obtain ⟨-, t, ht, rfl, rfl, dispatched, last, v, hv, hnear⟩ := hcomplete.completes hnews
    obtain ⟨u, hu, same⟩ := hmean.tasks t ht dispatched
    obtain ⟨s₀, req, s₁, hmem, hsub, hseq, hgoal⟩ := hdel.serves t ht dispatched
    refine ⟨u, hu, same.id.symm, same.robot.symm, same.patrol ▸ dispatched, s₀, req, s₁, v, ?_,
      hsub, hseq.trans same.startSeq, ?_, ?_⟩
    · rcases List.mem_cons.mp hmem with heq | hmem
      · cases congrArg Prod.snd heq
      · exact hmem
    · rw [next_last (hdel.fits t ht).1 last, Option.some.injEq] at hgoal
      rw [← hgoal, ← hmean.graph, hv]
    · rw [reach_position hm t.robot, ← (hmean.place t.robot).1, ← (hmean.place t.robot).2]
      exact hnear

theorem completed_at_goal_one : ∃ m : Conf ℚ × Past ℚ,
    (ticks (Yard.setup false [])).traced.Reach (fun _ a => a.With Callback.Steady) m ∧
    ∃ t ∈ m.1.node.tasks, t.id = "T-1" ∧ t.robot = "r1" ∧ 1 ≤ t.idx ∧ t.idx < t.path.length ∧
      ∃ s req s₁ v, (.idle s, .call (.submit req)) ∈ m.2 ∧
        s.onSubmit req = some (s₁, ⟨true, "T-1", ""⟩) ∧
        m.1.node.graph.vertex (FleetNode.goalOf req) = some v ∧
        hypot ((position "r1" m.2).1 - v.x) ((position "r1" m.2).2 - v.y) < kArrive := by
  obtain ⟨m, hm, hcheck⟩ := (ticks (Yard.setup false [])).traced.exists_reach
    (fun _ a => a.With Callback.Steady)
    (fun m => decide (∃ c' ∈ m.1.step .go, .taskState "T-1" "COMPLETED" "r1" ∈
      m.1.node.news c'.node.toFleetCore))
    ([.call (Yard.seen "r1" 0 0), .call (Yard.send "r1" "1")] ++ Yard.taken .timer 4 ++
      .call (Yard.seen "r1" 10 0) :: Yard.taken .timer 1)
    (by decide +kernel)
  obtain ⟨c', hstep, he⟩ := of_decide_eq_true hcheck
  obtain ⟨hall, hdone⟩ := completed_at_goal hm
  obtain ⟨t, ht, hid, hr, dispatched, s, req, s₁, v, hmem, hsub, -, hv, hnear⟩ :=
    hdone .go c' _ _ hstep he
  obtain ⟨hidx, hlt, -⟩ := hall t ht dispatched
  exact ⟨m, hm, t, ht, hid, hr, hidx, hlt, s, req, s₁, v, hmem, hsub, hv, hnear⟩

/-- A robot that is known by its battery alone stands at the origin, and completes a task there
without ever having reported a place. -/
theorem completed_unseen : ¬ ∀ (p : Setup ℚ) (m : Conf ℚ × Past ℚ),
    (ticks p).traced.Reach (fun _ a => a.With Callback.Steady) m →
    ∀ a c' id r, (ticks p).step m.1 a = some c' →
      .taskState id "COMPLETED" r ∈ m.1.node.news c'.node.toFleetCore →
      ∃ s req s₁ v x y, (.idle s, .call (.submit req)) ∈ m.2 ∧
        s.onSubmit req = some (s₁, ⟨true, id, ""⟩) ∧ lastSeen r m.2 = some (x, y) ∧
        m.1.node.graph.vertex (FleetNode.goalOf req) = some v ∧
        hypot (x - v.x) (y - v.y) < kArrive := by
  intro h
  obtain ⟨m, hm, hcheck⟩ := (ticks (Yard.setup false [])).traced.exists_reach
    (fun _ a => a.With Callback.Steady)
    (fun m => decide ((∃ c' ∈ m.1.step .go, .taskState "T-1" "COMPLETED" "r9" ∈
      m.1.node.news c'.node.toFleetCore) ∧ lastSeen "r9" m.2 = none))
    ([.call (.setBattery ⟨"r9", 80⟩), .call (Yard.send "r9" "0")] ++ Yard.taken .timer 4 ++
      Yard.taken .timer 1)
    (by decide +kernel)
  obtain ⟨⟨c', hstep, he⟩, unseen⟩ := of_decide_eq_true hcheck
  obtain ⟨-, -, -, -, x, y, -, -, hseen, -⟩ := h _ m hm .go c' _ _ hstep he
  rw [unseen] at hseen
  cases hseen

end LibiFleet
