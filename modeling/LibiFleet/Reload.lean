import LibiFleet.Bookkeeping

/-!
# A navgraph that is reloaded

The paths of the tasks and the patrol route are vertex numbers of the graph at the
time they were made, and a reload does not look at them. They stay valid where the
new graph has the vertices and the lanes of the old one, and the timer then goes
through.
-/

namespace LibiFleet

open Std (ExtTreeMap)

variable {R : Type}

namespace Navgraph

/-- Every vertex number and every lane of `g` is one of `g'`. -/
structure Extends (g g' : Navgraph R) : Prop where
  size : g.size ≤ g'.size
  lanes : ∀ a b, g.Lane a b → g'.Lane a b

theorem extends_iff {g g' : Navgraph R} : g.Extends g' ↔
    g.size ≤ g'.size ∧ ∀ a ∈ List.range g.vertices.length, ∀ b ∈ g.row a, g'.Lane a b := by
  constructor
  · intro h
    refine ⟨h.size, fun a ha b hb => h.lanes a b ⟨⟨by omega, ?_⟩, hb⟩⟩
    exact Int.ofNat_lt.mpr (List.mem_range.mp ha)
  · rintro ⟨hsize, hlanes⟩
    refine ⟨hsize, ?_⟩
    intro a b h
    obtain ⟨ha, hlt⟩ := h.1
    obtain ⟨n, rfl⟩ := Int.eq_ofNat_of_zero_le ha
    exact hlanes n (List.mem_range.mpr (Int.ofNat_lt.mp hlt)) b h.2

instance (g g' : Navgraph R) : Decidable (g.Extends g') := decidable_of_iff' _ extends_iff

theorem Extends.inRange {g g' : Navgraph R} (h : g.Extends g') {v : Int} (hv : g.InRange v) :
    g'.InRange v := ⟨hv.1, hv.2.trans_le h.size⟩

/-- A path along lanes, or the path of a task that starts at its goal. -/
def Walk (g : Navgraph R) (path : List Int) : Prop := path.IsChain g.Lane ∨ ∃ v, path = [v, v]

theorem Walk.mono {g g' : Navgraph R} (h : g.Extends g') {path : List Int} (hp : g.Walk path) :
    g'.Walk path := hp.imp_left (List.IsChain.imp h.lanes)

end Navgraph

/-- The path of a task can be driven: its entries are vertices, and that of a dispatched task runs
along lanes. -/
structure ActiveTask.Drives (g : Navgraph R) (t : ActiveTask R) : Prop where
  range : ∀ v ∈ t.path, g.InRange v
  lanes : t.patrol = false → g.Walk t.path

theorem ActiveTask.Drives.mono {g g' : Navgraph R} {t : ActiveTask R} (h : t.Drives g)
    (hg : g.Extends g') : t.Drives g' :=
  ⟨fun v hv => hg.inRange (h.range v hv), fun hp => (h.lanes hp).mono hg⟩

/-- The patrol route and the path of every task can be driven. -/
structure Valid (s : FleetNode R) : Prop where
  route : ∀ v ∈ s.patrolRoute, s.graph.InRange v
  tasks : ∀ t ∈ s.tasks, t.Drives s.graph

/-- A node that is valid, and whose tasks are at valid places of their paths. -/
structure Ready (s : FleetNode R) : Prop extends Valid s where
  fits : ∀ t ∈ s.tasks, t.Fits s.patrolRoute

/-- A node that is ready for the graph `g`. -/
structure ReadyOn (g : Navgraph R) (s : FleetNode R) : Prop extends Ready s where
  graph : s.graph = g

/-- A reload only adds to the graph. -/
def Grows (s : FleetNode R) : Callback R → Prop
  | .reload file => ∀ g ∈ (Navgraph.load file).join, s.graph.Extends g
  | _ => True

instance (s : FleetNode R) : DecidablePred (Grows s)
  | .reload file => inferInstanceAs (Decidable (∀ g ∈ (Navgraph.load file).join, s.graph.Extends g))
  | .robotState _ | .submit _ | .timer | .setPlugins .. | .setMode _ | .setBattery _ =>
    inferInstanceAs (Decidable True)

variable [Double R]

section Laps

variable {s : FleetCore R} {r : RobotInfo R}

theorem patrolEntry_some {g : Navgraph R} {n : Nat} (vs : List Int) : ∀ i k bd,
    (∀ v ∈ vs, g.InRange v) → k < n → i + vs.length ≤ n →
    ∃ k' < n, FleetCore.patrolEntry g r i k bd vs = some k' := by
  induction vs with
  | nil => exact fun i k bd _ hk _ => ⟨k, hk, rfl⟩
  | cons v vs ih =>
    intro i k bd hvs hk hi
    rw [List.length_cons] at hi
    obtain ⟨p, hp⟩ := Navgraph.exists_vertex (hvs v List.mem_cons_self)
    have hvs' : ∀ u ∈ vs, g.InRange u := fun u hu => hvs u (List.mem_cons_of_mem _ hu)
    simp only [FleetCore.patrolEntry, hp, Option.bind_eq_bind, Option.bind_some]
    split
    · exact ih _ _ _ hvs' (by omega) (by omega)
    · exact ih _ _ _ hvs' hk (by omega)

/-- The laps of a route of vertices are made of its entries. -/
theorem makePatrolPath_some (hroute : ∀ v ∈ s.patrolRoute, s.graph.InRange v)
    (long : 2 ≤ s.patrolRoute.length) : ∃ path, s.makePatrolPath r (-1) = some path ∧
      ∀ v ∈ path, v ∈ s.patrolRoute := by
  obtain ⟨k, hk, he⟩ := patrolEntry_some (g := s.graph) (r := r) (n := s.patrolRoute.length)
    s.patrolRoute 0 0 (10 ^ 18) hroute (by omega) (by omega)
  have entry (i : Nat) (hi : i < s.patrolRoute.length) :
      s.patrolRoute.getD i 0 ∈ s.patrolRoute := by
    rw [List.getD_eq_getElem?_getD, List.getElem?_eq_getElem hi, Option.getD_some]
    exact List.getElem_mem hi
  refine ⟨FleetCore.lapFrom s.patrolRoute k, ?_, ?_⟩
  · simp [FleetCore.makePatrolPath, he]
  · intro v hv
    rcases List.mem_append.mp hv with hv | hv
    · obtain ⟨i, -, rfl⟩ := List.mem_map.mp hv
      exact entry _ (Nat.mod_lt _ (by omega))
    · rw [List.mem_singleton.mp hv]
      exact entry k hk

end Laps

theorem dijkstra_walk (g : Navgraph R) (start goal avoid : Int) :
    g.Walk (g.dijkstra start goal avoid) := by
  by_cases hne : g.dijkstra start goal avoid = []
  · rw [hne]
    exact .inl .nil
  · exact .inl ((Navgraph.dijkstra_route rfl hne).hops.imp fun _ _ h => h.1)

/-- The path of a submission can be driven. -/
theorem route_walk {g : Navgraph R} {start goal : Int} {path : List Int}
    (route : path = if start = goal then [goal, goal] else g.dijkstra start goal (-1)) :
    g.Walk path := by
  rw [route]
  split
  · exact .inr ⟨goal, rfl⟩
  · exact dijkstra_walk ..

section Effects

variable {s s' : FleetNode R} {c : Conf R} {a : Action R} {robot : String}

theorem Ready.lap (hs : Ready s) (long : 2 ≤ s.patrolRoute.length) {r : RobotInfo R}
    {path : List Int} (made : s.makePatrolPath r (-1) = some path) :
    ∀ v ∈ path, s.graph.InRange v := by
  obtain ⟨path', hpath', hmem⟩ := makePatrolPath_some (s := s.toFleetCore) (r := r) hs.route long
  rw [made] at hpath'
  obtain rfl := Option.some.inj hpath'
  exact fun v hv => hs.route v (hmem v hv)

/-- The paths after an effect are those before it, or made from the graph. -/
theorem Effect.drivable (h : Effect c a robot s s') (hs : Ready s) :
    ∀ t ∈ s'.tasks, t.Drives s.graph := by
  intro t ht
  cases h.stems ht with
  | same here | look here | pass here | grant here | hold _ _ here =>
    exact ⟨(hs.tasks _ here).range, (hs.tasks _ here).lanes⟩
  | dispatch _ _ _ _ inRange route =>
    constructor
    · intro v hv
      simp only [ActiveTask.new, route] at hv
      split at hv
      · rcases List.mem_pair.mp hv with rfl | rfl <;> exact inRange
      · exact Navgraph.dijkstra_range _ _ _ v hv
    · intro _
      exact route_walk route
  | patrol _ _ long lap =>
    refine ⟨hs.lap long lap, ?_⟩
    intro dispatched
    cases dispatched
  | lap here _ patrol made =>
    refine ⟨hs.lap ((hs.fits _ here).2 patrol) made, ?_⟩
    intro dispatched
    exact absurd (dispatched.symm.trans patrol) Bool.false_ne_true
  | reroute cause here _ found =>
    constructor
    · rw [ActiveTask.detoured_path, found]
      exact Navgraph.dijkstra_range _ _ _
    · intro _
      rw [ActiveTask.detoured_path, found]
      exact dijkstra_walk ..

/-- Only a reload replaces the graph, and it replaces nothing else. -/
theorem Effect.graph (h : Effect c a robot s s') : s'.graph = s.graph ∨
    ∃ file, s = c.node ∧ a = .call (.reload file) ∧ Navgraph.load file = some (some s'.graph) := by
  cases h with
  | reload file here called loaded => exact .inr ⟨file, here, called, loaded⟩
  | _ => exact .inl rfl

theorem Effect.ready (h : Effect c a robot s s')
    (grows : ∀ cb, a = .call cb → Grows c.node cb) (hs : Ready s) : Ready s' := by
  have extends' : s.graph.Extends s'.graph := by
    rcases h.graph with hg | ⟨file, rfl, rfl, loaded⟩
    · rw [hg]
      exact ⟨le_refl _, fun _ _ hl => hl⟩
    · exact grows _ rfl _ (by simp [loaded])
  refine ⟨⟨?_, ?_⟩, ?_⟩
  · intro v hv
    rw [h.patrolRoute_eq] at hv
    exact extends'.inRange (hs.route v hv)
  · intro t ht
    exact (h.drivable hs t ht).mono extends'
  · rw [h.patrolRoute_eq]
    exact h.fits hs.fits

end Effects

section Timer

variable {g : Navgraph R}

/-- An effect of the timer. -/
theorem Effects.ready {c : Conf R} {s s' : FleetNode R} (h : Effects c .go s s')
    (hs : ReadyOn g s) : ReadyOn g s' := by
  apply h.keeps _ hs
  intro robot s s' he ht
  have hready := he.ready (by simp) ht.toReady
  have hgraph : s'.graph = s.graph := by
    rcases he.graph with hgraph | ⟨file, -, hcall, -⟩
    · exact hgraph
    · cases hcall
  exact ⟨hready, hgraph.trans ht.graph⟩

theorem patrolStep_some {s : FleetNode R} (hs : ReadyOn g s) (long : 2 ≤ s.patrolRoute.length)
    (key : String) : ∃ s', s.patrolStep key = some s' := by
  unfold FleetNode.patrolStep
  dsimp only
  split
  · exact ⟨_, rfl⟩
  split
  · exact ⟨_, rfl⟩
  obtain ⟨path, hpath, -⟩ :=
    makePatrolPath_some (s := s.toFleetCore) (r := s.robot key) hs.route long
  exact ⟨_, Option.bind_eq_some_iff.mpr ⟨path, hpath, rfl⟩⟩

theorem patrols_some (keys : List String) : ∀ {s : FleetNode R}, ReadyOn g s →
    (∀ key ∈ keys, key ∈ s.robots ∧ 2 ≤ s.patrolRoute.length) →
    ∃ s', keys.foldlM FleetNode.patrolStep s = some s' ∧ ReadyOn g s' := by
  induction keys with
  | nil =>
    intro s hs _
    exact ⟨s, rfl, hs⟩
  | cons key keys ih =>
    intro s hs hkeys
    obtain ⟨known, long⟩ := hkeys key List.mem_cons_self
    obtain ⟨s1, h1⟩ := patrolStep_some hs long key
    obtain ⟨hroute, hmem⟩ := patrolStep_keeps h1
    have heffects : Effects (.patrols s (key :: keys)) .go s s1 := patrolStep_effects known long h1
    have hs1 := heffects.ready hs
    obtain ⟨s', hs', hready⟩ := ih hs1 fun k hk =>
      ⟨hmem k (hkeys k (List.mem_cons_of_mem _ hk)).1, hroute ▸ long⟩
    exact ⟨s', by rw [List.foldlM_cons, h1]; exact hs', hready⟩

variable {s : FleetCore R} {t : ActiveTask R} {kept todo rest : List (ActiveTask R)}

omit [Double R] in
/-- The vertex that the first task heads for. -/
theorem Ready.next (hs : Ready { s with tasks := t :: rest }) :
    ∃ p, s.graph.vertex t.next = some p := by
  refine Navgraph.exists_vertex ((hs.tasks t List.mem_cons_self).range _ ?_)
  obtain ⟨-, hlt⟩ := (hs.fits t List.mem_cons_self).1
  rw [ActiveTask.next, List.getD_eq_getElem?_getD, List.getElem?_eq_getElem hlt, Option.getD_some]
  exact List.getElem_mem hlt

theorem arrive_some (hroute : ∀ v ∈ s.patrolRoute, s.graph.InRange v)
    (long : t.patrol = true → 2 ≤ s.patrolRoute.length) : ∃ out, s.arrive t = some out := by
  unfold FleetCore.arrive
  dsimp only
  split
  · split
    · rename_i patrol
      obtain ⟨path, hpath, -⟩ := makePatrolPath_some (s := s.emit (.arrival t.robot t.next))
        (r := s.robot t.robot) hroute (long patrol)
      exact ⟨_, Option.bind_eq_some_iff.mpr ⟨path, hpath, rfl⟩⟩
    · exact ⟨_, rfl⟩
  · exact ⟨_, rfl⟩

theorem settle_some (hs : Ready { s with tasks := t :: rest }) :
    ∃ out, s.settle t = some out := by
  obtain ⟨p, hp⟩ := hs.next
  have hp' : (s.touch t.robot).graph.vertex t.next = some p := hp
  unfold FleetCore.settle
  simp only [hp', Option.bind_eq_bind, Option.bind_some]
  split
  · exact ⟨_, rfl⟩
  split
  · exact arrive_some hs.route (hs.fits t List.mem_cons_self).2
  · exact ⟨_, rfl⟩

theorem onGrant_some {p : Vertex R} (hp : s.graph.vertex t.next = some p) :
    ∃ out, s.onGrant t = some out := by
  unfold FleetCore.onGrant
  dsimp only
  split
  · exact ⟨_, Option.bind_eq_some_iff.mpr ⟨p, hp, rfl⟩⟩
  · exact ⟨_, Option.bind_eq_some_iff.mpr ⟨p, hp, rfl⟩⟩

theorem request_some (hs : Ready { s with tasks := t :: rest }) :
    ∃ out, s.request t = some out := by
  obtain ⟨p, hp⟩ := hs.next
  unfold FleetCore.request
  dsimp only
  split
  · exact onGrant_some (s := (s.ask t).2) hp
  · exact ⟨_, rfl⟩
  · exact ⟨_, rfl⟩

theorem taskStep_some (hs : ReadyOn g { s with tasks := t :: (todo ++ kept) }) :
    ∃ s' t', s.taskStep t = some (s', t') ∧
      ReadyOn g { s' with tasks := todo ++ (kept ++ t'.toList) } := by
  obtain ⟨⟨s1, t1⟩, h1⟩ := settle_some hs.toReady
  have hsettle : Effects (.looping s kept (t :: todo)) .go _ _ := settle_effects h1
  have hs1 := hsettle.ready hs
  cases t1 with
  | none =>
    refine ⟨s1, none, Option.bind_eq_some_iff.mpr ⟨_, h1, rfl⟩, ?_⟩
    simpa using hs1
  | some t1 =>
    by_cases moving : t1.moving = true
    · refine ⟨s1, some t1, Option.bind_eq_some_iff.mpr ⟨_, h1, by simp [moving]⟩, ?_⟩
      have hdrive : Effects (.looping s kept (t :: todo)) .go
          { s1 with tasks := t1 :: (todo ++ kept) } _ := .one (.drive rfl moving)
      simpa using hdrive.ready hs1
    · obtain ⟨⟨s2, t2⟩, h2⟩ := request_some hs1.toReady
      refine ⟨s2, some t2, Option.bind_eq_some_iff.mpr ⟨_, h1, ?_⟩, ?_⟩
      · simp [moving, h2]
      · have hrequest : Effects (.asking s1 kept t1 todo) .go _ _ :=
          request_effects (by simpa using moving) h2
        simpa using hrequest.ready hs1

theorem taskLoop_some (todo : List (ActiveTask R)) :
    ∀ {s : FleetCore R} {kept : List (ActiveTask R)}, ReadyOn g { s with tasks := todo ++ kept } →
    ∃ s' tasks, s.taskLoop kept todo = some (s', tasks) ∧ ReadyOn g { s' with tasks } := by
  induction todo with
  | nil =>
    intro s kept hs
    exact ⟨s, kept, rfl, hs⟩
  | cons t todo ih =>
    intro s kept hs
    obtain ⟨s1, t1, h1, hs1⟩ := taskStep_some hs
    obtain ⟨s', tasks, h', hs'⟩ := ih hs1
    exact ⟨s', tasks, Option.bind_eq_some_iff.mpr ⟨_, h1, h'⟩, hs'⟩

omit [Double R] in
theorem publish_some {s : FleetNode R} (hs : ReadyOn g s) :
    ∃ s', s.publish = some s' ∧ ReadyOn g s' := by
  have hremaining (t : ActiveTask R) (ht : t ∈ s.tasks) : (s.remaining t).isSome := by
    apply mapM_isSome.mpr
    intro v hv
    exact Navgraph.vertex_isSome.mpr ((hs.tasks t ht).range v (List.mem_of_mem_drop hv))
  have hall : (s.tasks.mapM fun t => (s.remaining t).map (t.robot, ·)).isSome := by
    apply mapM_isSome.mpr
    intro t ht
    rw [Option.isSome_map]
    exact hremaining t ht
  obtain ⟨routes, hroutes⟩ := Option.isSome_iff_exists.mp hall
  exact ⟨_, Option.bind_eq_some_iff.mpr ⟨routes, hroutes, rfl⟩,
    ⟨⟨hs.route, hs.tasks⟩, hs.fits⟩, hs.graph⟩

/-- A ready node gets through the timer, and is ready after it. -/
theorem onTimer_some {s : FleetNode R} (hs : ReadyOn g s) :
    ∃ s', s.onTimer = some s' ∧ ReadyOn g s' := by
  obtain ⟨s1, h1, hs1⟩ := patrols_some s.patrolKeys hs fun key hkey => by
    unfold FleetNode.patrolKeys at hkey
    split at hkey
    · exact ⟨ExtTreeMap.mem_keys.mp hkey, ‹_›⟩
    · cases hkey
  have hloop : ReadyOn g { s1 with tasks := s1.tasks ++ [] } := by simpa using hs1
  obtain ⟨core, tasks, h2, hs2⟩ := taskLoop_some s1.tasks hloop
  obtain ⟨s', h3, hs3⟩ := publish_some hs2
  exact ⟨s', Option.bind_eq_some_iff.mpr ⟨_, h1, Option.bind_eq_some_iff.mpr ⟨_, h2, h3⟩⟩, hs3⟩

end Timer

/-! ## Over whole runs -/

theorem ready_start {p : Setup R} (hp : ∀ v ∈ p.patrolRoute, p.graph.InRange v) :
    Ready (FleetNode.start p) :=
  ⟨⟨hp, by simp [FleetNode.start]⟩, by simp [FleetNode.start]⟩

theorem ready_step {s s' : FleetNode R} {cb : Callback R} (grows : Grows s cb)
    (h : s.handle cb = some s') (hs : Ready s) : Ready s' := by
  by_cases hcb : cb = .timer
  · subst hcb
    obtain ⟨s1, h1, hs1⟩ := onTimer_some ⟨hs, rfl⟩
    rw [show s.handle .timer = some s1 from h1] at h
    exact Option.some.inj h ▸ hs1.toReady
  · refine (call_effects hcb h).keeps (fun _ _ _ he ht => he.ready ?_ ht) hs
    intro cb' he
    cases he
    exact grows

theorem reach_ready {p : Setup R} (hp : ∀ v ∈ p.patrolRoute, p.graph.InRange v) {s : FleetNode R}
    (hs : (fleet p).Reach Grows s) : Ready s :=
  hs.invariant (P := Ready) (ready_start hp) fun _ _ _ grows h => ready_step grows h

omit [Double R] in
/-- At a valid place of a path along lanes a task is on a lane, or stays where it is. -/
theorem Navgraph.Walk.lane {g : Navgraph R} {t : ActiveTask R} (h : g.Walk t.path)
    (placed : t.Placed) : g.Lane t.cur t.next ∨ t.cur = t.next := by
  obtain ⟨hidx, hlt⟩ := placed
  obtain ⟨i, hi⟩ : ∃ i, t.idx = i + 1 := ⟨t.idx - 1, by omega⟩
  unfold ActiveTask.cur ActiveTask.next
  rw [hi] at hlt ⊢
  rcases h with hchain | ⟨v, hpath⟩
  · left
    have hlane := hchain.getElem i hlt
    simpa [List.getD_eq_getElem?_getD, hlt, Nat.lt_of_succ_lt hlt] using hlane
  · right
    have hlen : i + 1 < 2 := by simpa [hpath] using hlt
    obtain rfl : i = 0 := by omega
    rw [hpath]
    rfl

/-- In runs whose reloads only add to the graph a reload leaves every task valid. The timer then
goes through, and drives dispatched tasks along lanes of the new graph. -/
theorem reload_keeps_tasks {p : Setup R} (hp : ∀ v ∈ p.patrolRoute, p.graph.InRange v)
    {s : FleetNode R} (hs : (fleet p).Reach Grows s) {file : NavFile R} {g : Navgraph R}
    (loaded : Navgraph.load file = some (some g)) (grows : s.graph.Extends g) :
    ∃ s' res, s.onReload file = some (s', res) ∧ s'.graph = g ∧ Valid s' ∧
      ∃ s'', s'.onTimer = some s'' ∧ s''.graph = g ∧ Valid s'' ∧
        ∀ t ∈ s''.tasks, t.moving = true → t.patrol = false →
          g.Lane t.cur t.next ∨ t.cur = t.next := by
  have hreload : s.onReload file =
      some ({ s with graph := g }, ⟨true, "reloaded " ++ toString g.size ++ " vertices"⟩) := by
    rw [FleetNode.onReload, loaded]
    rfl
  have hgrows : Grows s (.reload file) := by
    intro g' hg'
    rw [loaded] at hg'
    cases hg'
    exact grows
  have hs' : Ready { s with graph := g } :=
    ready_step hgrows (by simp [FleetNode.handle, hreload]) (reach_ready hp hs)
  obtain ⟨s'', htimer, hs''⟩ := onTimer_some (g := g) ⟨hs', rfl⟩
  refine ⟨_, _, hreload, rfl, hs'.toValid, s'', htimer, hs''.graph, hs''.toValid, ?_⟩
  intro t ht _ dispatched
  have hlane := ((hs''.tasks t ht).lanes dispatched).lane (hs''.fits t ht).1
  rwa [hs''.graph] at hlane

namespace Yard

/-- The file of the yard with a vertex and a lane more. -/
def extended : NavFile ℚ :=
  .level ([(0, 0), (10, 0), (20, 0), (0, -10), (20, -10), (10, 10), (30, 0)].map some)
    ([(0, 1), (1, 0), (1, 2), (2, 1), (0, 3), (3, 0), (3, 4), (4, 3), (4, 2), (2, 4), (1, 5),
      (5, 1), (2, 6), (6, 2)].map some)

end Yard

/-- The yard grows while a robot is on its way. -/
theorem reload_keeps_tasks_yard : ∃ s : FleetNode ℚ,
    (fleet (Yard.setup false [0, 1, 2])).Reach Grows s ∧
    (s.tasks.map fun t => (t.robot, t.path)) = [("r1", [0, 1, 2])] ∧
    ∃ s' res, s.onReload Yard.extended = some (s', res) ∧ s'.graph.size = 7 ∧ Valid s' ∧
      ∃ s'', s'.onTimer = some s'' ∧ Valid s'' := by
  obtain ⟨s, hs, hcheck⟩ := (fleet (Yard.setup false [0, 1, 2])).exists_reach Grows
    (fun s => decide ((s.tasks.map fun t => (t.robot, t.path)) = [("r1", [0, 1, 2])] ∧
      ∃ g ∈ (Navgraph.load Yard.extended).join, s.graph.Extends g ∧ g.size = 7))
    [Yard.seen "r1" 0 0, Yard.send "r1" "2", .timer]
    (by decide +kernel)
  obtain ⟨htasks, g, hg, grows, hsize⟩ := of_decide_eq_true hcheck
  have loaded : Navgraph.load Yard.extended = some (some g) := by
    rcases h : Navgraph.load Yard.extended with _ | _ | g'
    · simp [h] at hg
    · simp [h] at hg
    · simpa [h] using hg
  obtain ⟨s', res, hreload, hgraph, hvalid, s'', htimer, -, hvalid', -⟩ :=
    reload_keeps_tasks (by decide) hs loaded grows
  exact ⟨s, hs, htasks, s', res, hreload, hgraph ▸ hsize, hvalid, s'', htimer, hvalid'⟩

/-- A graph with one vertex, loaded while a robot is on its way from 0 to 2, stops the timer with
an exception. And a patrol route that the parameters name is never compared with the graph. -/
theorem reload_breaks_tasks :
    (¬ ∀ (p : Setup ℚ) (s : FleetNode ℚ), (fleet p).Reach (fun _ _ => True) s →
      ∀ (file : NavFile ℚ) (g : Navgraph ℚ), Navgraph.load file = some (some g) →
        ∃ s' res, s.onReload file = some (s', res) ∧ Valid s' ∧ ∃ s'', s'.onTimer = some s'') ∧
    ¬ ∀ (p : Setup ℚ) (s : FleetNode ℚ), (fleet p).Reach Grows s →
      ∀ (file : NavFile ℚ) (g : Navgraph ℚ), Navgraph.load file = some (some g) →
        s.graph.Extends g → ∃ s' res, s.onReload file = some (s', res) ∧ Valid s' := by
  constructor
  · intro h
    obtain ⟨s, hs, hcheck⟩ := (fleet (Yard.setup false [])).exists_reach (fun _ _ => True)
      (fun s => decide (((s.onReload (.level [some (0, 0)] [])).bind (·.1.onTimer)).isNone))
      [Yard.seen "r1" 0 0, Yard.send "r1" "2", .timer]
      (by decide +kernel)
    obtain ⟨s', res, hreload, -, s'', htimer⟩ := h _ s hs (.level [some (0, 0)] []) _ rfl
    simp [hreload, htimer] at hcheck
  · intro h
    obtain ⟨s', res, hreload, hvalid⟩ := h (Yard.setup false [8]) _ .start Yard.extended _ rfl
      (by decide +kernel)
    obtain rfl := (Prod.mk.inj (Option.some.inj hreload)).1
    exact absurd (hvalid.route 8 (by decide)) (by decide +kernel)

end LibiFleet
