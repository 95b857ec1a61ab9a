import LibiFleet.Driving

/-!
# Where a new lap begins

A patrol that has come to the end of its path goes on with a lap that is made anew, from the
vertex of the route that is nearest to where its robot says it is. That is the vertex it has
come to, unless the route has a vertex nearer to the place, or as near and earlier.
-/

namespace LibiFleet

open Std (ExtTreeMap)

section Least

variable {α D : Type} [LinearOrder D]

/-- `k` is the first of the places of the list with the least value. -/
def FirstLeast (f : α → Option D) (l : List α) (k : Nat) : Prop :=
  ∃ a d, l[k]? = some a ∧ f a = some d ∧
    (∀ j < k, ∀ b e, l[j]? = some b → f b = some e → d < e) ∧ ∀ b ∈ l, ∀ e, f b = some e → d ≤ e

theorem FirstLeast.unique {f : α → Option D} {l : List α} {k k' : Nat} (h : FirstLeast f l k)
    (h' : FirstLeast f l k') : k = k' := by
  obtain ⟨a, d, ha, hd, hbefore, hleast⟩ := h
  obtain ⟨a', d', ha', hd', hbefore', hleast'⟩ := h'
  rcases lt_trichotomy k k' with hlt | heq | hlt
  · have hless := hbefore' k hlt a d ha hd
    exact absurd hless (not_lt.mpr (hleast a' (List.mem_of_getElem? ha') d' hd'))
  · exact heq
  · have hless := hbefore k' hlt a' d' ha' hd'
    exact absurd hless (not_lt.mpr (hleast' a (List.mem_of_getElem? ha) d hd))

/-- The place `k` is that one, and `d` is its value. -/
structure LeastAt (f : α → Option D) (l : List α) (k : Nat) (d : D) : Prop where
  value : ∃ a, l[k]? = some a ∧ f a = some d
  first : ∀ j < k, ∀ b e, l[j]? = some b → f b = some e → d < e
  least : ∀ b ∈ l, ∀ e, f b = some e → d ≤ e

namespace LeastAt

variable {f : α → Option D} {l : List α} {a : α} {k : Nat} {d : D}

theorem firstLeast (h : LeastAt f l k d) : FirstLeast f l k := by
  obtain ⟨b, hb, hd⟩ := h.value
  exact ⟨b, d, hb, hd, h.first, h.least⟩

theorem head (ha : f a = some d) (far : ∀ b ∈ l, ∀ e, f b = some e → d ≤ e) :
    LeastAt f (a :: l) 0 d where
  value := ⟨a, rfl, ha⟩
  first := by
    intro j hj
    omega
  least := by
    rw [List.forall_mem_cons]
    refine ⟨?_, far⟩
    intro e he
    exact (Option.some.inj (ha.symm.trans he)).le

theorem cons (h : LeastAt f l k d) (ha : ∀ e, f a = some e → d < e) :
    LeastAt f (a :: l) (k + 1) d where
  value := h.value
  first := by
    intro j hj b e hb he
    cases j with
    | zero =>
      obtain rfl := Option.some.inj hb
      exact ha e he
    | succ j => exact h.first j (by omega) b e hb he
  least := by
    rw [List.forall_mem_cons]
    exact ⟨fun e he => (ha e he).le, h.least⟩

end LeastAt

end Least

variable {R : Type} [Double R]

/-- How far a robot is from a vertex, by its last state message. -/
def Navgraph.away (g : Navgraph R) (r : RobotInfo R) (v : Int) : Option R :=
  (g.vertex v).map fun p => hypot (r.x - p.x) (r.y - p.y)

/-- The loop of `make_patrol_path` finds the first of the nearest vertices, or nothing that is
nearer than what it began with. -/
theorem patrolEntry_least {g : Navgraph R} {r : RobotInfo R} (vs : List Int) : ∀ i k bd k',
    FleetCore.patrolEntry g r i k bd vs = some k' →
      (k' = k ∧ ∀ v ∈ vs, ∀ e, g.away r v = some e → bd ≤ e) ∨
      ∃ j d, k' = i + j ∧ LeastAt (g.away r) vs j d ∧ d < bd := by
  induction vs with
  | nil =>
    intro i k bd k' h
    obtain rfl := Option.some.inj h
    exact .inl ⟨rfl, by simp⟩
  | cons v vs ih =>
    intro i k bd k' h
    obtain ⟨p, hp, h⟩ := Option.bind_eq_some_iff.mp h
    have hv : g.away r v = some (hypot (r.x - p.x) (r.y - p.y)) := by
      rw [Navgraph.away, hp, Option.map_some]
    dsimp only at h
    generalize hypot (r.x - p.x) (r.y - p.y) = dd at h hv
    have here {d e : R} (hd : d < dd) (he : g.away r v = some e) : d < e := by
      obtain rfl := Option.some.inj (hv.symm.trans he)
      exact hd
    split at h
    · rename_i hlt
      obtain ⟨rfl, hfar⟩ | ⟨j, d, rfl, least, near⟩ := ih _ _ _ _ h
      · exact .inr ⟨0, dd, rfl, .head hv hfar, hlt⟩
      · exact .inr ⟨j + 1, d, by omega, least.cons fun e => here near, near.trans hlt⟩
    · rename_i hge
      rw [not_lt] at hge
      obtain ⟨rfl, hfar⟩ | ⟨j, d, rfl, least, near⟩ := ih _ _ _ _ h
      · refine .inl ⟨rfl, ?_⟩
        rw [List.forall_mem_cons]
        refine ⟨?_, hfar⟩
        intro e he
        obtain rfl := Option.some.inj (hv.symm.trans he)
        exact hge
      · have hless : d < dd := near.trans_le hge
        exact .inr ⟨j + 1, d, by omega, least.cons fun e => here hless, near⟩

omit [Double R] in
/-- A lap goes around the route once, and ends where it begins. -/
theorem lapFrom_eq {route : List Int} {k : Nat} {v : Int} (hk : route[k]? = some v) :
    FleetCore.lapFrom route k = route.rotate k ++ [v] := by
  have hround : (List.range route.length).map (fun i => route.getD ((k + i) % route.length) 0) =
      route.rotate k := by
    apply List.ext_getElem?
    intro i
    by_cases hi : i < route.length
    · have hlt : (k + i) % route.length < route.length := Nat.mod_lt _ (by omega)
      rw [List.getElem?_rotate hi, List.getElem?_map, List.getElem?_range hi, Option.map_some,
        List.getD_eq_getElem?_getD, Nat.add_comm i k, List.getElem?_eq_getElem hlt,
        Option.getD_some]
    · rw [List.getElem?_eq_none (by simpa using hi), List.getElem?_eq_none (by simpa using hi)]
  rw [FleetCore.lapFrom, hround, List.getD_eq_getElem?_getD, hk, Option.getD_some]

/-! ## The lap after a lap -/

/-- The path begins at `v`, goes around the route once from a place where the route has `v`, and
comes back to it. -/
def Joins (route : List Int) (v : Int) (path : List Int) : Prop :=
  ∃ k, route[k]? = some v ∧ path = route.rotate k ++ [v]

/-- `v` is the vertex of the route that is nearest to the robot, the first one of several. -/
def FleetCore.NearestStop (s : FleetCore R) (robot : String) (v : Int) : Prop :=
  ∃ k, s.patrolRoute[k]? = some v ∧
    FirstLeast (s.graph.away (s.robot robot)) s.patrolRoute k

section Lap

variable {s : FleetCore R} {robot : String} {v : Int} {path : List Int}

omit [Double R] in
theorem lap_head {route : List Int} {k : Nat} (hv : route[k]? = some v) :
    (route.rotate k ++ [v]).head? = some v := by
  have hlt : k < route.length := (List.getElem?_eq_some_iff.mp hv).1
  rw [List.head?_append, List.head?_rotate hlt, hv, Option.some_or]

/-- A lap goes around the route once, from the nearest vertex if a vertex of the route is near. -/
theorem makePatrolPath_first {r : RobotInfo R} (made : s.makePatrolPath r (-1) = some path)
    (hne : s.patrolRoute ≠ []) : ∃ k w, s.patrolRoute[k]? = some w ∧
      path = s.patrolRoute.rotate k ++ [w] ∧
      ∀ v ∈ s.patrolRoute, ∀ d, s.graph.away r v = some d → d < kArrive →
        FirstLeast (s.graph.away r) s.patrolRoute k := by
  obtain ⟨k, hk, h⟩ := Option.bind_eq_some_iff.mp made
  obtain rfl := Option.some.inj h
  have hreach : (kArrive : R) ≤ 10 ^ 18 := by
    norm_num [kArrive]
  obtain ⟨rfl, hfar⟩ | ⟨j, d, hj, least, -⟩ := patrolEntry_least _ _ _ _ _ hk
  · obtain ⟨w, rest, hroute⟩ := List.exists_cons_of_ne_nil hne
    have hw : s.patrolRoute[0]? = some w := by
      rw [hroute]
      rfl
    refine ⟨0, w, hw, lapFrom_eq hw, ?_⟩
    intro v hv d hd near
    have hle := hfar v hv d hd
    exact absurd (near.trans_le (hreach.trans hle)) (lt_irrefl _)
  · obtain rfl : k = j := by omega
    obtain ⟨w, hw, -⟩ := least.value
    exact ⟨k, w, hw, lapFrom_eq hw, fun _ _ _ _ _ => least.firstLeast⟩

theorem joins_iff (made : s.makePatrolPath (s.robot robot) (-1) = some path)
    (near : s.Near robot v) : Joins s.patrolRoute v path ↔ s.NearestStop robot v := by
  by_cases hne : s.patrolRoute = []
  · simp [Joins, FleetCore.NearestStop, hne]
  obtain ⟨k, w, hw, rfl, hfirst⟩ := makePatrolPath_first made hne
  obtain ⟨p, hp, hd⟩ := near
  have haway : s.graph.away (s.robot robot) v = some _ := congrArg _ hp
  constructor
  · intro h
    obtain ⟨k', hk', heq⟩ := h
    obtain ⟨-, hlast⟩ := List.append_inj' heq rfl
    obtain rfl := (List.cons.inj hlast).1
    exact ⟨k, hw, hfirst _ (List.mem_of_getElem? hw) _ haway hd⟩
  · intro h
    obtain ⟨k', hk', hfirst'⟩ := h
    obtain rfl := (hfirst _ (List.mem_of_getElem? hk') _ haway hd).unique hfirst'
    obtain rfl := Option.some.inj (hw.symm.trans hk')
    exact ⟨k, hw, rfl⟩

/-- The lap joins if it begins at the vertex that has been reached. -/
theorem joins_head (made : s.makePatrolPath (s.robot robot) (-1) = some path)
    (hne : s.patrolRoute ≠ []) : Joins s.patrolRoute v path ↔ path.getD 0 0 = v := by
  obtain ⟨k, w, hw, rfl, -⟩ := makePatrolPath_first made hne
  have hhead : (s.patrolRoute.rotate k ++ [w]).getD 0 0 = w := by
    rw [List.getD_eq_getElem?_getD, ← List.head?_eq_getElem?, lap_head hw, Option.getD_some]
  rw [hhead]
  constructor
  · intro h
    obtain ⟨k', hk', heq⟩ := h
    obtain ⟨-, hlast⟩ := List.append_inj' heq rfl
    exact (List.cons.inj hlast).1
  · intro h
    exact ⟨k, h ▸ hw, by rw [h]⟩

end Lap

theorem arrive_lap {s : FleetCore R} {t : ActiveTask R} {path : List Int}
    (last : t.path.length ≤ t.idx + 1) (patrol : t.patrol = true)
    (made : s.makePatrolPath (s.robot t.robot) (-1) = some path) :
    s.arrive t = some ((s.emit (.arrival t.robot t.next)).emit (.lap t.robot path),
      some { t.arrived with path, idx := 1 }) := by
  unfold FleetCore.arrive
  dsimp only
  rw [if_pos last, if_pos patrol]
  exact Option.bind_eq_some_iff.mpr ⟨path, made, rfl⟩

/-- The step in which a lap is made, and what it leads to. -/
theorem laps_step {c : Conf R} {robot : String} {v : Int} {path : List Int}
    (lap : c.laps .go = some (robot, v, path)) :
    c.node.makePatrolPath (c.node.robot robot) (-1) = some path ∧ c.node.Near robot v ∧
    ∃ s kept u t todo, c.step .go = some (.asking s kept t todo) ∧ u ∈ c.node.tasks ∧
      u.moving = true ∧ u.patrol = true ∧ u.robot = robot ∧ u.next = v ∧
      s.traffic = c.node.traffic ∧ t.robot = robot ∧ t.path = path ∧ t.idx = 1 := by
  cases c with
  | idle | patrols | asking => cases lap
  | looping s kept todo =>
    cases todo with
    | nil => cases lap
    | cons t todo =>
      obtain ⟨tv, hv, h⟩ := Option.bind_eq_some_iff.mp lap
      split at h
      · cases h
      rename_i unstuck
      split at h
      · rename_i ends
        obtain ⟨moving, near, last, patrol⟩ := ends
        obtain ⟨path', made, heq⟩ := Option.map_eq_some_iff.mp h
        cases heq
        let s' := ((s.touch t.robot).emit (.arrival t.robot t.next)).emit (.lap t.robot path)
        let t' := { (FleetCore.observe ((s.touch t.robot).robot t.robot) t).arrived with
          path, idx := 1 }
        have hsettle : s.settle t = some (s', some t') := by
          have hv' : (s.touch t.robot).graph.vertex t.next = some tv := hv
          unfold FleetCore.settle
          simp only [hv', Option.bind_eq_bind, Option.bind_some, if_neg unstuck]
          rw [if_pos ⟨moving, near⟩]
          exact arrive_lap (s := s.touch t.robot)
            (t := FleetCore.observe ((s.touch t.robot).robot t.robot) t) last patrol made
        have hstep : (Conf.looping s kept (t :: todo)).step .go =
            some (.asking s' kept t' todo) := by
          change (s.settle t).map _ = _
          rw [hsettle]
          rfl
        refine ⟨?_, ?_, s', kept, t, t', todo, hstep, List.mem_cons_self, moving, patrol, rfl, rfl,
          rfl, rfl, rfl, rfl⟩
        · rw [FleetNode.robot_touch] at made
          exact made
        · rw [FleetNode.robot_touch] at near
          exact ⟨tv, hv, near⟩
      · cases h

/-- A new lap begins at the vertex that has been reached, and goes around the route and back to it,
exactly if that is the nearest vertex of the route. The robot has it reserved, and gives it back at
its departure exactly if the lap begins there. -/
theorem lap_joins_iff {c : Conf R} {robot : String} {v : Int} {path : List Int}
    (lap : c.laps .go = some (robot, v, path)) :
    (Joins c.node.patrolRoute v path ↔ c.node.NearestStop robot v) ∧
    ∃ s kept t todo, c.step .go = some (.asking s kept t todo) ∧
      t.robot = robot ∧ t.path = path ∧ t.idx = 1 ∧
      ∀ p, (ticks p).Reach (fun _ a => a.With Callback.Plain) c →
        s.traffic.owner v = some robot ∧ (t.cur = v ↔ Joins c.node.patrolRoute v path) := by
  obtain ⟨made, near, s, kept, u, t, todo, hstep, hu, moving, patrol, rfl, rfl, htraffic, hrobot,
    hpath, hidx⟩ := laps_step lap
  refine ⟨joins_iff made near, s, kept, t, todo, hstep, hrobot, hpath, hidx, ?_⟩
  intro p hc
  have hwell := reach_wellformed (fun _ _ h => h) hc
  have hlong := hwell.laps u hu patrol
  have hne : c.node.patrolRoute ≠ [] := by
    intro hnil
    rw [hnil] at hlong
    simp at hlong
  constructor
  · rw [htraffic]
    exact reach_owned (fun _ _ h => h) hc u hu moving
  · rw [joins_head made hne, ActiveTask.cur, hidx, hpath]

namespace Yard

/-- A robot on patrol is reported at a place, and the timer does all that it has to do. -/
def passes (x : ℚ) : List (Action ℚ) := .call (seen "r1" x 0) :: taken .timer 5

/-- A corridor with two vertices near its beginning. -/
def narrow : Setup ℚ :=
  ⟨.build [⟨0, 0⟩, ⟨10, 0⟩, ⟨3 / 10, 0⟩] [(0, 1), (1, 2), (2, 0)], "libi", true, [0, 1, 2],
    ⟨1, 1 / 2, 15⟩⟩

end Yard

/-- A robot drives from 0 to 1 and back, and begins again. -/
theorem lap_joins_iff_two : ∃ c : Conf ℚ,
    (ticks (Yard.setup true [0, 1])).Reach (fun _ a => a.With Callback.Plain) c ∧
    c.laps .go = some ("r1", 0, [0, 1, 0]) ∧ c.node.NearestStop "r1" 0 ∧
    ∃ s kept t todo, c.step .go = some (.asking s kept t todo) ∧
      s.traffic.owner 0 = some "r1" ∧ t.cur = 0 := by
  obtain ⟨c, hc, hp⟩ := (ticks (Yard.setup true [0, 1])).exists_reach
    (fun _ a => a.With Callback.Plain)
    (fun c => decide (c.laps .go = some ("r1", 0, [0, 1, 0]) ∧ c.node.patrolRoute = [0, 1]))
    (Yard.passes 0 ++ Yard.passes 10 ++ .call (Yard.seen "r1" (1 / 10) 0) :: Yard.taken .timer 2)
    (by decide +kernel)
  obtain ⟨hlap, hroute⟩ := of_decide_eq_true hp
  obtain ⟨hjoins, s, kept, t, todo, hstep, -, -, -, hplain⟩ := lap_joins_iff hlap
  obtain ⟨howner, hcur⟩ := hplain _ hc
  have hlap' : Joins c.node.patrolRoute 0 [0, 1, 0] := ⟨0, by rw [hroute]; rfl, by rw [hroute]; rfl⟩
  exact ⟨c, hc, hlap, hjoins.mp hlap', s, kept, t, todo, hstep, howner, hcur.mpr hlap'⟩

/-- The robot comes back to 0, within reach of it but nearer to 2, and goes on from there. -/
theorem lap_apart : ¬ ∀ (p : Setup ℚ) (c : Conf ℚ) (robot : String) (v : Int) (path : List Int),
    (ticks p).Reach (fun _ a => a.With Callback.Plain) c → c.laps .go = some (robot, v, path) →
      Joins c.node.patrolRoute v path := by
  intro h
  obtain ⟨c, hc, hp⟩ := (ticks Yard.narrow).exists_reach (fun _ a => a.With Callback.Plain)
    (fun c => decide (c.laps .go = some ("r1", 0, [2, 0, 1, 2])))
    (Yard.passes 0 ++ Yard.passes 10 ++ Yard.passes (3 / 10) ++
      .call (Yard.seen "r1" (2 / 10) 0) :: Yard.taken .timer 2)
    (by decide +kernel)
  obtain ⟨k, -, hpath⟩ := h _ c _ _ _ hc (of_decide_eq_true hp)
  have hlast := congrArg List.getLast? hpath
  rw [List.getLast?_concat] at hlast
  cases hlast

end LibiFleet
