import LibiFleet.Shortest
import LibiFleet.Assignment

/-!
# Which submissions are accepted

The dispatch plugin and `on_submit` look for the way to the goal separately: the plugin
to compare the robots, `on_submit` to check the one it is given. Both find the shortest
way and judge the battery alike, so what is accepted is what is feasible, and the robot
is the nearest one.
-/

namespace LibiFleet

open Std (ExtTreeMap)

variable {R : Type} [Double R]

namespace Navgraph

/-- `d` is the length of a shortest path along lanes from `a` to `b`. -/
structure Dist (g : Navgraph R) (a b : Int) (d : R) : Prop where
  path : ∃ path, Leads g.Lane a b path ∧ g.pathCost path = some d
  least : ∀ path e, Leads g.Lane a b path → g.pathCost path = some e → d ≤ e

variable {g : Navgraph R} {a b : Int} {d e : R}

theorem Dist.unique (h : g.Dist a b d) (h' : g.Dist a b e) : d = e := by
  obtain ⟨path, hpath, hcost⟩ := h.path
  obtain ⟨path', hpath', hcost'⟩ := h'.path
  exact le_antisymm (h.least _ _ hpath' hcost') (h'.least _ _ hpath hcost)

/-- No lane enters vertex `-1`, so the search avoids nothing. -/
theorem leads_net {path : List Int} : Leads (g.net (-1)).Arc a b path ↔ Leads g.Lane a b path := by
  constructor
  · intro h
    exact ⟨h.head, h.last, h.steps.imp fun _ _ arc => arc.1⟩
  · intro h
    refine ⟨h.head, h.last, h.steps.imp fun _ v lane => ⟨lane, ?_⟩⟩
    have := lane.target.1
    omega

theorem dist_self (g : Navgraph R) (a : Int) : g.Dist a a 0 := by
  refine ⟨⟨[a], ⟨rfl, rfl, List.isChain_singleton _⟩, rfl⟩, ?_⟩
  intro path e hpath hcost
  exact ((leads_net.mpr hpath).trip hcost).nonneg

omit [Double R] in
theorem vertices_ne_nil (ha : g.InRange a) : g.vertices ≠ [] := by
  intro h
  obtain ⟨hnonneg, hlt⟩ := ha
  simp only [size, h, List.length_nil] at hlt
  omega

/-- What `dijkstra` says of the distance. -/
theorem dijkstra_dist (ha : g.InRange a) (hb : g.InRange b) :
    (a ≠ b ∧ g.dijkstra a b (-1) = [] ∧ ∀ path, ¬ Leads g.Lane a b path) ∨
      ∃ d, g.Dist a b d ∧ g.pathCost (g.dijkstra a b (-1)) = some d ∧
        (a ≠ b → 2 ≤ (g.dijkstra a b (-1)).length) := by
  obtain ⟨hempty, hno⟩ | ⟨hleads, -, d, hcost, hleast⟩ := dijkstra_shortest ha hb (-1)
  · refine .inl ⟨?_, hempty, ?_⟩
    · rintro rfl
      exact hno [a] ⟨rfl, rfl, List.isChain_singleton _⟩
    · intro path hpath
      exact hno path (leads_net.mpr hpath)
  · refine .inr ⟨d, ⟨⟨_, leads_net.mp hleads, hcost⟩, ?_⟩, hcost, ?_⟩
    · intro path e hpath he
      exact hleast path e (leads_net.mpr hpath) he
    · intro hne
      generalize g.dijkstra a b (-1) = path at hleads
      rcases path with _ | ⟨u, _ | ⟨v, rest⟩⟩
      · cases hleads.head
      · exact absurd (Option.some.inj (hleads.head.symm.trans hleads.last)) hne
      · simp

theorem Dist.leads (h : g.Dist a b d) : ∃ path, Leads g.Lane a b path := by
  obtain ⟨path, hpath, -⟩ := h.path
  exact ⟨path, hpath⟩

variable {p q : Vertex R}

/-- No way is shorter than the straight line. -/
theorem straight_le [Euclidean R] {path : List Int} (hpath : Leads g.Lane a b path)
    (hcost : g.pathCost path = some d) (ha : g.vertex a = some p) (hb : g.vertex b = some q) :
    hypot (p.x - q.x) (p.y - q.y) ≤ d := by
  have trip := (leads_net.mpr hpath).trip hcost
  clear hpath hcost
  induction trip generalizing q with
  | stay =>
    obtain rfl : p = q := Option.some.inj (ha.symm.trans hb)
    rw [sub_self, sub_self, hypot_zero]
  | @go u v d _ arc ih =>
    obtain ⟨r, hr⟩ := exists_vertex arc.1.1
    calc
      hypot (p.x - q.x) (p.y - q.y) =
          hypot (p.x - r.x + (r.x - q.x)) (p.y - r.y + (r.y - q.y)) := by
        rw [sub_add_sub_cancel, sub_add_sub_cancel]
      _ ≤ hypot (p.x - r.x) (p.y - r.y) + hypot (r.x - q.x) (r.y - q.y) := hypot_add_le ..
      _ ≤ d + g.laneLength u v := by
        rw [laneLength_vertex hr hb]
        exact (add_le_add_iff_right _).mpr (ih hr)

/-- A lane is a shortest way to its end. -/
theorem dist_lane [Euclidean R] (lane : g.Lane a b) (ha : g.vertex a = some p)
    (hb : g.vertex b = some q) : g.Dist a b (hypot (p.x - q.x) (p.y - q.y)) := by
  refine ⟨⟨[a, b], ⟨rfl, rfl, by simpa using lane⟩, ?_⟩, ?_⟩
  · simp [pathCost, pathCostFrom, ha, hb]
  · intro path e hpath he
    exact straight_le hpath he ha hb

end Navgraph

/-- `need`: what the battery must hold for a way of length `d`. -/
def EnergyParams.need (e : EnergyParams R) (arm : Int) (d : R) : R :=
  d * e.drainPerM + arm * e.drainPerAct + e.reserve

namespace Auction

variable {goal arm : Int} {g : Navgraph R} {e : EnergyParams R} {r : RobotInfo R} {d : R}

/-- The robot bids `d`. -/
structure Bids (goal arm : Int) (g : Navgraph R) (e : EnergyParams R) (r : RobotInfo R) (d : R) :
    Prop where
  idle : r.busy = false
  dist : g.Dist (g.nearest r.x r.y) goal d
  battery : e.need arm d ≤ r.battery

/-- The robot bids nothing, or its bid is compared with the best one so far. -/
theorem bids_cons (hgoal : g.InRange goal) (arm : Int) (e : EnergyParams R) (r : RobotInfo R)
    (winner : String) (best : Option R) (robots : List (RobotInfo R)) :
    ((∀ d, ¬ Bids goal arm g e r d) ∧
      bids goal arm g e winner best (r :: robots) = bids goal arm g e winner best robots) ∨
    ∃ d, Bids goal arm g e r d ∧ bids goal arm g e winner best (r :: robots) =
      if below d best then bids goal arm g e r.name (some d) robots
      else bids goal arm g e winner best robots := by
  have hstart := Navgraph.nearest_inRange (Navgraph.vertices_ne_nil hgoal) r.x r.y
  rw [bids]
  by_cases hbusy : r.busy = true
  · left
    refine ⟨fun d h => ?_, if_pos hbusy⟩
    rw [h.idle] at hbusy
    cases hbusy
  rw [if_neg hbusy]
  dsimp only
  obtain ⟨hne, hempty, hno⟩ | ⟨d, hdist, hcost, hlong⟩ := Navgraph.dijkstra_dist hstart hgoal
  · left
    refine ⟨fun d h => ?_, if_pos ⟨hne, by simp [hempty]⟩⟩
    obtain ⟨path, hpath⟩ := h.dist.leads
    exact hno path hpath
  · have hpath : ¬ (g.nearest r.x r.y ≠ goal ∧
        (g.dijkstra (g.nearest r.x r.y) goal (-1)).length < 2) := by
      rintro ⟨hne, hshort⟩
      have := hlong hne
      omega
    rw [if_neg hpath, hcost]
    by_cases hneed : r.battery < e.need arm d
    · left
      refine ⟨fun d' h => ?_,
        by simpa [EnergyParams.need] using fun h => absurd hneed (not_lt.mpr h)⟩
      rw [hdist.unique h.dist] at hneed
      exact absurd h.battery (not_le.mpr hneed)
    · right
      refine ⟨d, ⟨by simpa using hbusy, hdist, not_lt.mp hneed⟩, ?_⟩
      rw [EnergyParams.need] at hneed
      simp [hneed]

/-- The winner is the bidder of the lowest bid, if it is lower than the best one so far. -/
theorem bids_spec (hgoal : g.InRange goal) (robots : List (RobotInfo R)) :
    ∀ winner best w, bids goal arm g e winner best robots = some w →
      (w = winner ∧ ∀ r ∈ robots, ∀ d, Bids goal arm g e r d → ∃ b, best = some b ∧ b ≤ d) ∨
      ∃ r ∈ robots, ∃ d, r.name = w ∧ Bids goal arm g e r d ∧ (∀ b, best = some b → d < b) ∧
        ∀ r' ∈ robots, ∀ d', Bids goal arm g e r' d' → d ≤ d' := by
  induction robots with
  | nil =>
    intro winner best w h
    exact .inl ⟨(Option.some.inj h).symm, by simp⟩
  | cons r robots ih =>
    intro winner best w h
    obtain ⟨hno, hskip⟩ | ⟨d, hd, hcompare⟩ := bids_cons hgoal arm e r winner best
      robots
    · rw [hskip] at h
      obtain ⟨hw, hall⟩ | ⟨r', hr', d', hname, hd', hbest, hall⟩ := ih winner best w h
      · left
        refine ⟨hw, List.forall_mem_cons.mpr ⟨fun d hd => (hno d hd).elim, hall⟩⟩
      · right
        exact ⟨r', List.mem_cons_of_mem _ hr', d', hname, hd', hbest,
          List.forall_mem_cons.mpr ⟨fun d hd => (hno d hd).elim, hall⟩⟩
    rw [hcompare] at h
    split at h
    · rename_i hbelow
      have hlower (b : R) (hb : best = some b) : d < b := by
        rwa [hb, below_some] at hbelow
      right
      obtain ⟨hw, hall⟩ | ⟨r', hr', d', hname, hd', hbest, hall⟩ := ih r.name (some d) w h
      · refine ⟨r, List.mem_cons_self, d, hw.symm, hd, hlower, ?_⟩
        refine List.forall_mem_cons.mpr ⟨?_, ?_⟩
        · intro d' hd'
          rw [hd.dist.unique hd'.dist]
        · intro r' hr' d' hd'
          obtain ⟨b, hb, hle⟩ := hall r' hr' d' hd'
          exact Option.some.inj hb ▸ hle
      · have hlt : d' < d := hbest d rfl
        refine ⟨r', List.mem_cons_of_mem _ hr', d', hname, hd', ?_, ?_⟩
        · intro b hb
          exact hlt.trans (hlower b hb)
        · refine List.forall_mem_cons.mpr ⟨fun d'' hd'' => ?_, hall⟩
          rw [← hd.dist.unique hd''.dist]
          exact hlt.le
    · rename_i habove
      obtain ⟨b, hb, hle⟩ : ∃ b, best = some b ∧ b ≤ d := by
        cases best with
        | none => exact absurd rfl habove
        | some b => exact ⟨b, rfl, not_lt.mp fun hlt => habove (below_some.mpr hlt)⟩
      have hhead (d' : R) (hd' : Bids goal arm g e r d') : b ≤ d' := hd.dist.unique hd'.dist ▸ hle
      obtain ⟨hw, hall⟩ | ⟨r', hr', d', hname, hd', hbest, hall⟩ := ih winner best w h
      · left
        exact ⟨hw, List.forall_mem_cons.mpr ⟨fun d' hd' => ⟨b, hb, hhead d' hd'⟩, hall⟩⟩
      · right
        refine ⟨r', List.mem_cons_of_mem _ hr', d', hname, hd', hbest, ?_⟩
        exact List.forall_mem_cons.mpr
          ⟨fun d'' hd'' => (hbest b hb).le.trans (hhead d'' hd''), hall⟩

/-- The auction is won by a robot with the lowest bid, and by nobody if there are no bids. -/
theorem assign_spec (hgoal : g.InRange goal) {robots : List (RobotInfo R)} {w : String}
    (h : assign goal arm robots g e = some w) :
    (w = "" ∧ ∀ r ∈ robots, ∀ d, ¬ Bids goal arm g e r d) ∨
      ∃ r ∈ robots, ∃ d, r.name = w ∧ Bids goal arm g e r d ∧
        ∀ r' ∈ robots, ∀ d', Bids goal arm g e r' d' → d ≤ d' := by
  obtain ⟨hw, hall⟩ | ⟨r, hr, d, hname, hd, -, hall⟩ := bids_spec hgoal robots "" none w h
  · left
    refine ⟨hw, fun r hr d hd => ?_⟩
    obtain ⟨b, hb, -⟩ := hall r hr d hd
    cases hb
  · exact .inr ⟨r, hr, d, hname, hd, hall⟩

/-- The first bidder is only beaten by a lower bid. -/
theorem assign_head (hgoal : g.InRange goal) {robots : List (RobotInfo R)} {w : String}
    (hr : Bids goal arm g e r d) (h : assign goal arm (r :: robots) g e = some w) :
    w = r.name ∨ ∃ r' ∈ robots, ∃ d', r'.name = w ∧ Bids goal arm g e r' d' ∧ d' < d := by
  unfold assign at h
  obtain ⟨hno, -⟩ | ⟨d', hd', hcompare⟩ := bids_cons hgoal arm e r "" none robots
  · exact absurd hr (hno d)
  rw [hcompare, if_pos (show below d' none = true from rfl)] at h
  obtain ⟨hw, -⟩ | ⟨r', hr', e', hname, he', hlower, -⟩ :=
    bids_spec hgoal robots r.name (some d') w h
  · exact .inl hw
  · right
    refine ⟨r', hr', e', hname, he', ?_⟩
    rw [hr.dist.unique hd'.dist]
    exact hlower d' rfl

end Auction

/-! ## What a robot must be able to do -/

namespace FleetNode

variable {s s' : FleetNode R} {req : SubmitRequest} {res : SubmitResponse} {robot : String}
variable {goal arm : Int} {d : R}

/-- The robot may be chosen for a task that names no robot. -/
structure Free (s : FleetNode R) (robot : String) : Prop where
  running : s.modeOf robot ≠ .stop
  charged : s.modeOf robot ≠ .charge
  idle : ∀ t ∈ s.tasks, t.robot = robot → t.patrol = true

/-- The goal is `d` away from the vertex nearest to the robot, and the battery of the robot lasts
for the way and the arm actions. -/
structure Reaches (s : FleetNode R) (goal arm : Int) (robot : String) (d : R) : Prop where
  known : robot ∈ s.robots
  dist : s.graph.Dist (s.graph.nearest (s.robot robot).x (s.robot robot).y) goal d
  battery : s.energy.need arm d ≤ (s.robot robot).battery

theorem pathCost_pair {g : Navgraph R} {v : Int} (hv : g.InRange v) :
    g.pathCost [v, v] = some 0 := by
  obtain ⟨p, hp⟩ := Navgraph.exists_vertex hv
  simp [Navgraph.pathCost, Navgraph.pathCostFrom, hp, hypot_zero]

theorem checkRoute_iff (hgoal : s.graph.InRange goal) (known : robot ∈ s.robots) :
    (∃ path, s.checkRoute robot goal arm = some (.ok path)) ↔ ∃ d, s.Reaches goal arm robot d := by
  have hstart := Navgraph.nearest_inRange (Navgraph.vertices_ne_nil hgoal) (s.robot robot).x
    (s.robot robot).y
  unfold checkRoute
  dsimp only
  generalize hs : s.graph.nearest (s.robot robot).x (s.robot robot).y = start at hstart ⊢
  obtain ⟨hne, hempty, hno⟩ | ⟨d, hdist, hcost, hlong⟩ := Navgraph.dijkstra_dist hstart hgoal
  · constructor
    · rintro ⟨path, hpath⟩
      simp [hne, hempty] at hpath
    · rintro ⟨d, h⟩
      obtain ⟨path, hpath⟩ := h.dist.leads
      exact absurd (hs ▸ hpath) (hno path)
  · have hroute : (¬ (if start = goal then [goal, goal]
          else s.graph.dijkstra start goal (-1)).length < 2) ∧
        s.graph.pathCost (if start = goal then [goal, goal]
          else s.graph.dijkstra start goal (-1)) = some d := by
      split
      · rename_i heq
        have hzero : d = 0 := hdist.unique (heq ▸ Navgraph.dist_self _ _)
        exact ⟨by simp, hzero ▸ pathCost_pair hgoal⟩
      · rename_i hne
        exact ⟨not_lt.mpr (hlong hne), hcost⟩
    rw [if_neg hroute.1, hroute.2]
    have hbattery : (∃ d', s.Reaches goal arm robot d') ↔
        ¬ (s.robot robot).battery < s.energy.need arm d := by
      rw [not_lt]
      constructor
      · rintro ⟨d', h⟩
        rw [hdist.unique (hs ▸ h.dist)]
        exact h.battery
      · intro h
        exact ⟨d, known, hs ▸ hdist, h⟩
    rw [hbattery]
    simp only [EnergyParams.need, Option.bind_eq_bind, Option.bind_some, Option.some.injEq]
    split
    · simp [*]
    · simp [*]

omit [Double R] in
/-- A robot is offered as idle exactly if it has no task or only a patrol. -/
theorem offered_idle (hl : Ledger s) {r : RobotInfo R} (hr : s.robots[robot]? = some r) :
    (s.isOnPatrol robot = true ∨ r.busy = false) ↔
      ∀ t ∈ s.tasks, t.robot = robot → t.patrol = true := by
  unfold isOnPatrol
  obtain ⟨-, hbusy⟩ := hl.entries robot r hr
  cases hfind : s.tasks.find? (·.robot = robot) with
  | none =>
    have hno : ∀ t ∈ s.tasks, t.robot ≠ robot := by simpa using hfind
    have hidle : r.busy = false := by
      apply Bool.eq_false_of_not_eq_true
      intro hb
      obtain ⟨t, ht, he⟩ := hbusy.mp hb
      exact hno t ht he
    exact ⟨fun _ t ht he => absurd he (hno t ht), fun _ => .inr hidle⟩
  | some t =>
    have ht : t ∈ s.tasks := List.mem_of_find?_eq_some hfind
    have he : t.robot = robot := by simpa using List.find?_some hfind
    have hb : r.busy = true := hbusy.mpr ⟨t, ht, he⟩
    constructor
    · intro h u hu hur
      have hpatrol : t.patrol = true := h.resolve_right (by simp [hb])
      rwa [hl.eq_of_robot hu ht (hur.trans he.symm)]
    · intro h
      exact .inl (h t ht he)

omit [Double R] in
theorem mem_snapshot {r : RobotInfo R} : r ∈ s.snapshot ↔
    ∃ k r₀, s.robots[k]? = some r₀ ∧ s.modeOf k ≠ .stop ∧ s.modeOf k ≠ .charge ∧
      r = if s.isOnPatrol k then { r₀ with busy := false } else r₀ := by
  unfold snapshot
  simp only [List.mem_filterMap, Prod.exists, ExtTreeMap.mem_toList_iff_getElem?_eq_some]
  constructor
  · rintro ⟨k, r₀, hk, h⟩
    split at h
    · cases h
    · rename_i hm
      rw [not_or] at hm
      exact ⟨k, r₀, hk, hm.1, hm.2, (Option.some.inj h).symm⟩
  · rintro ⟨k, r₀, hk, hstop, hcharge, rfl⟩
    exact ⟨k, r₀, hk, by rw [if_neg (not_or.mpr ⟨hstop, hcharge⟩)]⟩

/-- The bids of the robots that are offered are the ways of the robots that are free. -/
theorem bids_snapshot (hl : Ledger s) :
    (∃ r ∈ s.snapshot, r.name = robot ∧ Auction.Bids goal arm s.graph s.energy r d) ↔
      s.Free robot ∧ s.Reaches goal arm robot d := by
  have offer (k : String) (r₀ : RobotInfo R) (hk : s.robots[k]? = some r₀) :
      ((if s.isOnPatrol k then { r₀ with busy := false } else r₀).name = k) ∧
      (Auction.Bids goal arm s.graph s.energy
          (if s.isOnPatrol k then { r₀ with busy := false } else r₀) d ↔
        (∀ t ∈ s.tasks, t.robot = k → t.patrol = true) ∧ s.Reaches goal arm k d) := by
    have hname := (hl.entries k r₀ hk).1
    have hrobot : s.robot k = r₀ := Ledger.robot_eq hk
    have hknown : k ∈ s.robots := ExtTreeMap.mem_iff_isSome_getElem?.mpr (by rw [hk]; rfl)
    rw [← offered_idle hl hk]
    split
    · rename_i hpatrol
      refine ⟨hname, ?_⟩
      constructor
      · intro h
        exact ⟨.inl hpatrol, hknown, hrobot ▸ h.dist, hrobot ▸ h.battery⟩
      · rintro ⟨-, h⟩
        exact ⟨rfl, hrobot ▸ h.dist, hrobot ▸ h.battery⟩
    · rename_i hpatrol
      refine ⟨hname, ?_⟩
      constructor
      · intro h
        exact ⟨.inr h.idle, hknown, hrobot ▸ h.dist, hrobot ▸ h.battery⟩
      · rintro ⟨hidle, h⟩
        exact ⟨hidle.resolve_left hpatrol, hrobot ▸ h.dist, hrobot ▸ h.battery⟩
  constructor
  · rintro ⟨r, hr, hname, hbids⟩
    obtain ⟨k, r₀, hk, hstop, hcharge, rfl⟩ := mem_snapshot.mp hr
    obtain ⟨hkname, hiff⟩ := offer k r₀ hk
    obtain rfl : k = robot := hkname.symm.trans hname
    obtain ⟨hidle, hreaches⟩ := hiff.mp hbids
    exact ⟨⟨hstop, hcharge, hidle⟩, hreaches⟩
  · rintro ⟨hfree, hreaches⟩
    obtain ⟨r₀, hk⟩ := Ledger.exists_entry hreaches.known
    obtain ⟨hkname, hiff⟩ := offer robot r₀ hk
    exact ⟨_, mem_snapshot.mpr ⟨robot, r₀, hk, hfree.running, hfree.charged, rfl⟩, hkname,
      hiff.mpr ⟨hfree.idle, hreaches⟩⟩

omit [Double R] in
theorem selectRobot_named (hreq : req.robot ≠ "") :
    s.selectRobot goal arm req.robot = some (.ok robot) ↔
      robot = req.robot ∧ robot ∈ s.robots ∧ s.modeOf robot ≠ .stop := by
  unfold selectRobot
  rw [if_pos hreq]
  by_cases hknown : req.robot ∈ s.robots
  · rw [if_neg (not_not.mpr hknown)]
    by_cases hstop : s.modeOf req.robot = .stop
    · rw [if_pos hstop]
      constructor
      · intro h
        cases h
      · rintro ⟨rfl, -, hrunning⟩
        exact absurd hstop hrunning
    · rw [if_neg hstop]
      constructor
      · intro h
        cases h
        exact ⟨rfl, hknown, hstop⟩
      · rintro ⟨rfl, -⟩
        rfl
  · rw [if_pos hknown]
    constructor
    · intro h
      cases h
    · rintro ⟨rfl, hk, -⟩
      exact absurd hk hknown

omit [Double R] in
/-- A robot without a name is offered before the others. -/
theorem snapshot_nameless (hl : Ledger s) {r : RobotInfo R} (hr : r ∈ s.snapshot)
    (nameless : r.name = "") : ∃ rest, s.snapshot = r :: rest := by
  obtain ⟨k, r₀, hk, hstop, hcharge, rfl⟩ := mem_snapshot.mp hr
  have hkey : k = "" := by
    rw [← nameless, ← (hl.entries k r₀ hk).1]
    split
    · rfl
    · rfl
  subst hkey
  have hmem : ("", r₀) ∈ s.robots.toList := ExtTreeMap.mem_toList_iff_getElem?_eq_some.mpr hk
  obtain ⟨before, after, hlist⟩ := List.append_of_mem hmem
  have hfirst : before = [] := by
    cases before with
    | nil => rfl
    | cons kv before =>
      have hordered := ExtTreeMap.ordered_keys_toList (t := s.robots)
      rw [hlist, List.cons_append, List.pairwise_cons] at hordered
      have hlt := hordered.1 ("", r₀) (by simp)
      rw [compare_lt_iff_lt, String.lt_iff_toList_lt] at hlt
      exact absurd hlt (List.not_lt_nil _)
  rw [hfirst, List.nil_append] at hlist
  unfold snapshot
  rw [hlist, List.filterMap_cons, if_neg (not_or.mpr ⟨hstop, hcharge⟩)]
  exact ⟨_, rfl⟩

/-- The robot that is chosen where none is named is the nearest of those that can do it, and none
is chosen where a robot without a name is as near. -/
theorem selectRobot_unnamed (hl : Ledger s) (auction : s.dispatcher = Auction.assign)
    (hgoal : s.graph.InRange goal) (arm : Int) :
    (∃ robot d, s.selectRobot goal arm "" = some (.ok robot) ∧ robot ≠ "" ∧ s.Free robot ∧
        s.Reaches goal arm robot d ∧
        (∀ robot' d', s.Free robot' → s.Reaches goal arm robot' d' → d ≤ d') ∧
        ∀ d', s.Free "" → s.Reaches goal arm "" d' → d < d') ∨
      (∃ reason, s.selectRobot goal arm "" = some (.error reason)) ∧
        ((∀ robot d, s.Free robot → ¬ s.Reaches goal arm robot d) ∨
          ∃ d, s.Free "" ∧ s.Reaches goal arm "" d ∧
            ∀ robot' d', s.Free robot' → s.Reaches goal arm robot' d' → d ≤ d') := by
  obtain ⟨w, hw⟩ := Option.isSome_iff_exists.mp
    (Auction.assign_isSome goal arm s.snapshot s.graph s.energy)
  have hselect : s.selectRobot goal arm "" =
      some (if w = "" then .error "no_robot_available" else .ok w) := by
    simp [selectRobot, auction, hw]
  rw [hselect]
  obtain ⟨hempty, hno⟩ | ⟨r, hr, d, hname, hd, hleast⟩ := Auction.assign_spec hgoal hw
  · right
    refine ⟨⟨_, by rw [if_pos hempty]⟩, .inl ?_⟩
    intro robot d hfree hreaches
    obtain ⟨r, hr, -, hd⟩ := (bids_snapshot hl).mpr ⟨hfree, hreaches⟩
    exact hno r hr d hd
  obtain ⟨hfree, hreaches⟩ := (bids_snapshot hl).mp ⟨r, hr, hname, hd⟩
  have hall : ∀ robot' d', s.Free robot' → s.Reaches goal arm robot' d' → d ≤ d' := by
    intro robot' d' hfree' hreaches'
    obtain ⟨r', hr', -, hd'⟩ := (bids_snapshot hl).mpr ⟨hfree', hreaches'⟩
    exact hleast r' hr' d' hd'
  by_cases hne : w = ""
  · right
    subst hne
    exact ⟨⟨_, by rw [if_pos rfl]⟩, .inr ⟨d, hfree, hreaches, hall⟩⟩
  · left
    refine ⟨w, d, by rw [if_neg hne], hne, hfree, hreaches, hall, ?_⟩
    intro d' hfree' hreaches'
    obtain ⟨r', hr', hname', hd'⟩ := (bids_snapshot hl).mpr ⟨hfree', hreaches'⟩
    obtain ⟨rest, hrest⟩ := snapshot_nameless hl hr' hname'
    rw [hrest] at hw
    obtain hwin | ⟨r₁, hr₁, d₁, -, hd₁, hlt⟩ := Auction.assign_head hgoal hd' hw
    · exact absurd (hwin.trans hname') hne
    · exact (hleast r₁ (hrest ▸ List.mem_cons_of_mem _ hr₁) d₁ hd₁).trans_lt hlt

/-- The same where every robot has a name. -/
theorem selectRobot_free (hl : Ledger s) (auction : s.dispatcher = Auction.assign)
    (named : "" ∉ s.robots) (hgoal : s.graph.InRange goal) (arm : Int) :
    (∃ robot d, s.selectRobot goal arm "" = some (.ok robot) ∧ s.Free robot ∧
        s.Reaches goal arm robot d ∧
        ∀ robot' d', s.Free robot' → s.Reaches goal arm robot' d' → d ≤ d') ∨
      (∃ reason, s.selectRobot goal arm "" = some (.error reason)) ∧
        ∀ robot d, s.Free robot → ¬ s.Reaches goal arm robot d := by
  obtain ⟨robot, d, hselect, -, hfree, hreaches, hall, -⟩ | ⟨hnone, hno | ⟨d, -, hreaches, -⟩⟩ :=
    selectRobot_unnamed hl auction hgoal arm
  · exact .inl ⟨robot, d, hselect, hfree, hreaches, hall⟩
  · exact .inr ⟨hnone, hno⟩
  · exact absurd hreaches.known named

/-- A submission is accepted exactly if a robot is chosen for it and passes the check. -/
theorem onSubmit_accepts (hl : Ledger s) (hgoal : s.graph.InRange (goalOf req)) :
    (s.onSubmit req = some (s', res) ∧ res.accepted = true) ↔ ∃ robot path,
      s.selectRobot (goalOf req) (armActionsOf req) req.robot = some (.ok robot) ∧
      s.checkRoute robot (goalOf req) (armActionsOf req) = some (.ok path) ∧
      s.accept req robot path (armActionsOf req) = (s', res) := by
  have hvertex : ¬ (goalOf req < 0 ∨ s.graph.size ≤ goalOf req) := by
    obtain ⟨hnonneg, hlt⟩ := hgoal
    omega
  unfold onSubmit
  dsimp only
  rw [if_neg hvertex]
  have rejected {s₁ : FleetNode R} {reason : String}
      (h : some (s₁, SubmitResponse.rejected reason) = some (s', res)) : res.accepted = false := by
    cases h
    rfl
  cases hselect : s.selectRobot (goalOf req) (armActionsOf req) req.robot with
  | none => simp
  | some choice =>
    cases choice with
    | error reason =>
      constructor
      · rintro ⟨h, haccepted⟩
        rw [rejected h] at haccepted
        cases haccepted
      · rintro ⟨robot, path, h, -⟩
        cases h
    | ok robot =>
      have hsame : ({ s with toFleetCore := s.touch robot } : FleetNode R) = s := by
        rw [Ledger.touch_eq (hl.chosen hselect).1]
      simp only [Option.bind_eq_bind, Option.bind_some, hsame]
      cases hcheck : s.checkRoute robot (goalOf req) (armActionsOf req) with
      | none =>
        constructor
        · rintro ⟨h, -⟩
          cases h
        · rintro ⟨robot', path, h, hpath, -⟩
          cases h
          rw [hcheck] at hpath
          cases hpath
      | some check =>
        cases check with
        | error reason =>
          constructor
          · rintro ⟨h, haccepted⟩
            rw [rejected h] at haccepted
            cases haccepted
          · rintro ⟨robot', path, h, hpath, -⟩
            cases h
            rw [hcheck] at hpath
            cases hpath
        | ok path =>
          constructor
          · rintro ⟨h, -⟩
            exact ⟨robot, path, rfl, hcheck, Option.some.inj h⟩
          · rintro ⟨robot', path', h, hpath, haccept⟩
            cases h
            rw [hcheck] at hpath
            cases hpath
            refine ⟨congrArg some haccept, ?_⟩
            rw [← (Prod.mk.inj haccept).2]

/-- The last task after an accepted submission is the one that was submitted. -/
theorem accept_task {path : List Int} (h : s.accept req robot path arm = (s', res)) :
    ∃ t, s'.tasks.getLast? = some t ∧ t.path = path ∧ t.id = res.taskId ∧ t.robot = robot := by
  unfold accept at h
  dsimp only at h
  obtain ⟨rfl, rfl⟩ := Prod.mk.inj h
  rw [enlist_tasks, List.getLast?_append]
  exact ⟨_, rfl, rfl, rfl, rfl⟩

def Accepts (s : FleetNode R) (req : SubmitRequest) : Prop :=
  ∃ s' res, s.onSubmit req = some (s', res) ∧ res.accepted = true

theorem accepts_iff (hl : Ledger s) (hgoal : s.graph.InRange (goalOf req)) :
    s.Accepts req ↔ ∃ robot path,
      s.selectRobot (goalOf req) (armActionsOf req) req.robot = some (.ok robot) ∧
      s.checkRoute robot (goalOf req) (armActionsOf req) = some (.ok path) := by
  constructor
  · rintro ⟨s', res, h⟩
    obtain ⟨robot, path, hselect, hcheck, -⟩ := (onSubmit_accepts hl hgoal).mp h
    exact ⟨robot, path, hselect, hcheck⟩
  · rintro ⟨robot, path, hselect, hcheck⟩
    exact ⟨_, _, (onSubmit_accepts hl hgoal).mpr ⟨robot, path, hselect, hcheck, rfl⟩⟩

theorem accepts_unnamed (hl : Ledger s) (auction : s.dispatcher = Auction.assign)
    (named : "" ∉ s.robots) (hgoal : s.graph.InRange (goalOf req)) (hreq : req.robot = "") :
    s.Accepts req ↔
      ∃ robot d, s.Free robot ∧ s.Reaches (goalOf req) (armActionsOf req) robot d := by
  rw [accepts_iff hl hgoal, hreq]
  constructor
  · rintro ⟨robot, path, hselect, -⟩
    obtain ⟨robot', d, -, hfree, hreaches, -⟩ | ⟨⟨reason, hnone⟩, -⟩ :=
      selectRobot_free hl auction named hgoal (armActionsOf req)
    · exact ⟨robot', d, hfree, hreaches⟩
    · rw [hselect] at hnone
      cases hnone
  · rintro ⟨robot, d, hfree, hreaches⟩
    obtain ⟨robot', d', hselect, -, hreaches', -⟩ | ⟨-, hno⟩ :=
      selectRobot_free hl auction named hgoal (armActionsOf req)
    · obtain ⟨path, hcheck⟩ := (checkRoute_iff hgoal hreaches'.known).mpr ⟨d', hreaches'⟩
      exact ⟨robot', path, hselect, hcheck⟩
    · exact absurd hreaches (hno robot d hfree)

/-- The robot of an accepted submission that names none is the nearest one. -/
theorem assigned_nearest (hl : Ledger s) (auction : s.dispatcher = Auction.assign)
    (named : "" ∉ s.robots) (hgoal : s.graph.InRange (goalOf req)) (hreq : req.robot = "")
    (h : s.onSubmit req = some (s', res)) (haccepted : res.accepted = true) :
    ∃ t d, s'.tasks.getLast? = some t ∧ t.id = res.taskId ∧ s.Free t.robot ∧
      s.Reaches (goalOf req) (armActionsOf req) t.robot d ∧
      ∀ robot d', s.Free robot → s.Reaches (goalOf req) (armActionsOf req) robot d' → d ≤ d' := by
  obtain ⟨robot, path, hselect, -, haccept⟩ := (onSubmit_accepts hl hgoal).mp ⟨h, haccepted⟩
  obtain ⟨t, ht, -, hid, rfl⟩ := accept_task haccept
  rw [hreq] at hselect
  obtain ⟨robot', d, hselect', hfree, hreaches, hleast⟩ | ⟨⟨reason, hnone⟩, -⟩ :=
    selectRobot_free hl auction named hgoal (armActionsOf req)
  · rw [hselect] at hselect'
    cases hselect'
    exact ⟨t, d, ht, hid, hfree, hreaches, hleast⟩
  · rw [hselect] at hnone
    cases hnone

theorem accepts_named (hl : Ledger s) (hgoal : s.graph.InRange (goalOf req))
    (hreq : req.robot ≠ "") : s.Accepts req ↔ s.modeOf req.robot ≠ .stop ∧
      ∃ d, s.Reaches (goalOf req) (armActionsOf req) req.robot d := by
  rw [accepts_iff hl hgoal]
  constructor
  · rintro ⟨robot, path, hselect, hcheck⟩
    obtain ⟨rfl, hknown, hrunning⟩ := (selectRobot_named hreq).mp hselect
    exact ⟨hrunning, (checkRoute_iff hgoal hknown).mp ⟨path, hcheck⟩⟩
  · rintro ⟨hrunning, d, hreaches⟩
    obtain ⟨path, hcheck⟩ := (checkRoute_iff hgoal hreaches.known).mpr ⟨d, hreaches⟩
    exact ⟨_, path, (selectRobot_named hreq).mpr ⟨rfl, hreaches.known, hrunning⟩, hcheck⟩

/-- The check of `on_submit` never rejects the winner of the auction. -/
theorem winner_passes (hl : Ledger s) (auction : s.dispatcher = Auction.assign)
    (hgoal : s.graph.InRange goal) {w : String}
    (hw : s.dispatcher goal arm s.snapshot s.graph s.energy = some w) (hne : w ≠ "") :
    ∃ path, ({ s with toFleetCore := s.touch w } : FleetNode R).checkRoute w goal arm =
      some (.ok path) := by
  rw [auction] at hw
  obtain ⟨hempty, -⟩ | ⟨r, hr, d, hname, hd, -⟩ := Auction.assign_spec hgoal hw
  · exact absurd hempty hne
  · obtain ⟨-, hreaches⟩ := (bids_snapshot hl).mp ⟨r, hr, hname, hd⟩
    rw [Ledger.touch_eq hreaches.known]
    exact (checkRoute_iff hgoal hreaches.known).mpr ⟨d, hreaches⟩

end FleetNode

/-! ## Over whole runs -/

open FleetNode (goalOf armActionsOf)

variable {p : Setup R} {s : FleetNode R}

theorem reach_named (hs : (fleet p).Reach (fun _ cb => cb.Offers ∧ cb.Named) s) :
    "" ∉ s.robots := by
  have hticks : (ticks p).Reach (fun _ a => a.With fun cb => cb.Offers ∧ cb.Named) (.idle s) :=
    reach_ticks hs
  refine reach_books (P := fun s => "" ∉ s.robots) (fun _ _ h => h.mono fun _ hcb => hcb.1) ?_ ?_
    hticks
  · simp [FleetNode.start]
  · intro c a robot s s' hok he _ hl hs hk
    have named : a.With Callback.Named := hok.mono fun _ hcb => hcb.2
    obtain hk | ⟨msg, rfl, hname⟩ | ⟨req, rfl, hname⟩ := he.newcomer hl hk
    · exact hs hk
    · exact named hname
    · exact named hname

/-- A submission for a vertex of the graph that names no robot is accepted exactly if some robot is
free and can do it, and goes to the nearest one of these. One that names a robot is accepted exactly
if that robot is not stopped and can do it. The check of `on_submit` agrees with the auction. -/
theorem dispatch_exact (hs : (fleet p).Reach (fun _ cb => cb.Offers ∧ cb.Named) s)
    (auction : s.dispatcher = Auction.assign) (req : SubmitRequest)
    (hgoal : s.graph.InRange (goalOf req)) :
    (req.robot = "" →
      (s.Accepts req ↔
        ∃ robot d, s.Free robot ∧ s.Reaches (goalOf req) (max req.armActions 0) robot d) ∧
      ∀ s' res, s.onSubmit req = some (s', res) → res.accepted = true →
        ∃ t d, s'.tasks.getLast? = some t ∧ t.id = res.taskId ∧ s.Free t.robot ∧
          s.Reaches (goalOf req) (max req.armActions 0) t.robot d ∧
          ∀ robot d', s.Free robot → s.Reaches (goalOf req) (max req.armActions 0) robot d' →
            d ≤ d') ∧
    (req.robot ≠ "" → (s.Accepts req ↔ s.modeOf req.robot ≠ .stop ∧
      ∃ d, s.Reaches (goalOf req) (max req.armActions 0) req.robot d)) ∧
    ∀ w, s.dispatcher (goalOf req) (max req.armActions 0) s.snapshot s.graph s.energy = some w →
      w ≠ "" → ∃ path, ({ s with toFleetCore := s.touch w } : FleetNode R).checkRoute w (goalOf req)
        (max req.armActions 0) = some (.ok path) := by
  have hticks : (ticks p).Reach (fun _ a => a.With Callback.Offers) (.idle s) :=
    reach_ticks (hs.mono fun _ _ h => h.1)
  have hl : Ledger s := reach_ledger (fun _ _ h => h) hticks
  have hnamed := reach_named hs
  rw [← FleetNode.armActionsOf_eq]
  refine ⟨fun hreq => ⟨?_, ?_⟩, ?_, ?_⟩
  · exact FleetNode.accepts_unnamed hl auction hnamed hgoal hreq
  · intro s' res h haccepted
    exact FleetNode.assigned_nearest hl auction hnamed hgoal hreq h haccepted
  · exact FleetNode.accepts_named hl hgoal
  · intro w hw hne
    exact FleetNode.winner_passes hl auction hgoal hw hne

/-- `r2` stands at the goal with a battery of 60, `r1` two lanes away with 100. For the way alone
`r2` is good enough. With a hundred arm actions it is not, and the task goes to `r1`. -/
theorem dispatch_exact_yard : ∃ (s s' : FleetNode ℚ) (res : SubmitResponse) (t : ActiveTask ℚ)
    (d : ℚ), (fleet (Yard.setup false [])).Reach (fun _ cb => cb.Offers ∧ cb.Named) s ∧
    s.onSubmit ⟨"2", "", "", 0, 100⟩ = some (s', res) ∧ res.accepted = true ∧
    s'.tasks.getLast? = some t ∧ t.robot = "r1" ∧ s.Reaches 2 100 "r1" d ∧
    (∀ e, ¬ s.Reaches 2 100 "r2" e) ∧ ∃ e, s.Reaches 2 0 "r2" e := by
  obtain ⟨s, hs, hcheck⟩ := (fleet (Yard.setup false [])).exists_reach (fun _ cb => cb.Plain)
    (fun s => decide (s.graph.InRange 2 ∧ s.modeOf "r2" = .idle ∧
      (s.onSubmit ⟨"2", "", "", 0, 100⟩).any (fun out => out.2.accepted &&
        out.1.tasks.getLast?.any (·.robot = "r1")) = true ∧
      (s.onSubmit ⟨"2", "", "r2", 0, 100⟩).any (·.2.accepted) = false ∧
      (s.onSubmit ⟨"2", "", "r2", 0, 0⟩).any (·.2.accepted) = true))
    [Yard.seen "r1" 0 0, Yard.seen "r2" 20 0, .setBattery ⟨"r2", 60⟩] (by decide +kernel)
  obtain ⟨inRange, hmode, haccepted, hweak, hstrong⟩ := of_decide_eq_true hcheck
  have hreach : (fleet (Yard.setup false [])).Reach (fun _ cb => cb.Offers ∧ cb.Named) s :=
    hs.mono fun _ _ h => ⟨h.2.offers, h.1⟩
  have auction : s.dispatcher = Auction.assign := reach_auction (hs.mono fun _ _ h => h.2)
  have accepts (req : SubmitRequest) :
      s.Accepts req ↔ (s.onSubmit req).any (·.2.accepted) = true := by
    rw [Option.any_eq_true]
    constructor
    · rintro ⟨s', res, hsubmit, hres⟩
      exact ⟨(s', res), hsubmit, hres⟩
    · rintro ⟨⟨s', res⟩, hsubmit, hres⟩
      exact ⟨s', res, hsubmit, hres⟩
  have hrunning : s.modeOf "r2" ≠ .stop := by simp [hmode]
  obtain ⟨⟨s', res⟩, hsubmit, hout⟩ := (Option.any_eq_true _ _).mp haccepted
  obtain ⟨hres, hrobot⟩ := (Bool.and_eq_true _ _).mp hout
  obtain ⟨hunnamed, -⟩ := dispatch_exact hreach auction ⟨"2", "", "", 0, 100⟩ inRange
  obtain ⟨t, d, ht, -, -, hreaches, -⟩ := (hunnamed rfl).2 s' res hsubmit hres
  have hr1 : t.robot = "r1" := by simpa [ht] using hrobot
  obtain ⟨-, hwith, -⟩ := dispatch_exact hreach auction ⟨"2", "", "r2", 0, 100⟩ inRange
  obtain ⟨-, hwithout, -⟩ := dispatch_exact hreach auction ⟨"2", "", "r2", 0, 0⟩ inRange
  refine ⟨s, s', res, t, d, hreach, hsubmit, hres, ht, hr1, hr1 ▸ hreaches, ?_, ?_⟩
  · intro e he
    rw [(accepts _).mp ((hwith (by simp)).mpr ⟨hrunning, e, he⟩)] at hweak
    cases hweak
  · exact ((hwithout (by simp)).mp ((accepts _).mpr hstrong)).2

end LibiFleet
