import LibiFleet.Console
import LibiFleet.Dispatch

/-!
# The bids against the auction

`bid_scores` repeats in Python what the auction does in C++: the same search on the same
graph, so the same distances. It rounds them before it sorts, and it asks neither for
modes nor for tasks nor for batteries. What it announces is what the node does exactly
if the first robot it lists is as near as the nearest of the robots that are free.
-/

namespace LibiFleet

open Std (ExtTreeMap)
open Navgraph (Covers)
open FleetNode (goalOf armActionsOf)

variable {R : Type}

theorem pyGet_nat {α : Type} {l : List α} {i : Int} (h : 0 ≤ i) (hl : i < l.length) (d : α) :
    pyGet l i = some (l.getD i.toNat d) := by
  have hlt : i.toNat < l.length := by omega
  rw [pyGet, pyIndex_nat h hl, Option.bind_some, List.getD_eq_getElem?_getD,
    List.getElem?_eq_getElem hlt, Option.getD_some]

theorem pySet_nat {α : Type} {l : List α} {i : Int} (h : 0 ≤ i) (hl : i < l.length) (x : α) :
    pySet l i x = some (l.set i.toNat x) := by
  rw [pySet, pyIndex_nat h hl, Option.map_some]

/-- The part of a search that the console keeps too. -/
def Search.bid (s : Search R) : BidSearch R := ⟨s.dist, s.pq⟩

namespace Bridge

variable {b : Bridge R}

/-- The lanes of a vertex in the console are its row in the graph. -/
theorem adj_eq (closed : b.Closed) {u : Int} (hu : b.graph.InRange u) :
    b.adj u = b.graph.row u := by
  unfold adj graph
  rw [Navgraph.build_row hu]
  refine congrArg _ (List.filter_congr ?_)
  intro l hl
  obtain ⟨-, hrange⟩ := closed l hl
  have hlanes : 0 ≤ l.2 ∧ l.2 < (b.vertices.length : Int) := hrange
  simp [hlanes]

variable [Double R] {g : Navgraph R} {s : Search R} {u w goal src : Int} {cd : R}

theorem laneLength_eq (hu : b.graph.InRange u) (hw : b.graph.InRange w) :
    b.laneLength u w = some (b.graph.laneLength u w) := by
  have get {v : Int} (hv : b.graph.InRange v) :
      ∃ p, b.vertices[v.toNat]? = some p ∧ pyGet b.vertices v = some p := by
    obtain ⟨p, hp⟩ := Navgraph.exists_vertex hv
    have hp' : b.vertices[v.toNat]? = some p := by
      rw [Navgraph.vertex, if_pos hv.1] at hp
      exact hp
    have hlt : v < (b.vertices.length : Int) := hv.2
    exact ⟨p, hp', by rw [pyGet, pyIndex_nat hv.1 hlt, Option.bind_some, hp']⟩
  obtain ⟨p, hp, hgp⟩ := get hu
  obtain ⟨q, hq, hgq⟩ := get hw
  have hlen : b.graph.laneLength u w = hypot (p.x - q.x) (p.y - q.y) := by
    unfold Navgraph.laneLength
    rw [show b.graph.vertices = b.vertices from rfl, hp, hq]
  simp only [laneLength, hgp, hgq, hlen, Option.bind_eq_bind, Option.bind_some]

theorem relax_bid (hlen : s.dist.length = b.graph.vertices.length) (hu : b.graph.InRange u)
    (hw : b.graph.InRange w) (hd : s.distOf u = some cd) :
    b.relax cd u s.bid w = some (b.graph.relax (-1) u s w).bid := by
  have hne : w ≠ -1 := by
    have := hw.1
    omega
  have hlt : w < s.dist.length := by
    rw [hlen]
    exact hw.2
  unfold Bridge.relax Navgraph.relax
  rw [if_neg hne, hd, laneLength_eq hu hw]
  simp only [Search.bid, pyGet_nat hw.1 hlt none, pySet_nat hw.1 hlt, Option.bind_eq_bind,
    Option.bind_some]
  change (if below _ (s.distOf w) then _ else _) = _
  split <;> rfl

theorem relaxAll_bid (ws : List Int) : ∀ s : Search R,
    s.dist.length = b.graph.vertices.length → Covers b.graph s → b.graph.InRange u →
    (∀ w ∈ ws, b.graph.InRange w) → s.distOf u = some cd →
    ws.foldlM (b.relax cd u) s.bid = some (ws.foldl (b.graph.relax (-1) u) s).bid ∧
      (ws.foldl (b.graph.relax (-1) u) s).dist.length = b.graph.vertices.length ∧
      Covers b.graph (ws.foldl (b.graph.relax (-1) u) s) := by
  induction ws with
  | nil => exact fun s hlen hcovers _ _ _ => ⟨rfl, hlen, hcovers⟩
  | cons w ws ih =>
    intro s hlen hcovers hu hws hd
    obtain ⟨hw, hws⟩ := List.forall_mem_cons.mp hws
    have hlen' : (b.graph.relax (-1) u s w).dist.length = b.graph.vertices.length := by
      obtain ⟨hsame, -⟩ | ⟨-, -, hnew⟩ := Navgraph.relax_cases (g := b.graph) hd (-1) w
      · rwa [hsame]
      · rw [hnew, List.length_set, hlen]
    rw [List.foldlM_cons, relax_bid hlen hu hw hd]
    exact ih _ hlen' (Navgraph.relax_covers hlen hd hw hcovers _) hu hws
      (Navgraph.relax_distOf hlen hd hu hw _)

/-- The two searches go through the same rounds. -/
theorem costLoop_eq (closed : b.Closed) (hgoal : b.graph.InRange goal) (fuel : Nat) :
    ∀ {s : Search R}, s.dist.length = b.graph.vertices.length → Covers b.graph s →
      b.costLoop goal fuel s.bid =
        some ((b.graph.searchLoop goal (-1) fuel s).distOf goal) := by
  have get {s : Search R} (hlen : s.dist.length = b.graph.vertices.length) {v : Int}
      (hv : b.graph.InRange v) : pyGet s.bid.dist v = some (s.distOf v) := by
    apply pyGet_nat hv.1
    change v < (s.dist.length : Int)
    rw [hlen]
    exact hv.2
  induction fuel with
  | zero => exact fun hlen _ => get hlen hgoal
  | succ fuel ih =>
    intro s hlen hcovers
    unfold costLoop Navgraph.searchLoop
    simp only [Search.bid]
    cases hpq : s.pq with
    | nil => exact get hlen hgoal
    | cons e pq =>
      obtain ⟨cd, u⟩ := e
      obtain ⟨hu, du, hdu, hle⟩ := hcovers (cd, u) (by simp [hpq])
      have hpop : Covers b.graph { s with pq } :=
        fun e he => hcovers e (hpq ▸ List.mem_cons_of_mem _ he)
      have hdist : pyGet s.dist u = some (some du) := (get hlen hu).trans (congrArg some hdu)
      have hsame : Search.distOf { s with pq } u = some du := hdu
      dsimp only
      simp only [hdist, hsame, Option.bind_eq_bind, Option.bind_some, Option.any_some]
      split
      · exact @ih { s with pq } hlen hpop
      rename_i hcurrent
      obtain rfl : du = cd := le_antisymm hle (by simpa using hcurrent)
      split
      · rename_i hug
        rw [← hug, hsame]
      · obtain ⟨hfold, hlen', hcovers'⟩ := relaxAll_bid (b.graph.row u) { s with pq } hlen hpop hu
          (fun w hw => Navgraph.row_range hw) hsame
        have hrounds : (b.adj u).foldlM (b.relax du u) ⟨s.dist, pq⟩ =
            some ((b.graph.row u).foldl (b.graph.relax (-1) u) { s with pq }).bid := by
          rw [adj_eq closed hu]
          exact hfold
        rw [hrounds, Option.bind_some]
        exact ih hlen' hcovers'

omit [Double R] in
/-- A lane adds one entry at most to the rows. -/
theorem addLane_entries (n : Nat) (rows : List (List Int)) (lane : Int × Int) :
    ((Navgraph.addLane n rows lane).map List.length).sum ≤ (rows.map List.length).sum + 1 := by
  have grow (rows : List (List Int)) (x : Int) : ∀ i : Nat,
      ((rows.modify i (· ++ [x])).map List.length).sum ≤ (rows.map List.length).sum + 1 := by
    induction rows with
    | nil => simp
    | cons row rows ih =>
      intro i
      cases i with
      | zero => simp; omega
      | succ i =>
        have := ih i
        simp only [List.modify_succ_cons, List.map_cons, List.sum_cons]
        omega
  unfold Navgraph.addLane
  split
  · exact grow rows lane.2 _
  · omega

omit [Double R] in
theorem foldl_addLane_entries (n : Nat) (lanes : List (Int × Int)) : ∀ rows : List (List Int),
    ((lanes.foldl (Navgraph.addLane n) rows).map List.length).sum ≤
      (rows.map List.length).sum + lanes.length := by
  induction lanes with
  | nil => simp
  | cons lane lanes ih =>
    intro rows
    have hfirst := addLane_entries n rows lane
    have hrest := ih (Navgraph.addLane n rows lane)
    rw [List.foldl_cons, List.length_cons]
    omega

omit [Double R] in
/-- The console counts as many rounds as the graph has lanes. -/
theorem laneCount_le (b : Bridge R) : b.graph.laneCount ≤ b.lanes.length := by
  have hsum := foldl_addLane_entries b.vertices.length b.lanes
    (List.replicate b.vertices.length [])
  simpa [Navgraph.laneCount, graph, Navgraph.build] using hsum

/-- What `cost` says of the distance. -/
theorem cost_dist (closed : b.Closed) (hsrc : b.graph.InRange src)
    (hgoal : b.graph.InRange goal) :
    (b.cost goal src = some none ∧ ∀ d, ¬ b.graph.Dist src goal d) ∨
      ∃ d, b.cost goal src = some (some d) ∧ b.graph.Dist src goal d := by
  have hstart : b.cost goal src =
      b.costLoop goal (b.lanes.length + 1) (b.graph.startSearch src).bid := by
    have hlt : src < ((List.replicate b.vertices.length (none : Option R)).length : Int) := by
      rw [List.length_replicate]
      exact hsrc.2
    unfold cost
    rw [pySet_nat hsrc.1 hlt, Option.bind_eq_bind, Option.bind_some]
    rfl
  have hcovers : Covers b.graph (b.graph.startSearch src) := by
    intro e he
    obtain rfl := List.mem_singleton.mp he
    exact ⟨hsrc, 0, by simp [Navgraph.startSearch_distOf hsrc hsrc], le_refl 0⟩
  rw [hstart, costLoop_eq closed hgoal _ (by simp [Navgraph.startSearch]) hcovers]
  have hfuel : b.graph.laneCount + 1 ≤ b.lanes.length + 1 := Nat.succ_le_succ b.laneCount_le
  obtain ⟨-, done, h⟩ := Navgraph.startSearch_searched goal (-1) hsrc hfuel
  obtain ⟨hd, hno⟩ | ⟨d, path, hd, -, -, hleads, hcost, hleast⟩ := h.answer hsrc hgoal
  · left
    rw [hd]
    refine ⟨rfl, fun d hdist => ?_⟩
    obtain ⟨path, hpath⟩ := hdist.leads
    exact hno path (Navgraph.leads_net.mpr hpath)
  · right
    rw [hd]
    refine ⟨d, rfl, ⟨path, Navgraph.leads_net.mp hleads, hcost⟩, ?_⟩
    intro path' e hpath' he
    exact hleast path' e (Navgraph.leads_net.mpr hpath') he

omit cd in
theorem nearestFrom_eq [Euclidean R] (x y : R) (vs : List (Vertex R)) :
    ∀ (i best : Int) (near : Option (R × R)),
      nearestFrom x y i best (near.map fun p => p.1 * p.1 + p.2 * p.2) vs =
        Navgraph.nearestFrom x y i best (near.map fun p => hypot p.1 p.2) vs := by
  induction vs with
  | nil => exact fun _ _ _ => rfl
  | cons v vs ih =>
    intro i best near
    have hbelow : below ((v.x - x) * (v.x - x) + (v.y - y) * (v.y - y))
        (near.map fun p => p.1 * p.1 + p.2 * p.2) =
        below (hypot (v.x - x) (v.y - y)) (near.map fun p => hypot p.1 p.2) := by
      cases near with
      | none => rfl
      | some p => simp [below, hypot_lt_iff]
    unfold nearestFrom Navgraph.nearestFrom
    dsimp only
    rw [hbelow]
    split
    · exact ih (i + 1) i (some (v.x - x, v.y - y))
    · exact ih (i + 1) best near

/-- Comparing squares finds the vertex that comparing distances finds. -/
theorem nearest_eq [Euclidean R] (same : b.vertices = g.vertices) (hne : g.vertices ≠ [])
    (x y : R) : b.nearest x y = some (g.nearest x y) := by
  unfold nearest Navgraph.nearest
  rw [same, if_neg hne]
  exact congrArg some (nearestFrom_eq x y g.vertices 0 (-1) none)

/-- The cost of the console is the length of the path that the fleet's search finds, and infinite
where it finds none. -/
theorem cost_eq (closed : b.Closed) (hsrc : b.graph.InRange src) (hgoal : b.graph.InRange goal) :
    b.cost goal src = some (if b.graph.dijkstra src goal (-1) = [] then none
      else b.graph.pathCost (b.graph.dijkstra src goal (-1))) := by
  by_cases hempty : b.graph.dijkstra src goal (-1) = []
  · rw [if_pos hempty]
    have hno (d : R) : ¬ b.graph.Dist src goal d := by
      intro hdist
      obtain ⟨path, hpath⟩ := hdist.leads
      obtain ⟨-, hnone⟩ | ⟨hleads, -⟩ := Navgraph.dijkstra_shortest hsrc hgoal (-1)
      · exact hnone path (Navgraph.leads_net.mpr hpath)
      · rw [hempty] at hleads
        cases hleads.head
    obtain ⟨hcost, -⟩ | ⟨d, -, hdist⟩ := cost_dist closed hsrc hgoal
    · exact hcost
    · exact absurd hdist (hno d)
  · rw [if_neg hempty]
    obtain ⟨-, hnil, -⟩ | ⟨d, hdist, hlength, -⟩ := Navgraph.dijkstra_dist hsrc hgoal
    · exact absurd hnil hempty
    obtain ⟨-, hno⟩ | ⟨d', hcost, hdist'⟩ := cost_dist closed hsrc hgoal
    · exact absurd hdist (hno d)
    · rw [hcost, hlength, hdist'.unique hdist]

end Bridge

/-- On the lists of the console, its popup and the fleet find the same nearest vertex and the same
cost from there, which is infinite exactly where the fleet finds no path. -/
theorem cost_nearest [Double R] [Euclidean R] {b : Bridge R} (closed : b.Closed) {goal : Int}
    (hgoal : b.graph.InRange goal) (x y : R) :
    b.nearest x y = some (b.graph.nearest x y) ∧
    b.cost goal (b.graph.nearest x y) = some (
      if b.graph.dijkstra (b.graph.nearest x y) goal (-1) = [] then none
      else b.graph.pathCost (b.graph.dijkstra (b.graph.nearest x y) goal (-1))) ∧
    (b.cost goal (b.graph.nearest x y) = some none ↔
      b.graph.dijkstra (b.graph.nearest x y) goal (-1) = []) := by
  have hne := Navgraph.vertices_ne_nil hgoal
  have hsrc := Navgraph.nearest_inRange hne x y
  have hcost := Bridge.cost_eq closed hsrc hgoal
  refine ⟨Bridge.nearest_eq rfl hne x y, hcost, ?_⟩
  rw [hcost]
  split
  · rename_i hempty
    simp [hempty]
  · rename_i hempty
    obtain ⟨-, hnil, -⟩ | ⟨d, -, hlength, -⟩ := Navgraph.dijkstra_dist hsrc hgoal
    · exact absurd hnil hempty
    · simp [hlength, hempty]

/-- A lane from the first vertex to the second, and none back. -/
theorem cost_nearest_two : ∃ b : Bridge ℝ, b.lanes = [(0, 1)] ∧ b.Closed ∧
    b.nearest 0 0 = some (b.graph.nearest 0 0) ∧ (b.cost 1 (b.graph.nearest 0 0) = some none ↔
      b.graph.dijkstra (b.graph.nearest 0 0) 1 (-1) = []) := by
  let b : Bridge ℝ := ⟨[], [⟨0, 0⟩, ⟨3, 4⟩], [(0, 1)], by simp⟩
  have closed : b.Closed := by
    intro l hl
    obtain rfl := List.mem_singleton.mp hl
    exact ⟨by decide, by decide⟩
  obtain ⟨hnear, -, hinf⟩ := @cost_nearest ℝ _ _ b closed 1 (by decide) 0 0
  exact ⟨b, rfl, closed, hnear, hinf⟩

/-- The first of a sorted list is, of the least elements, the one that came first. -/
theorem head_insertionSort {α β : Type} [LinearOrder β] (key : α → β) (l : List α) :
    (l = [] ∧ l.insertionSort (key · ≤ key ·) = []) ∨
      ∃ (i : Nat) (a : α) (rest : List α), l.insertionSort (key · ≤ key ·) = a :: rest ∧
        l[i]? = some a ∧
        (∀ (j : Nat) x, j < i → l[j]? = some x → key a < key x) ∧ ∀ x ∈ l, key a ≤ key x := by
  induction l with
  | nil => exact .inl ⟨rfl, rfl⟩
  | cons a l ih =>
    right
    rw [List.insertionSort_cons]
    obtain ⟨rfl, hsort⟩ | ⟨i, h, rest, hsort, hi, hbefore, hleast⟩ := ih
    · exact ⟨0, a, [], by rw [hsort]; rfl, rfl, by simp, by simp⟩
    · rw [hsort, List.orderedInsert_cons]
      split
      · rename_i hle
        refine ⟨0, a, h :: rest, rfl, rfl, by simp, ?_⟩
        exact List.forall_mem_cons.mpr ⟨le_refl _, fun x hx => hle.trans (hleast x hx)⟩
      · rename_i hlt
        rw [not_le] at hlt
        refine ⟨i + 1, h, _, rfl, hi, ?_, List.forall_mem_cons.mpr ⟨hlt.le, hleast⟩⟩
        intro j x hj hx
        cases j with
        | zero => exact Option.some.inj hx ▸ hlt
        | succ j => exact hbefore j x (by omega) hx

/-! ## The announcement -/

section Mirror

variable [Double R] {g g' : Navgraph R} {a b : Int} {d : R}

omit [Double R] in
theorem vertex_congr (same : g.vertices = g'.vertices) (v : Int) : g.vertex v = g'.vertex v := by
  unfold Navgraph.vertex
  rw [same]

theorem pathCostFrom_congr (same : g.vertices = g'.vertices) : ∀ (path : List Int) (c : R),
    g.pathCostFrom c path = g'.pathCostFrom c path
  | [], _ => rfl
  | [_], _ => rfl
  | u :: v :: rest, c => by
    simp only [Navgraph.pathCostFrom, vertex_congr same, pathCostFrom_congr same (v :: rest)]

/-- Distances depend on the places of the vertices and on which lanes there are. -/
theorem Navgraph.Dist.congr (same : g.vertices = g'.vertices)
    (lanes : ∀ u v, g.Lane u v ↔ g'.Lane u v) (h : g.Dist a b d) : g'.Dist a b d := by
  have walks (path : List Int) : Leads g.Lane a b path ↔ Leads g'.Lane a b path := by
    have hsteps : g.Lane = g'.Lane := by
      funext u v
      exact propext (lanes u v)
    rw [hsteps]
  obtain ⟨path, hpath, hcost⟩ := h.path
  constructor
  · exact ⟨path, (walks path).mp hpath, (pathCostFrom_congr same path 0).symm.trans hcost⟩
  · intro path e hpath he
    exact h.least path e ((walks path).mpr hpath) ((pathCostFrom_congr same path 0).trans he)

end Mirror

section Announce

variable [Double R] {b : Bridge R} {s : FleetNode R} {goal : Int} {w w' : String} {d d' : R}

/-- The console and the node agree on the graph and on where the robots are. -/
structure Bridge.Mirrors (b : Bridge R) (s : FleetNode R) : Prop where
  vertices : b.vertices = s.graph.vertices
  lanes : ∀ u v, (u, v) ∈ b.lanes ↔ s.graph.Lane u v
  robots : ∀ name x y, (name, x, y) ∈ b.robots ↔
    ∃ r, s.robots[name]? = some r ∧ r.x = x ∧ r.y = y

/-- The goal is `d` away from the vertex nearest to the robot. -/
structure FleetNode.Away (s : FleetNode R) (goal : Int) (robot : String) (d : R) : Prop where
  known : robot ∈ s.robots
  dist : s.graph.Dist (s.graph.nearest (s.robot robot).x (s.robot robot).y) goal d

theorem FleetNode.Reaches.away {arm : Int} (h : s.Reaches goal arm w d) : s.Away goal w d :=
  ⟨h.known, h.dist⟩

namespace Bridge

omit [Double R] in
theorem Mirrors.inRange (agree : b.Mirrors s) (v : Int) :
    b.graph.InRange v ↔ s.graph.InRange v := by
  unfold Navgraph.InRange Navgraph.size
  rw [show b.graph.vertices = s.graph.vertices from agree.vertices]

omit [Double R] in
theorem Mirrors.closed (agree : b.Mirrors s) : b.Closed := by
  intro l hl
  have hlane := (agree.lanes l.1 l.2).mp hl
  exact ⟨(agree.inRange _).mpr hlane.1, (agree.inRange _).mpr hlane.target⟩

omit [Double R] in
theorem Mirrors.lane (agree : b.Mirrors s) (u v : Int) :
    b.graph.Lane u v ↔ s.graph.Lane u v := by
  rw [← agree.lanes]
  constructor
  · intro h
    exact (Navgraph.build_lane.mp h).1
  · intro h
    obtain ⟨hu, hv⟩ := agree.closed (u, v) h
    exact Navgraph.build_lane.mpr ⟨h, hu, hv⟩

theorem Mirrors.dist (agree : b.Mirrors s) {u v : Int} :
    b.graph.Dist u v d ↔ s.graph.Dist u v d := by
  have same : b.graph.vertices = s.graph.vertices := agree.vertices
  constructor
  · exact Navgraph.Dist.congr same agree.lane
  · exact Navgraph.Dist.congr same.symm fun u v => (agree.lane u v).symm

/-- The bid of a robot of the console is its distance, rounded. -/
theorem bidOf_spec [Euclidean R] (agree : b.Mirrors s) (hgoal : s.graph.InRange goal)
    {r : String × R × R} (hr : r ∈ b.robots) :
    ∃ e, b.bidOf goal r = some e ∧ e.robot = r.1 ∧
      ((e.bid = none ∧ ∀ d, ¬ s.Away goal r.1 d) ∨
        ∃ d, e.bid = some (round2 d) ∧ s.Away goal r.1 d) := by
  obtain ⟨name, x, y⟩ := r
  obtain ⟨entry, hentry, rfl, rfl⟩ := (agree.robots name x y).mp hr
  have hrobot : s.robot name = entry := Ledger.robot_eq hentry
  have hknown : name ∈ s.robots :=
    ExtTreeMap.mem_iff_isSome_getElem?.mpr (by rw [hentry]; rfl)
  have hne := Navgraph.vertices_ne_nil hgoal
  have hsrc : b.graph.InRange (s.graph.nearest entry.x entry.y) :=
    (agree.inRange _).mpr (Navgraph.nearest_inRange hne _ _)
  unfold bidOf
  rw [nearest_eq agree.vertices hne]
  simp only [Option.bind_eq_bind, Option.bind_some]
  obtain ⟨hcost, hno⟩ | ⟨d, hcost, hdist⟩ :=
    cost_dist agree.closed hsrc ((agree.inRange _).mpr hgoal)
  · rw [hcost]
    refine ⟨_, rfl, rfl, .inl ⟨rfl, ?_⟩⟩
    intro d haway
    have hdist := haway.dist
    rw [hrobot] at hdist
    exact hno d (agree.dist.mpr hdist)
  · rw [hcost]
    refine ⟨_, rfl, rfl, .inr ⟨d, rfl, hknown, ?_⟩⟩
    rw [hrobot]
    exact agree.dist.mp hdist

/-- Of the robots whose distance is least after rounding, `w` is the first in the `dict`. -/
structure First (b : Bridge R) (s : FleetNode R) (goal : Int) (w : String) (d : R) : Prop where
  away : s.Away goal w d
  place : ∃ (i : Nat) (r : String × R × R), b.robots[i]? = some r ∧ r.1 = w ∧
    ∀ (j : Nat) (r' : String × R × R) (e : R), j < i → b.robots[j]? = some r' →
      s.Away goal r'.1 e → round2 d < round2 e
  least : ∀ r ∈ b.robots, ∀ e, s.Away goal r.1 e → round2 d ≤ round2 e

theorem First.unique (h : First b s goal w d) (h' : First b s goal w' d') : d = d' := by
  obtain ⟨i, r, hi, rfl, hbefore⟩ := h.place
  obtain ⟨i', r', hi', rfl, hbefore'⟩ := h'.place
  have hle := h.least r' (List.mem_of_getElem? hi') d' h'.away
  have hle' := h'.least r (List.mem_of_getElem? hi) d h.away
  obtain hlt | heq | hlt := lt_trichotomy i i'
  · exact absurd (hbefore' i r d hlt hi h.away) (not_lt.mpr hle)
  · subst heq
    rw [hi] at hi'
    cases hi'
    exact h.away.dist.unique h'.away.dist
  · exact absurd (hbefore i' r' d' hlt hi' h'.away) (not_lt.mpr hle')

/-- The winner of the bids. -/
theorem bidScores_winner [Euclidean R] (agree : b.Mirrors s) (hgoal : s.graph.InRange goal) :
    ∃ scores, b.bidScores goal = some scores ∧
      ((scores.winner = none ∧ ∀ robot d, ¬ s.Away goal robot d) ∨
        ∃ w d, scores.winner = some w ∧ First b s goal w d) := by
  let bid (r : String × R × R) : Bid R := (b.bidOf goal r).getD ⟨"", 0, none⟩
  have hbid : ∀ r ∈ b.robots, b.bidOf goal r = some (bid r) ∧ (bid r).robot = r.1 ∧
      (((bid r).bid = none ∧ ∀ d, ¬ s.Away goal r.1 d) ∨
        ∃ d, (bid r).bid = some (round2 d) ∧ s.Away goal r.1 d) := by
    intro r hr
    obtain ⟨e, he, hspec⟩ := bidOf_spec agree hgoal hr
    have hsame : bid r = e := by simp only [bid, he, Option.getD_some]
    rw [hsame]
    exact ⟨he, hspec⟩
  have hall : b.robots.mapM (b.bidOf goal) = some (b.robots.map bid) :=
    mapM_eq_map fun r hr => (hbid r hr).1
  have hmember (robot : String) (d : R) (haway : s.Away goal robot d) :
      ∃ r ∈ b.robots, r.1 = robot := by
    obtain ⟨entry, hentry⟩ := Ledger.exists_entry haway.known
    exact ⟨(robot, entry.x, entry.y), (agree.robots _ _ _).mpr ⟨entry, hentry, rfl, rfl⟩, rfl⟩
  unfold bidScores
  rw [hall]
  simp only [Option.bind_eq_bind, Option.bind_some]
  refine ⟨_, rfl, ?_⟩
  obtain ⟨hnil, hsort⟩ | ⟨i, e, rest, hsort, hi, hbefore, hleast⟩ :=
    head_insertionSort sortKey (b.robots.map bid)
  · left
    rw [hsort]
    refine ⟨rfl, fun robot d haway => ?_⟩
    obtain ⟨r, hr, -⟩ := hmember robot d haway
    rw [List.map_eq_nil_iff.mp hnil] at hr
    cases hr
  rw [hsort]
  rw [List.getElem?_map] at hi
  obtain ⟨r, hplace, rfl⟩ := Option.map_eq_some_iff.mp hi
  have hr := List.mem_of_getElem? hplace
  obtain ⟨-, hname, hcase⟩ := hbid r hr
  have key (r' : String × R × R) (hr' : r' ∈ b.robots) (e : R) (haway : s.Away goal r'.1 e) :
      (bid r').bid = some (round2 e) := by
    obtain ⟨-, -, ⟨-, hno⟩ | ⟨e', he', haway'⟩⟩ := hbid r' hr'
    · exact absurd haway (hno e)
    · rw [he', haway.dist.unique haway'.dist]
  obtain ⟨hnone, hno⟩ | ⟨d, hd, haway⟩ := hcase
  · left
    refine ⟨by simp [hnone], fun robot d haway => ?_⟩
    obtain ⟨r', hr', rfl⟩ := hmember robot d haway
    -- an infinite bid comes after every finite one
    have hle := hleast (bid r') (List.mem_map_of_mem hr')
    simp only [sortKey, hnone, key r' hr' d haway, Prod.Lex.toLex_le_toLex, Option.isNone_none,
      Option.isNone_some, Bool.true_eq_false, false_and, or_false] at hle
    exact absurd hle (by decide)
  · right
    refine ⟨r.1, d, by simp [hd, hname], haway, ⟨i, r, hplace, rfl, ?_⟩, ?_⟩
    · intro j r' e hj hr' haway'
      have hlt := hbefore j (bid r') hj (by rw [List.getElem?_map, hr']; rfl)
      simpa [sortKey, hd, key r' (List.mem_of_getElem? hr') e haway',
        Prod.Lex.toLex_lt_toLex] using hlt
    · intro r' hr' e haway'
      have hle := hleast (bid r') (List.mem_map_of_mem hr')
      simpa [sortKey, hd, key r' hr' e haway', Prod.Lex.toLex_le_toLex] using hle

end Bridge

variable {req : SubmitRequest}

/-- The submission is answered, and not accepted. -/
def FleetNode.Rejects (s : FleetNode R) (req : SubmitRequest) : Prop :=
  ∃ s' res, s.onSubmit req = some (s', res) ∧ res.accepted = false

/-- The submission is accepted, for a robot that is `d` away from the goal. -/
def FleetNode.Assigns (s : FleetNode R) (req : SubmitRequest) (d : R) : Prop :=
  ∃ s' res t, s.onSubmit req = some (s', res) ∧ res.accepted = true ∧
    s'.tasks.getLast? = some t ∧ t.id = res.taskId ∧ s.Away (FleetNode.goalOf req) t.robot d

theorem FleetNode.Rejects.not_assigns (h : s.Rejects req) : ¬ s.Assigns req d := by
  obtain ⟨s₁, res₁, h₁, hrejected⟩ := h
  rintro ⟨s₂, res₂, t, h₂, haccepted, -⟩
  rw [h₁] at h₂
  cases h₂
  rw [hrejected] at haccepted
  cases haccepted

theorem FleetNode.Assigns.unique (h : s.Assigns req d) (h' : s.Assigns req d') : d = d' := by
  obtain ⟨s₁, res₁, t₁, h₁, -, ht₁, -, haway₁⟩ := h
  obtain ⟨s₂, res₂, t₂, h₂, -, ht₂, -, haway₂⟩ := h'
  rw [h₁] at h₂
  cases h₂
  rw [ht₁] at ht₂
  cases ht₂
  exact haway₁.dist.unique haway₂.dist

/-- A submission that names no robot is given to the nearest robot that is free. It is rejected
where there is none, and where a robot without a name is as near. -/
theorem FleetNode.onSubmit_unnamed (hl : Ledger s) (auction : s.dispatcher = Auction.assign)
    (hgoal : s.graph.InRange (goalOf req)) (unnamed : req.robot = "") :
    (∃ robot d, s.Assigns req d ∧ robot ≠ "" ∧ s.Free robot ∧
        s.Reaches (goalOf req) (armActionsOf req) robot d ∧
        (∀ robot' d', s.Free robot' → s.Reaches (goalOf req) (armActionsOf req) robot' d' →
          d ≤ d') ∧
        ∀ d', s.Free "" → s.Reaches (goalOf req) (armActionsOf req) "" d' → d < d') ∨
      s.Rejects req ∧
        ((∀ robot d, s.Free robot → ¬ s.Reaches (goalOf req) (armActionsOf req) robot d) ∨
          ∃ d, s.Free "" ∧ s.Reaches (goalOf req) (armActionsOf req) "" d ∧
            ∀ robot' d', s.Free robot' → s.Reaches (goalOf req) (armActionsOf req) robot' d' →
              d ≤ d') := by
  obtain ⟨robot, d, hselect, hne, hfree, hreaches, hleast, hempty⟩ | ⟨⟨reason, hselect⟩, hno⟩ :=
    selectRobot_unnamed hl auction hgoal (armActionsOf req)
  · left
    rw [← unnamed] at hselect
    obtain ⟨path, hcheck⟩ := (checkRoute_iff hgoal hreaches.known).mpr ⟨d, hreaches⟩
    generalize haccept : s.accept req robot path (armActionsOf req) = out
    obtain ⟨s', res⟩ := out
    obtain ⟨hsubmit, haccepted⟩ := (onSubmit_accepts hl hgoal).mpr
      ⟨robot, path, hselect, hcheck, haccept⟩
    obtain ⟨t, ht, -, hid, rfl⟩ := accept_task haccept
    exact ⟨t.robot, d, ⟨s', res, t, hsubmit, haccepted, ht, hid, hreaches.away⟩, hne, hfree,
      hreaches, hleast, hempty⟩
  · right
    refine ⟨⟨s, .rejected reason, ?_, rfl⟩, hno⟩
    have hvertex : ¬ (goalOf req < 0 ∨ s.graph.size ≤ goalOf req) := by
      have h0 := hgoal.1
      have h1 := hgoal.2
      omega
    unfold onSubmit
    dsimp only
    rw [if_neg hvertex, unnamed, hselect]
    rfl

/-! ## The popup and the node -/

namespace Bridge

/-- What the popup announces is what the node does: it rejects the submission where nobody is
announced, and gives it to a robot as near as the one that is. -/
def Announces (b : Bridge R) (s : FleetNode R) (req : SubmitRequest) : Prop :=
  ∃ scores, b.bidScores (goalOf req) = some scores ∧
    (scores.winner = none → s.Rejects req) ∧
    ∀ w, scores.winner = some w → ∃ d, s.Away (goalOf req) w d ∧ s.Assigns req d

/-- No robot can get to the goal, or the first of the robots with the least rounded distance is as
far from it as the nearest of those that are free and have the battery, which has a name. -/
def Truthful (b : Bridge R) (s : FleetNode R) (goal : Int) : Prop :=
  (∀ robot d, ¬ s.Away goal robot d) ∨
    ∃ w d, First b s goal w d ∧
      (∃ robot, robot ≠ "" ∧ s.Free robot ∧ s.Reaches goal 0 robot d) ∧
      (∀ robot e, s.Free robot → s.Reaches goal 0 robot e → d ≤ e) ∧
      (s.Free "" → ¬ s.Reaches goal 0 "" d)

end Bridge

theorem announces_iff [Euclidean R] {p : Setup R} (hs : (fleet p).Reach (fun _ cb => cb.Offers) s)
    (auction : s.dispatcher = Auction.assign) (agree : b.Mirrors s)
    (hgoal : s.graph.InRange (goalOf req)) (unnamed : req.robot = "")
    (armless : req.armActions = 0) :
    b.Announces s req ↔ b.Truthful s (goalOf req) := by
  have hl : Ledger s := reach_ledger (c := .idle s) (fun _ _ h => h) (reach_ticks hs)
  have harm : armActionsOf req = 0 := by simp [armActionsOf, armless]
  obtain ⟨scores, hscores, hwinner⟩ := b.bidScores_winner agree hgoal
  have hnode := FleetNode.onSubmit_unnamed hl auction hgoal unnamed
  rw [harm] at hnode
  constructor
  · rintro ⟨scores', hscores', -, hannounced⟩
    rw [hscores] at hscores'
    obtain rfl := Option.some.inj hscores'
    obtain ⟨-, hno⟩ | ⟨w, d, hw, hfirst⟩ := hwinner
    · exact .inl hno
    obtain ⟨d', haway, hassigned⟩ := hannounced w hw
    obtain rfl := hfirst.away.dist.unique haway.dist
    obtain ⟨robot, e, hassigned', hne, hfree, hreaches, hleast, hempty⟩ | ⟨hrejects, -⟩ := hnode
    · obtain rfl : d = e := hassigned.unique hassigned'
      exact .inr ⟨w, d, hfirst, ⟨robot, hne, hfree, hreaches⟩, hleast,
        fun hfree' hreaches' => lt_irrefl _ (hempty d hfree' hreaches')⟩
    · exact absurd hassigned hrejects.not_assigns
  · intro htruthful
    refine ⟨scores, hscores, ?_⟩
    obtain ⟨hnone, hno⟩ | ⟨w, d, hw, hfirst⟩ := hwinner
    · rw [hnone]
      refine ⟨fun _ => ?_, by simp⟩
      obtain ⟨robot, e, -, -, -, hreaches, -⟩ | ⟨hrejects, -⟩ := hnode
      · exact absurd hreaches.away (hno robot e)
      · exact hrejects
    · rw [hw]
      refine ⟨by simp, fun w' hw' => ?_⟩
      obtain rfl := Option.some.inj hw'
      obtain hno | ⟨w', d', hfirst', ⟨robot, hne, hfree, hreaches⟩, hleast, hempty⟩ := htruthful
      · exact absurd hfirst.away (hno w d)
      obtain rfl := hfirst.unique hfirst'
      refine ⟨d, hfirst.away, ?_⟩
      obtain ⟨robot', e, hassigned, -, hfree', hreaches', hleast', -⟩ | ⟨-, hno | hnameless⟩ :=
        hnode
      · have hsame : e = d :=
          le_antisymm (hleast' robot d hfree hreaches) (hleast robot' e hfree' hreaches')
        exact hsame ▸ hassigned
      · exact absurd hreaches (hno robot d hfree)
      · obtain ⟨e, hfree', hreaches', hleast'⟩ := hnameless
        have hsame : e = d :=
          le_antisymm (hleast' robot d hfree hreaches) (hleast "" e hfree' hreaches')
        exact absurd (hsame ▸ hreaches') (hempty hfree')

omit [Double R] in
theorem mirrors_of (graph : s.graph = b.graph) (closed : b.Closed)
    (robots : ∀ name x y, (name, x, y) ∈ b.robots ↔
      ∃ r, s.robots[name]? = some r ∧ r.x = x ∧ r.y = y) : b.Mirrors s where
  vertices := by
    rw [graph]
    rfl
  lanes := by
    intro u v
    rw [graph]
    refine Iff.trans ?_ Navgraph.build_lane.symm
    constructor
    · intro h
      exact ⟨h, closed _ h⟩
    · exact fun h => h.1
  robots

end Announce

namespace Spokes

variable (R : Type) [Double R]

/-- A goal, and three vertices with a lane to it. -/
def vertices : List (Vertex R) := [⟨0, 0⟩, ⟨5001 / 1000, 0⟩, ⟨6, 8⟩, ⟨0, 5004 / 1000⟩]

def lanes : List (Int × Int) := [(1, 0), (2, 0), (3, 0)]

def setup : Setup R := ⟨.build (vertices R) lanes, "libi", false, [], ⟨1, 1 / 2, 15⟩⟩

def seen : FleetNode R :=
  (((FleetNode.start (setup R)).onRobotState ⟨"r2", 6, 8⟩).onRobotState
    ⟨"r1", 5001 / 1000, 0⟩).onRobotState ⟨"r3", 0, 5004 / 1000⟩

/-- There is a robot at each of the three vertices, and one of them is charging. -/
def node : FleetNode R := ((seen R).onSetMode ⟨"r3", "CHARGE"⟩).1

def bridge : Bridge R :=
  ⟨[("r2", 6, 8), ("r1", 5001 / 1000, 0), ("r3", 0, 5004 / 1000)], vertices R, lanes, by simp⟩

theorem reach : (fleet (setup R)).Reach (fun _ cb => cb.Offers) (node R) :=
  .step (a := .setMode ⟨"r3", "CHARGE"⟩)
    (.step (a := .robotState ⟨"r3", 0, 5004 / 1000⟩)
      (.step (a := .robotState ⟨"r1", 5001 / 1000, 0⟩)
        (.step (a := .robotState ⟨"r2", 6, 8⟩) .start trivial rfl) trivial rfl) trivial rfl)
    trivial rfl

variable {R}

theorem inRange {v : Int} (hv : 0 ≤ v ∧ v < 4) : (node R).graph.InRange v := hv

theorem closed {l : Int × Int} (hl : l ∈ lanes) :
    (node R).graph.InRange l.1 ∧ (node R).graph.InRange l.2 := by
  have hlanes : ∀ l ∈ lanes, (0 ≤ l.1 ∧ l.1 < 4) ∧ 0 ≤ l.2 ∧ l.2 < 4 := by decide
  obtain ⟨hfrom, hto⟩ := hlanes l hl
  exact ⟨inRange hfrom, inRange hto⟩

theorem robots_eq (k : String) : (node R).robots[k]? =
    if "r3" = k then some ⟨"r3", 0, 5004 / 1000, 100, false, ""⟩
    else if "r1" = k then some ⟨"r1", 5001 / 1000, 0, 100, false, ""⟩
    else if "r2" = k then some ⟨"r2", 6, 8, 100, false, ""⟩ else none := by
  change (seen R).robots[k]? = _
  simp [seen, FleetNode.onRobotState_robots, FleetCore.robot, ExtTreeMap.getD_eq_getD_getElem?,
    FleetNode.start, RobotInfo.new]

theorem modeOf_eq (k : String) : (node R).modeOf k = if "r3" = k then .charge else .idle := by
  have hmap : (node R).robotMode = (seen R).robotMode.insert "r3" .charge := rfl
  rw [FleetCore.modeOf, hmap, ExtTreeMap.getD_insert]
  by_cases h3 : "r3" = k
  · simp [h3]
  · simp [h3, seen, setup, FleetNode.onRobotState, FleetNode.start, ExtTreeMap.getD_insert]

theorem mirrors : (bridge R).Mirrors (node R) := by
  refine mirrors_of rfl (fun _ hl => closed hl) ?_
  intro name x y
  rw [robots_eq]
  constructor
  · intro h
    obtain ⟨rfl, rfl, rfl⟩ | ⟨rfl, rfl, rfl⟩ | ⟨rfl, rfl, rfl⟩ : name = "r2" ∧ x = 6 ∧ y = 8 ∨
        name = "r1" ∧ x = 5001 / 1000 ∧ y = 0 ∨ name = "r3" ∧ x = 0 ∧ y = 5004 / 1000 := by
      simpa [bridge] using h
    · simp
    · simp
    · simp
  · rintro ⟨r, hr, rfl, rfl⟩
    split at hr
    · simp [bridge, ← Option.some.inj hr, *]
    split at hr
    · simp [bridge, ← Option.some.inj hr, *]
    split at hr
    · simp [bridge, ← Option.some.inj hr, *]
    · cases hr

theorem lane_goal {v : Int} (hv : (v, 0) ∈ lanes) : (node R).graph.Lane v 0 :=
  Navgraph.build_lane.mpr ⟨hv, closed hv⟩

variable [Euclidean R]

/-- A robot at a vertex is as far from the goal as its lane is long. -/
theorem away {robot : String} {r : RobotInfo R} {v : Int} {d : R}
    (hr : (node R).robots[robot]? = some r) (hv : (v, 0) ∈ lanes)
    (place : (node R).graph.vertex v = some ⟨r.x, r.y⟩)
    (near : (node R).graph.nearest r.x r.y = v) (hd : 0 ≤ d)
    (hlen : d * d = r.x * r.x + r.y * r.y) : (node R).Away 0 robot d := by
  refine ⟨ExtTreeMap.mem_iff_isSome_getElem?.mpr (by rw [hr]; rfl), ?_⟩
  have hdist := Navgraph.dist_lane (lane_goal hv) place (show _ = some ⟨0, 0⟩ from rfl)
  rw [sub_zero, sub_zero, hypot_exact _ _ _ hd hlen] at hdist
  rwa [Ledger.robot_eq hr, near]

theorem away_r2 : (node R).Away 0 "r2" 10 := by
  refine away (v := 2) (robots_eq _) (by decide) rfl ?_ (by norm_num) (by norm_num)
  change Navgraph.nearestFrom _ _ 0 (-1) none (vertices R) = 2
  simp [vertices, Navgraph.nearestFrom, below, hypot_lt_iff]
  norm_num

theorem away_r1 : (node R).Away 0 "r1" (5001 / 1000) := by
  refine away (v := 1) (robots_eq _) (by decide) rfl ?_ (by norm_num) (by norm_num)
  change Navgraph.nearestFrom _ _ 0 (-1) none (vertices R) = 1
  simp [vertices, Navgraph.nearestFrom, below, hypot_lt_iff]
  norm_num

theorem away_r3 : (node R).Away 0 "r3" (5004 / 1000) := by
  refine away (v := 3) (robots_eq _) (by decide) rfl ?_ (by norm_num) (by norm_num)
  change Navgraph.nearestFrom _ _ 0 (-1) none (vertices R) = 3
  simp [vertices, Navgraph.nearestFrom, below, hypot_lt_iff]
  norm_num

theorem away_cases {robot : String} {d : R} (h : (node R).Away 0 robot d) :
    robot = "r2" ∧ d = 10 ∨ robot = "r1" ∧ d = 5001 / 1000 ∨
      robot = "r3" ∧ d = 5004 / 1000 := by
  have hk := h.known
  rw [ExtTreeMap.mem_iff_isSome_getElem?, robots_eq] at hk
  split at hk
  · subst_vars
    exact .inr (.inr ⟨rfl, h.dist.unique away_r3.dist⟩)
  split at hk
  · subst_vars
    exact .inr (.inl ⟨rfl, h.dist.unique away_r1.dist⟩)
  split at hk
  · subst_vars
    exact .inl ⟨rfl, h.dist.unique away_r2.dist⟩
  · cases hk

omit [Euclidean R] in
/-- The distances as the popup shows them. -/
theorem rounded : round2 (5001 / 1000 : R) = 5 ∧ round2 (5004 / 1000 : R) = 5 ∧
    round2 (10 : R) = 10 := by
  have hround {x : R} {n : Int} (hlow : n ≤ x * 100) (hhigh : x * 100 < n + 1 / 2) :
      round2 x = n / 100 := by rw [round2, roundHalfEven_eq hlow hhigh]
  refine ⟨(hround (n := 500) ?_ ?_).trans ?_, (hround (n := 500) ?_ ?_).trans ?_,
    (hround (n := 1000) ?_ ?_).trans ?_⟩ <;> norm_num

theorem first : Bridge.First (bridge R) (node R) 0 "r1" (5001 / 1000) := by
  obtain ⟨h1, h3, h2⟩ := rounded (R := R)
  refine ⟨away_r1, ⟨1, _, rfl, rfl, ?_⟩, ?_⟩
  · intro j r e hj hr h
    obtain rfl : j = 0 := by omega
    obtain rfl := Option.some.inj hr
    rw [h.dist.unique away_r2.dist, h1, h2]
    norm_num
  · intro r _ e h
    obtain ⟨-, rfl⟩ | ⟨-, rfl⟩ | ⟨-, rfl⟩ := away_cases h
    · rw [h1, h2]
      norm_num
    · exact le_refl _
    · rw [h1, h3]

theorem truthful : (bridge R).Truthful (node R) 0 := by
  refine .inr ⟨"r1", _, first, ⟨"r1", by simp, ⟨by simp [modeOf_eq], by simp [modeOf_eq], ?_⟩,
    away_r1.known, away_r1.dist, ?_⟩, ?_, ?_⟩
  · intro t ht
    cases ht
  · rw [Ledger.robot_eq (robots_eq "r1")]
    change (5001 / 1000 : R) * 1 + ((0 : ℤ) : R) * (1 / 2) + 15 ≤ 100
    norm_num
  · intro robot e hfree h
    obtain ⟨-, rfl⟩ | ⟨-, rfl⟩ | ⟨-, rfl⟩ := away_cases h.away
    · norm_num
    · exact le_refl _
    · norm_num
  · intro _ h
    simpa using away_cases h.away

end Spokes

/-- Of three robots `r2` is the farthest, `r1` is nearer than `r3` by less than the rounding shows,
and `r3` is charging. -/
theorem announces_iff_spokes : ∃ (s : FleetNode ℝ) (b : Bridge ℝ), b.Mirrors s ∧
    b.robots.map (·.1) = ["r2", "r1", "r3"] ∧ s.modeOf "r3" = .charge ∧
    s.Away 0 "r2" 10 ∧ s.Away 0 "r1" (5001 / 1000) ∧ s.Away 0 "r3" (5004 / 1000) ∧
    round2 (5001 / 1000 : ℝ) = round2 (5004 / 1000 : ℝ) ∧ b.Announces s ⟨"0", "", "", 0, 0⟩ := by
  have announces : (Spokes.bridge ℝ).Announces (Spokes.node ℝ) ⟨"0", "", "", 0, 0⟩ :=
    (announces_iff (Spokes.reach ℝ) rfl Spokes.mirrors (Spokes.inRange (by decide)) rfl
      rfl).mpr Spokes.truthful
  obtain ⟨h1, h3, -⟩ := Spokes.rounded (R := ℝ)
  exact ⟨Spokes.node ℝ, Spokes.bridge ℝ, Spokes.mirrors, rfl, by simp [Spokes.modeOf_eq],
    Spokes.away_r2, Spokes.away_r1, Spokes.away_r3, h1.trans h3.symm, announces⟩

/-- The robot stands at vertex 0 of the yard and is stopped. It is announced for vertex 1, and the
node has no robot to send there. -/
theorem announced_stopped : ¬ ∀ (p : Setup ℚ) (s : FleetNode ℚ) (b : Bridge ℚ)
    (req : SubmitRequest), (fleet p).Reach (fun _ cb => cb.Plain) s → b.Mirrors s →
    s.graph.InRange (goalOf req) → req.robot = "" → req.armActions = 0 → b.Announces s req := by
  intro h
  let req : SubmitRequest := ⟨"1", "", "", 0, 0⟩
  let b : Bridge ℚ := ⟨[("r1", 0, 0)], Yard.graph.vertices, [(0, 1), (1, 0), (1, 2), (2, 1), (0, 3),
    (3, 0), (3, 4), (4, 3), (4, 2), (2, 4), (1, 5), (5, 1)], by simp⟩
  obtain ⟨s, hs, hcheck⟩ := (fleet (Yard.setup false [])).exists_reach (fun _ cb => cb.Plain)
    (fun s => decide (s.graph.vertices = b.graph.vertices ∧ s.graph.adj = b.graph.adj ∧
      (s.robots.toList.map fun kv => (kv.1, kv.2.x, kv.2.y)) = b.robots ∧
      (s.onSubmit req).any (fun out => !out.2.accepted) = true ∧
      (b.bidScores 1).any (fun scores => scores.winner = some "r1") = true))
    [Yard.seen "r1" 0 0, Yard.mode "r1" "STOP"] (by decide +kernel)
  obtain ⟨hvertices, hadj, hrobots, hrejected, hwinner⟩ := of_decide_eq_true hcheck
  have hgraph : s.graph = b.graph := Navgraph.ext_lists hvertices hadj
  have agree : b.Mirrors s := by
    apply mirrors_of hgraph
    · decide
    intro name x y
    rw [← hrobots]
    simp [ExtTreeMap.mem_toList_iff_getElem?_eq_some]
  have hgoal : s.graph.InRange (goalOf req) := by
    rw [hgraph]
    decide
  obtain ⟨scores, hscores, -, hannounced⟩ := h _ s b req hs agree hgoal rfl rfl
  have hone : goalOf req = 1 := by decide
  rw [hone] at hscores
  rw [hscores, Option.any_some, decide_eq_true_eq] at hwinner
  obtain ⟨d, -, s', res, t, hsubmit, haccepted, -⟩ := hannounced "r1" hwinner
  rw [hsubmit] at hrejected
  simp [haccepted] at hrejected

end LibiFleet
