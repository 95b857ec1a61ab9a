import LibiFleet.Navgraph
import Mathlib.Data.List.Chain

/-!
# Dijkstra's search

`Navgraph::dijkstra`, with its lazy queue and its avoided vertex, and what every
path it returns looks like: it starts at `start`, ends at `goal`, runs along lanes,
never stands still and never enters the avoided vertex.
-/

namespace LibiFleet

variable {R : Type}

/-- The vectors `dist` and `prev` and the queue; `none` in `dist` is the initial
`numeric_limits<double>::max()`. -/
structure Search (R : Type) where
  dist : List (Option R)
  prev : List Int
  pq : List (R × Int)

def Search.distOf (s : Search R) (v : Int) : Option R := s.dist.getD v.toNat none

def Search.prevOf (s : Search R) (v : Int) : Int := s.prev.getD v.toNat (-1)

variable [Double R]

/-- `pq.push`: the queue is kept in the order of the pairs, smallest first. -/
def push (e : R × Int) : List (R × Int) → List (R × Int)
  | [] => [e]
  | q :: qs =>
    if e.1 < q.1 ∨ e.1 = q.1 ∧ e.2 ≤ q.2 then e :: q :: qs else q :: push e qs

theorem mem_push {e x : R × Int} {pq : List (R × Int)} : x ∈ push e pq ↔ x = e ∨ x ∈ pq := by
  induction pq with
  | nil => simp [push]
  | cons q qs ih =>
    simp only [push]
    split
    · simp
    · simp only [List.mem_cons, ih]
      tauto

namespace Navgraph

/-- The length of the lane from `u` to `v`. -/
def laneLength (g : Navgraph R) (u v : Int) : R :=
  match g.vertices[u.toNat]?, g.vertices[v.toNat]? with
  | some a, some b => hypot (a.x - b.x) (a.y - b.y)
  | _, _ => 0

theorem laneLength_nonneg (g : Navgraph R) (u v : Int) : 0 ≤ g.laneLength u v := by
  unfold laneLength
  split
  · exact hypot_nonneg _ _
  · exact le_refl _

theorem laneLength_vertex {g : Navgraph R} {a b : Int} {p q : Vertex R}
    (ha : g.vertex a = some p) (hb : g.vertex b = some q) :
    g.laneLength a b = hypot (p.x - q.x) (p.y - q.y) := by
  have get {v : Int} {r : Vertex R} (hv : g.vertex v = some r) : g.vertices[v.toNat]? = some r := by
    unfold vertex at hv
    split at hv
    · exact hv
    · cases hv
  unfold laneLength
  rw [get ha, get hb]

/-- The body of the loop over `adj_[u]`. -/
def relax (g : Navgraph R) (avoid u : Int) (s : Search R) (v : Int) : Search R :=
  if v = avoid then s
  else
    match s.distOf u with
    | none => s
    | some du =>
      let d := du + g.laneLength u v
      if below d (s.distOf v) then
        { dist := s.dist.set v.toNat (some d)
          prev := s.prev.set v.toNat u
          pq := push (d, v) s.pq }
      else s

/-- The loop over the queue. Every round pops one entry, and an entry is only
pushed for a lane that is relaxed, so a round for each lane and one for the
start are enough. -/
def searchLoop (g : Navgraph R) (goal avoid : Int) : Nat → Search R → Search R
  | 0, s => s
  | fuel + 1, s =>
    match s.pq with
    | [] => s
    | (d, u) :: pq =>
      let s := { s with pq }
      if (s.distOf u).any (· < d) then searchLoop g goal avoid fuel s
      else if u = goal then s
      else searchLoop g goal avoid fuel ((g.row u).foldl (relax g avoid u) s)

/-- The walk along `prev` from the goal to the start, which puts the path in order. -/
def walkBack (prev : List Int) : Nat → Int → List Int → Option (List Int)
  | 0, cur, path => if cur = -1 then some path else none
  | fuel + 1, cur, path =>
    if cur = -1 then some path
    else walkBack prev fuel (prev.getD cur.toNat (-1)) (cur :: path)

def startSearch (g : Navgraph R) (start : Int) : Search R where
  dist := (List.replicate g.vertices.length none).set start.toNat (some 0)
  prev := List.replicate g.vertices.length (-1)
  pq := [(0, start)]

def laneCount (g : Navgraph R) : Nat := (g.adj.map List.length).sum

def dijkstra (g : Navgraph R) (start goal avoid : Int) : List Int :=
  if ¬ g.InRange start ∨ ¬ g.InRange goal then []
  else
    let s := g.searchLoop goal avoid (g.laneCount + 1) (g.startSearch start)
    if s.distOf goal = none then []
    else (walkBack s.prev (g.vertices.length + 1) goal []).getD []

/-- One step of a path: along a lane, to another vertex, and not to the avoided one. -/
def Hop (g : Navgraph R) (avoid a b : Int) : Prop := g.Lane a b ∧ a ≠ b ∧ b ≠ avoid

/-- Following `prev` from a reached vertex runs backwards along hops to the start. -/
structure Tree (g : Navgraph R) (start avoid : Int) (s : Search R) : Prop where
  dist_length : s.dist.length = g.vertices.length
  prev_length : s.prev.length = g.vertices.length
  queue : ∀ e ∈ s.pq, g.InRange e.2
  root : ∀ v, g.InRange v → s.distOf v ≠ none → s.prevOf v = -1 → v = start
  edge : ∀ v, g.InRange v → s.prevOf v ≠ -1 →
    g.Hop avoid (s.prevOf v) v ∧ s.distOf (s.prevOf v) ≠ none

variable {g : Navgraph R} {start goal avoid : Int}

omit [Double R] in
theorem toNat_eq {u v : Int} (hu : g.InRange u) (hv : g.InRange v) (h : u.toNat = v.toNat) :
    u = v := by
  unfold InRange at hu hv
  omega

omit [Double R] in
theorem distOf_set {s : Search R} {prev : List Int} {pq : List (R × Int)} {u v : Int} {d : R}
    (hlen : s.dist.length = g.vertices.length) (hu : g.InRange u) (hv : g.InRange v) :
    Search.distOf ⟨s.dist.set v.toNat (some d), prev, pq⟩ u =
      if u = v then some d else s.distOf u := by
  have hlt : v.toNat < s.dist.length := by unfold InRange size at hv; omega
  simp only [Search.distOf, List.getD_eq_getElem?_getD, List.getElem?_set, hlt, if_true]
  by_cases h : u = v
  · simp [h]
  · rw [if_neg (fun he => h (toNat_eq hu hv he.symm)), if_neg h]

omit [Double R] in
theorem prevOf_set {s : Search R} {dist : List (Option R)} {pq : List (R × Int)} {u v w : Int}
    (hlen : s.prev.length = g.vertices.length) (hu : g.InRange u) (hv : g.InRange v) :
    Search.prevOf ⟨dist, s.prev.set v.toNat w, pq⟩ u = if u = v then w else s.prevOf u := by
  have hlt : v.toNat < s.prev.length := by unfold InRange size at hv; omega
  simp only [Search.prevOf, List.getD_eq_getElem?_getD, List.getElem?_set, hlt, if_true]
  by_cases h : u = v
  · simp [h]
  · rw [if_neg (fun he => h (toNat_eq hu hv he.symm)), if_neg h]

theorem startSearch_distOf (hs : g.InRange start) {v : Int} (hv : g.InRange v) :
    (g.startSearch start).distOf v = if v = start then some 0 else none := by
  have hlen : (List.replicate g.vertices.length (none : Option R)).length = g.vertices.length :=
    List.length_replicate
  have hnone : Search.distOf ⟨List.replicate g.vertices.length (none : Option R), [], []⟩ v =
      none := by
    simp only [Search.distOf, List.getD_eq_getElem?_getD, List.getElem?_replicate]
    split <;> rfl
  rw [startSearch, distOf_set (s := ⟨_, [], []⟩) hlen hv hs, hnone]

theorem startSearch_prevOf (v : Int) : (g.startSearch start).prevOf v = -1 := by
  simp only [Search.prevOf, startSearch, List.getD_eq_getElem?_getD, List.getElem?_replicate]
  split <;> rfl

theorem startSearch_tree (hs : g.InRange start) : Tree g start avoid (g.startSearch start) where
  dist_length := by simp [startSearch]
  prev_length := by simp [startSearch]
  queue := by
    intro e he
    simp only [startSearch, List.mem_singleton] at he
    exact he ▸ hs
  root := by
    intro v hv hd _
    by_contra hne
    exact hd (by rw [startSearch_distOf hs hv, if_neg hne])
  edge := by
    intro v _ hp
    exact absurd (startSearch_prevOf v) hp

theorem relax_tree {u : Int} (hu : g.InRange u) {s : Search R} (h : Tree g start avoid s) {v : Int}
    (hv : v ∈ g.row u) : Tree g start avoid (g.relax avoid u s v) := by
  unfold relax
  split
  · exact h
  rename_i hav
  split
  · exact h
  rename_i du hdu
  dsimp only
  split
  swap
  · exact h
  rename_i hb
  have hvr : g.InRange v := row_range hv
  -- a lane back to the same vertex never shortens the way to it
  have huv : u ≠ v := by
    rintro rfl
    rw [hdu, below_some] at hb
    exact absurd hb (not_lt.mpr (le_add_of_nonneg_right (g.laneLength_nonneg u u)))
  have reached : ∀ w, g.InRange w → s.distOf w ≠ none →
      Search.distOf ⟨s.dist.set v.toNat (some (du + g.laneLength u v)),
        s.prev.set v.toNat u, push (du + g.laneLength u v, v) s.pq⟩ w ≠ none := by
    intro w hw hd
    rw [distOf_set h.dist_length hw hvr]
    split
    · simp
    · exact hd
  refine ⟨by simpa using h.dist_length, by simpa using h.prev_length, ?_, ?_, ?_⟩
  · intro e he
    rcases mem_push.mp he with rfl | he
    · exact hvr
    · exact h.queue e he
  · intro w hw hd hp
    rw [prevOf_set h.prev_length hw hvr] at hp
    rw [distOf_set h.dist_length hw hvr] at hd
    split at hp
    · unfold InRange at hu
      omega
    · rename_i hne
      rw [if_neg hne] at hd
      exact h.root w hw hd hp
  · intro w hw hp
    rw [prevOf_set h.prev_length hw hvr] at hp ⊢
    split
    · rename_i heq
      subst heq
      exact ⟨⟨⟨hu, hv⟩, huv, hav⟩, reached u hu (by simp [hdu])⟩
    · rename_i hne
      rw [if_neg hne] at hp
      obtain ⟨hop, hd⟩ := h.edge w hw hp
      exact ⟨hop, reached _ hop.1.1 hd⟩

theorem relaxAll_tree {u : Int} (hu : g.InRange u) (vs : List Int) :
    ∀ s, (∀ v ∈ vs, v ∈ g.row u) → Tree g start avoid s →
      Tree g start avoid (vs.foldl (g.relax avoid u) s) := by
  induction vs with
  | nil => exact fun _ _ h => h
  | cons v vs ih =>
    intro s hvs h
    exact ih _ (fun w hw => hvs w (List.mem_cons_of_mem _ hw)) (relax_tree hu h (hvs v (by simp)))

theorem searchLoop_tree (fuel : Nat) :
    ∀ s, Tree g start avoid s → Tree g start avoid (g.searchLoop goal avoid fuel s) := by
  induction fuel with
  | zero => exact fun _ h => h
  | succ fuel ih =>
    intro s h
    unfold searchLoop
    split
    · exact h
    rename_i d u pq hpq
    have hpop : Tree g start avoid { s with pq } :=
      ⟨h.dist_length, h.prev_length, fun e he => h.queue e (hpq ▸ List.mem_cons_of_mem _ he),
        h.root, h.edge⟩
    have hu : g.InRange u := h.queue (d, u) (hpq ▸ List.mem_cons_self)
    dsimp only
    split
    · exact ih _ hpop
    · split
      · exact hpop
      · exact ih _ (relaxAll_tree hu _ _ (fun _ hv => hv) hpop)

/-- A path of hops from `start` to `goal`. -/
structure Route (g : Navgraph R) (start goal avoid : Int) (path : List Int) : Prop where
  head : path.head? = some start
  last : path.getLast? = some goal
  hops : path.IsChain (g.Hop avoid)
  range : ∀ v ∈ path, g.InRange v

omit [Double R] in
theorem walkBack_route {s : Search R} (h : Tree g start avoid s) :
    ∀ fuel a rest path, walkBack s.prev fuel (s.prevOf a) (a :: rest) = some path →
      s.distOf a ≠ none → (a :: rest).getLast? = some goal → (a :: rest).IsChain (g.Hop avoid) →
      (∀ v ∈ a :: rest, g.InRange v) → Route g start goal avoid path := by
  intro fuel
  induction fuel with
  | zero =>
    intro a rest path hw hd hlast hchain hr
    unfold walkBack at hw
    split at hw
    · cases hw
      rename_i hp
      exact ⟨by rw [h.root a (hr a (by simp)) hd hp]; rfl, hlast, hchain, hr⟩
    · cases hw
  | succ fuel ih =>
    intro a rest path hw hd hlast hchain hr
    unfold walkBack at hw
    split at hw
    · cases hw
      rename_i hp
      exact ⟨by rw [h.root a (hr a (by simp)) hd hp]; rfl, hlast, hchain, hr⟩
    · rename_i hp
      obtain ⟨hop, hd'⟩ := h.edge a (hr a (by simp)) hp
      refine ih _ _ path hw hd' ?_ (List.isChain_cons_cons.mpr ⟨hop, hchain⟩) ?_
      · rwa [List.getLast?_cons_cons]
      · intro v hv
        rcases List.mem_cons.mp hv with rfl | hv
        · exact hop.1.1
        · exact hr v hv

/-- Every path the search returns leads from `start` to `goal` by hops. -/
theorem dijkstra_route {path : List Int} (h : g.dijkstra start goal avoid = path)
    (hne : path ≠ []) : Route g start goal avoid path := by
  unfold dijkstra at h
  split at h
  · exact absurd h.symm hne
  rename_i hr
  simp only [not_or, not_not] at hr
  dsimp only at h
  split at h
  · exact absurd h.symm hne
  rename_i hd
  have htree : Tree g start avoid
      (g.searchLoop goal avoid (g.laneCount + 1) (g.startSearch start)) :=
    searchLoop_tree _ _ (startSearch_tree hr.1)
  cases hw : walkBack (g.searchLoop goal avoid (g.laneCount + 1) (g.startSearch start)).prev
      (g.vertices.length + 1) goal [] with
  | none =>
    rw [hw] at h
    exact absurd h.symm hne
  | some p =>
    rw [hw] at h
    cases h
    have hgoal : goal ≠ -1 := fun he => by
      have := hr.2.1
      omega
    unfold walkBack at hw
    rw [if_neg hgoal] at hw
    exact walkBack_route htree _ _ _ _ hw hd rfl (List.isChain_singleton _)
      (by simpa using hr.2)

theorem dijkstra_range (start goal avoid : Int) :
    ∀ v ∈ g.dijkstra start goal avoid, g.InRange v := by
  intro v hv
  exact (dijkstra_route rfl (List.ne_nil_of_mem hv)).range v hv

end Navgraph

end LibiFleet
