import LibiFleet.Numbers
import Mathlib.Data.List.Perm.Subperm

/-!
# The navgraph

`navgraph.hpp` and `navgraph.cpp`: loading, the nearest vertex, Dijkstra's
search with an avoided vertex, and the length of a path. Vertices are numbered
by `int`, so `-1` can stand for "none" as in the source. A lookup with
`vector::at` is `none` where the source throws `std::out_of_range`.
-/

namespace LibiFleet

section Loops

variable {α β : Type} {l : List α}

/-- A loop throws if it throws for an entry of the list. -/
theorem mapM_isSome {f : α → Option β} : (l.mapM f).isSome ↔ ∀ a ∈ l, (f a).isSome := by
  induction l with
  | nil => simp
  | cons a l ih =>
    rw [List.forall_mem_cons, ← ih, List.mapM_cons]
    cases f a with
    | none => simp
    | some b => cases l.mapM f <;> simp

/-- A loop that throws for no entry of the list. -/
theorem mapM_eq_map {f : α → Option β} {g : α → β} (h : ∀ a ∈ l, f a = some (g a)) :
    l.mapM f = some (l.map g) := by
  induction l with
  | nil => rfl
  | cons a l ih =>
    obtain ⟨ha, hl⟩ := List.forall_mem_cons.mp h
    rw [List.mapM_cons, ha, ih hl]
    rfl

/-- What was written is read. -/
theorem mapM_map_eq {f : α → β} {g : β → Option α} (h : ∀ a, g (f a) = some a) (l : List α) :
    (l.map f).mapM g = some l := by
  have hread : l.mapM (g ∘ f) = some (l.map id) := mapM_eq_map fun a _ => h a
  rw [List.mapM_map, hread, List.map_id]

end Loops

structure Vertex (R : Type) where
  x : R
  y : R
  deriving DecidableEq

/-- A graph has one row of neighbours for each vertex, and every neighbour is a vertex. -/
structure Navgraph (R : Type) where
  vertices : List (Vertex R)
  adj : List (List Int)
  adj_length : adj.length = vertices.length
  adj_range : ∀ row ∈ adj, ∀ v ∈ row, 0 ≤ v ∧ v < vertices.length

/-- What yaml-cpp finds in the navgraph file: nothing it can read, a scalar for the document, its
`levels` or the level, where `operator[]` throws, no such level, or the entries of the level, where
`none` is an entry whose conversion throws. A level that is null or a sequence has no entries. -/
inductive NavFile (R : Type)
  | unreadable
  | scalar
  | noLevel
  | level (vertices : List (Option (R × R))) (lanes : List (Option (Int × Int)))

namespace Navgraph

variable {R : Type}

def size (g : Navgraph R) : Int := g.vertices.length

def InRange (g : Navgraph R) (v : Int) : Prop := 0 ≤ v ∧ v < g.size

instance (g : Navgraph R) (v : Int) : Decidable (g.InRange v) :=
  inferInstanceAs (Decidable (_ ∧ _))

/-- `vertices_.at(i)`. -/
def vertex (g : Navgraph R) (i : Int) : Option (Vertex R) :=
  if 0 ≤ i then g.vertices[i.toNat]? else none

/-- `adj_.at(i)`. -/
def neighbors (g : Navgraph R) (i : Int) : Option (List Int) :=
  if 0 ≤ i then g.adj[i.toNat]? else none

/-- `adj_[u]`, as the search reads it at vertices in range. -/
def row (g : Navgraph R) (u : Int) : List Int := g.adj.getD u.toNat []

theorem ext_lists {g g' : Navgraph R} (hv : g.vertices = g'.vertices) (ha : g.adj = g'.adj) :
    g = g' := by
  cases g
  cases g'
  cases hv
  cases ha
  rfl

/-- A directed lane of the graph. -/
def Lane (g : Navgraph R) (a b : Int) : Prop := g.InRange a ∧ b ∈ g.row a

instance (g : Navgraph R) (a b : Int) : Decidable (g.Lane a b) :=
  inferInstanceAs (Decidable (_ ∧ _))

theorem vertex_isSome {g : Navgraph R} {v : Int} : (g.vertex v).isSome ↔ g.InRange v := by
  unfold vertex InRange size
  split
  · simp only [Option.isSome_iff_ne_none, ne_eq, List.getElem?_eq_none_iff]
    omega
  · simp only [Option.isSome_none, Bool.false_eq_true, false_iff]
    omega

theorem exists_vertex {g : Navgraph R} {v : Int} (h : g.InRange v) : ∃ p, g.vertex v = some p :=
  Option.isSome_iff_exists.mp (vertex_isSome.mpr h)

theorem row_range {g : Navgraph R} {u v : Int} (h : v ∈ g.row u) : g.InRange v := by
  unfold row at h
  rw [List.getD_eq_getElem?_getD] at h
  cases hrow : g.adj[u.toNat]? with
  | none => simp [hrow] at h
  | some l =>
    rw [hrow, Option.getD_some] at h
    exact g.adj_range l (List.mem_of_getElem? hrow) v h

section Vertices

variable {g : Navgraph R} {l : List Int}

/-- Vertices that are not repeated are among those of the graph, in some order. -/
theorem vertices_subperm (nodup : l.Nodup) (range : ∀ v ∈ l, g.InRange v) :
    (l.map Int.toNat).Subperm (List.range g.vertices.length) := by
  have hinj : (l.map Int.toNat).Nodup := by
    apply nodup.map_on
    intro a ha b hb h
    have := (range a ha).1
    have := (range b hb).1
    omega
  apply hinj.subperm
  intro i hi
  obtain ⟨v, hv, rfl⟩ := List.mem_map.mp hi
  obtain ⟨hnonneg, hlt⟩ := range v hv
  unfold size at hlt
  exact List.mem_range.mpr (by omega)

theorem length_le (nodup : l.Nodup) (range : ∀ v ∈ l, g.InRange v) :
    l.length ≤ g.vertices.length := by
  simpa using (vertices_subperm nodup range).length_le

end Vertices

theorem Lane.target {g : Navgraph R} {a b : Int} (h : g.Lane a b) : g.InRange b := row_range h.2

/-! ## Loading -/

/-- One lane of the file: kept only if both ends are vertices. -/
def addLane (n : Nat) (adj : List (List Int)) (lane : Int × Int) : List (List Int) :=
  if 0 ≤ lane.1 ∧ lane.1 < n ∧ 0 ≤ lane.2 ∧ lane.2 < n then
    adj.modify lane.1.toNat (· ++ [lane.2])
  else adj

/-- The adjacency rows the loader has built so far are rows of a graph on `n` vertices. -/
def Rows (n : Nat) (adj : List (List Int)) : Prop :=
  adj.length = n ∧ ∀ row ∈ adj, ∀ v ∈ row, 0 ≤ v ∧ v < n

theorem addLane_rows {n : Nat} {adj : List (List Int)} (h : Rows n adj) (lane : Int × Int) :
    Rows n (addLane n adj lane) := by
  unfold addLane
  split
  · rename_i hl
    refine ⟨by rw [List.length_modify]; exact h.1, ?_⟩
    intro row hrow v hv
    obtain ⟨i, hi⟩ := List.getElem?_of_mem hrow
    rw [List.getElem?_modify] at hi
    obtain ⟨old, hold, rfl⟩ := Option.map_eq_some_iff.mp hi
    have hmem := List.mem_of_getElem? hold
    split at hv
    · rcases List.mem_append.mp hv with hv | hv
      · exact h.2 old hmem v hv
      · rw [List.mem_singleton.mp hv]
        exact ⟨hl.2.2.1, hl.2.2.2⟩
    · exact h.2 old hmem v hv
  · exact h

theorem lanes_rows {n : Nat} (lanes : List (Int × Int)) :
    ∀ adj, Rows n adj → Rows n (lanes.foldl (addLane n) adj) := by
  induction lanes with
  | nil => exact fun _ h => h
  | cons lane lanes ih => exact fun adj h => ih _ (addLane_rows h lane)

/-- The graph of the given vertices and lanes. -/
def build (vertices : List (Vertex R)) (lanes : List (Int × Int)) : Navgraph R :=
  have h : Rows vertices.length (lanes.foldl (addLane vertices.length)
      (List.replicate vertices.length [])) :=
    lanes_rows lanes _ ⟨List.length_replicate, fun row hrow v hv => by
      rw [List.eq_of_mem_replicate hrow] at hv; cases hv⟩
  ⟨vertices, _, h.1, h.2⟩

theorem addLane_getD {n : Nat} {adj : List (List Int)} (h : adj.length = n) (lane : Int × Int)
    (i : Nat) : (addLane n adj lane).getD i [] = adj.getD i [] ++
      if lane.1 = i ∧ i < n ∧ 0 ≤ lane.2 ∧ lane.2 < n then [lane.2] else [] := by
  unfold addLane
  split
  · rename_i hl
    rw [List.getD_eq_getElem?_getD, List.getElem?_modify, List.getD_eq_getElem?_getD]
    by_cases hi : lane.1.toNat = i
    · have hlt : i < adj.length := by omega
      rw [if_pos (by omega)]
      simp [hi, List.getElem?_eq_getElem hlt]
    · rw [if_neg (by omega)]
      cases adj[i]? <;> simp [hi]
  · rename_i hl
    rw [if_neg (by omega), List.append_nil]

theorem foldl_addLane_getD {n : Nat} (lanes : List (Int × Int)) (i : Nat) : ∀ adj, Rows n adj →
    (lanes.foldl (addLane n) adj).getD i [] = adj.getD i [] ++
      (lanes.filter fun l => l.1 = (i : Int) ∧ i < n ∧ 0 ≤ l.2 ∧ l.2 < (n : Int)).map (·.2) := by
  induction lanes with
  | nil => simp
  | cons lane lanes ih =>
    intro adj h
    rw [List.foldl_cons, ih _ (addLane_rows h lane), addLane_getD h.1, List.filter_cons]
    by_cases hl : lane.1 = i ∧ i < n ∧ 0 ≤ lane.2 ∧ lane.2 < n
    · simp [hl]
    · simp only [hl, if_false, decide_false, List.append_nil, Bool.false_eq_true]

section Build

variable {vertices : List (Vertex R)} {lanes : List (Int × Int)} {a b : Int}

/-- The row of a vertex: the ends of its lanes in the file, as far as they are vertices. -/
theorem build_row (ha : (build vertices lanes).InRange a) : (build vertices lanes).row a =
    (lanes.filter fun l => l.1 = a ∧ 0 ≤ l.2 ∧ l.2 < (vertices.length : Int)).map (·.2) := by
  obtain ⟨hnonneg, hlt⟩ := ha
  change a < (vertices.length : Int) at hlt
  have hrow := foldl_addLane_getD lanes a.toNat (List.replicate vertices.length [])
    ⟨List.length_replicate, fun row hrow v hv => by
      rw [List.eq_of_mem_replicate hrow] at hv; cases hv⟩
  have hempty : (List.replicate vertices.length ([] : List Int)).getD a.toNat [] = [] := by
    rw [List.getD_eq_getElem?_getD, List.getElem?_replicate]
    split <;> rfl
  rw [hempty, List.nil_append] at hrow
  refine hrow.trans (congrArg _ (List.filter_congr ?_))
  intro l _
  have htoNat : (a.toNat : Int) = a := Int.toNat_of_nonneg hnonneg
  have hlt' : a.toNat < vertices.length := by omega
  simp [htoNat, hlt']

theorem build_lane : (build vertices lanes).Lane a b ↔
    (a, b) ∈ lanes ∧ (build vertices lanes).InRange a ∧ (build vertices lanes).InRange b := by
  have hsize : (build vertices lanes).size = vertices.length := rfl
  constructor
  · rintro ⟨ha, hb⟩
    rw [build_row ha] at hb
    obtain ⟨⟨u, v⟩, hl, rfl⟩ := List.mem_map.mp hb
    obtain ⟨hmem, hl⟩ := List.mem_filter.mp hl
    obtain ⟨rfl, hrange⟩ := of_decide_eq_true hl
    exact ⟨hmem, ha, hrange⟩
  · rintro ⟨hmem, ha, hb⟩
    refine ⟨ha, ?_⟩
    rw [build_row ha]
    refine List.mem_map.mpr ⟨(a, b), List.mem_filter.mpr ⟨hmem, ?_⟩, rfl⟩
    exact decide_eq_true ⟨rfl, hb⟩

end Build

/-- `Navgraph::load`: `none` is an exception, `some none` the answer `false`. -/
def load : NavFile R → Option (Option (Navgraph R))
  | .unreadable | .scalar => none
  | .noLevel => some none
  | .level vertices lanes => do
    let vs ← vertices.mapM id
    let ls ← lanes.mapM id
    if vs.isEmpty then some none
    else some (some (build (vs.map fun p => ⟨p.1, p.2⟩) ls))

variable [Double R]

/-- The loop of `nearest`, from vertex number `i` on. -/
def nearestFrom (x y : R) (i best : Int) (bestD : Option R) : List (Vertex R) → Int
  | [] => best
  | v :: vs =>
    let d := hypot (v.x - x) (v.y - y)
    if below d bestD then nearestFrom x y (i + 1) i (some d) vs
    else nearestFrom x y (i + 1) best bestD vs

def nearest (g : Navgraph R) (x y : R) : Int := nearestFrom x y 0 (-1) none g.vertices

theorem nearestFrom_range (x y : R) (n : Int) (vs : List (Vertex R)) :
    ∀ i best bestD, 0 ≤ i → i + vs.length = n → (0 ≤ best ∧ best < n ∨ bestD = none ∧ vs ≠ []) →
      0 ≤ nearestFrom x y i best bestD vs ∧ nearestFrom x y i best bestD vs < n := by
  induction vs with
  | nil =>
    intro i best bestD _ _ h
    simpa [nearestFrom] using h
  | cons v vs ih =>
    intro i best bestD hi hn h
    simp only [List.length_cons, Nat.cast_add, Nat.cast_one] at hn
    simp only [nearestFrom]
    split
    · exact ih _ _ _ (by omega) (by omega) (.inl ⟨hi, by omega⟩)
    · rename_i hb
      rcases h with h | ⟨rfl, -⟩
      · exact ih _ _ _ (by omega) (by omega) (.inl h)
      · simp [below] at hb

theorem nearest_inRange {g : Navgraph R} (h : g.vertices ≠ []) (x y : R) :
    g.InRange (g.nearest x y) :=
  nearestFrom_range x y g.size g.vertices 0 (-1) none (by omega) (by simp [size]) (.inr ⟨rfl, h⟩)

/-- `path_cost` from the second entry on, `c` so far. -/
def pathCostFrom (g : Navgraph R) (c : R) : List Int → Option R
  | a :: b :: rest => do
    let va ← g.vertex a
    let vb ← g.vertex b
    pathCostFrom g (c + hypot (va.x - vb.x) (va.y - vb.y)) (b :: rest)
  | _ => some c

def pathCost (g : Navgraph R) (path : List Int) : Option R := g.pathCostFrom 0 path

theorem pathCostFrom_isSome {g : Navgraph R} :
    ∀ (path : List Int) (c : R), (∀ v ∈ path, g.InRange v) → (g.pathCostFrom c path).isSome
  | [], _, _ => rfl
  | [_], _, _ => rfl
  | a :: b :: rest, c, h => by
    obtain ⟨va, ha⟩ := exists_vertex (h a (by simp))
    obtain ⟨vb, hb⟩ := exists_vertex (h b (by simp))
    simp only [pathCostFrom, ha, hb, Option.bind_eq_bind, Option.bind_some]
    exact pathCostFrom_isSome (b :: rest) _ fun v hv => h v (List.mem_cons_of_mem _ hv)

end Navgraph

end LibiFleet
