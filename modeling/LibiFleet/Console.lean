import LibiFleet.FleetNode
import Mathlib.Data.List.Sort
import Mathlib.Data.Finset.Insert

/-!
# The console

The class `Bridge` of `console.py`: the robots it has seen, the navgraph it edits, the
bids it shows before a dispatch, the edits, and the saving of the navgraph. An
exception is `none`.
-/

namespace LibiFleet

variable {R : Type}

/-- The members of `Bridge` that the bids and the editor use. `robots` is a `dict` in the order of
its entries; a vertex of the console is a list of two numbers. -/
structure Bridge (R : Type) where
  robots : List (String × R × R)
  vertices : List (Vertex R)
  lanes : List (Int × Int)
  once : (robots.map (·.1)).Nodup

/-- The graph that the console has in its lists. -/
def Bridge.graph (b : Bridge R) : Navgraph R := .build b.vertices b.lanes

/-- Every lane of the console is between two of its vertices. -/
def Bridge.Closed (b : Bridge R) : Prop :=
  ∀ l ∈ b.lanes, b.graph.InRange l.1 ∧ b.graph.InRange l.2

instance (b : Bridge R) : Decidable b.Closed := inferInstanceAs (Decidable (∀ l ∈ b.lanes, _))

/-- The place of `l[i]` in a list of `n` entries: a negative index counts from the end, and
`none` is an `IndexError`. -/
def pyIndex (n : Nat) (i : Int) : Option Nat :=
  if 0 ≤ i then
    if i < n then some i.toNat else none
  else if 0 ≤ i + n then some (i + n).toNat
  else none

/-- `l[i]`, read. -/
def pyGet {α : Type} (l : List α) (i : Int) : Option α :=
  (pyIndex l.length i).bind fun k => l[k]?

/-- `l[i] = x`. -/
def pySet {α : Type} (l : List α) (i : Int) (x : α) : Option (List α) :=
  (pyIndex l.length i).map fun k => l.set k x

theorem pyIndex_nat {n : Nat} {i : Int} (h : 0 ≤ i) (hn : i < n) : pyIndex n i = some i.toNat := by
  rw [pyIndex, if_pos h, if_pos hn]

/-- `round(x, 2)`. -/
def round2 [Double R] (x : R) : R := roundHalfEven (x * 100) / 100

/-- An entry of `bids`, where `none` is the bid of a robot that cannot get to the goal. -/
structure Bid (R : Type) where
  robot : String
  nearest : Int
  bid : Option R

/-- The answer of `bid_scores`. -/
structure BidScores (R : Type) where
  goal : Int
  bids : List (Bid R)
  winner : Option String

/-- `dist` and `pq` of the search, where `none` is `inf`. -/
structure BidSearch (R : Type) where
  dist : List (Option R)
  pq : List (R × Int)

namespace Bridge

variable [Double R]

/-- The key by which the bids are sorted. -/
def sortKey (e : Bid R) : Bool ×ₗ R := toLex (e.bid.isNone, e.bid.getD 0)

/-- `adj.get(u, [])`. -/
def adj (b : Bridge R) (u : Int) : List Int := (b.lanes.filter (·.1 = u)).map (·.2)

/-- `d(i, j)`. -/
def laneLength (b : Bridge R) (i j : Int) : Option R := do
  let v ← pyGet b.vertices i
  let w ← pyGet b.vertices j
  some (hypot (v.x - w.x) (v.y - w.y))

/-- The loop of `min` over the vertices, from number `i` on. -/
def nearestFrom (x y : R) (i best : Int) (bestD : Option R) : List (Vertex R) → Int
  | [] => best
  | v :: vs =>
    let d := (v.x - x) * (v.x - x) + (v.y - y) * (v.y - y)
    if below d bestD then nearestFrom x y (i + 1) i (some d) vs
    else nearestFrom x y (i + 1) best bestD vs

/-- `nearest(x, y)`; the `min` of nothing is a `ValueError`. -/
def nearest (b : Bridge R) (x y : R) : Option Int :=
  if b.vertices = [] then none else some (nearestFrom x y 0 (-1) none b.vertices)

/-- The body of the loop over `adj.get(u, [])`. -/
def relax (b : Bridge R) (cd : R) (u : Int) (k : BidSearch R) (w : Int) : Option (BidSearch R) := do
  let nd := cd + (← b.laneLength u w)
  if below nd (← pyGet k.dist w) then
    some ⟨← pySet k.dist w (some nd), push (nd, w) k.pq⟩
  else some k

/-- The loop over the heap, with a round for each lane and one for the start. -/
def costLoop (b : Bridge R) (goal : Int) : Nat → BidSearch R → Option (Option R)
  | 0, k => pyGet k.dist goal
  | fuel + 1, k =>
    match k.pq with
    | [] => pyGet k.dist goal
    | (cd, u) :: pq => do
      let k := { k with pq }
      if (← pyGet k.dist u).any (· < cd) then b.costLoop goal fuel k
      else if u = goal then some (some cd)
      else b.costLoop goal fuel (← (b.adj u).foldlM (b.relax cd u) k)

/-- `cost(src)`. -/
def cost (b : Bridge R) (goal src : Int) : Option (Option R) := do
  let dist ← pySet (List.replicate b.vertices.length none) src (some 0)
  b.costLoop goal (b.lanes.length + 1) ⟨dist, [(0, src)]⟩

/-- The bid of one robot. -/
def bidOf (b : Bridge R) (goal : Int) (r : String × R × R) : Option (Bid R) := do
  let src ← b.nearest r.2.1 r.2.2
  let c ← b.cost goal src
  some ⟨r.1, src, c.map round2⟩

/-- `bid_scores(goal)`. -/
def bidScores (b : Bridge R) (goal : Int) : Option (BidScores R) := do
  let out ← b.robots.mapM (b.bidOf goal)
  let out := out.insertionSort fun e e' => sortKey e ≤ sortKey e'
  let winner := match out with
    | [] => none
    | e :: _ => if e.bid.isSome then some e.robot else none
  some ⟨goal, out, winner⟩

end Bridge

/-- The requests of the editor: `/api/vertex`, which adds a vertex or moves one, `/api/lane`,
`/api/lane/del` and `/api/vertex/del`. -/
inductive Edit (R : Type)
  | vertex (x y : R) (index : Int)
  | lane (a b : Int)
  | laneDel (a b : Int)
  | vertexDel (index : Int)

/-- The answers to them. -/
inductive EditResponse
  | vertex (ok : Bool) (index : Int)
  | lane (ok : Bool)
  | vertexDel (ok : Bool) (vertices lanes : Nat)
  deriving DecidableEq

/-- The answer of `save_navgraph`. -/
structure SaveResponse where
  ok : Bool
  vertices : Nat
  lanes : Nat
  fleet : String
  deriving DecidableEq

namespace Bridge

def addVertex (b : Bridge R) (x y : R) : Bridge R × Int :=
  ({ b with vertices := b.vertices ++ [⟨x, y⟩] }, b.vertices.length)

def moveVertex (b : Bridge R) (i : Int) (x y : R) : Bridge R × Bool :=
  if 0 ≤ i ∧ i < b.vertices.length then
    ({ b with vertices := b.vertices.set i.toNat ⟨x, y⟩ }, true)
  else (b, false)

/-- One round of the loop of `add_lane`. -/
def joinLane (lanes : List (Int × Int)) (l : Int × Int) : List (Int × Int) :=
  if l ∈ lanes then lanes else lanes ++ [l]

def addLane (b : Bridge R) (p q : Int) : Bridge R × Bool :=
  if p = q then (b, false)
  else ({ b with lanes := [(p, q), (q, p)].foldl joinLane b.lanes }, true)

def delLane (b : Bridge R) (p q : Int) : Bridge R × Bool :=
  ({ b with lanes := b.lanes.filter fun l => ({l.1, l.2} : Finset Int) ≠ {p, q} }, true)

/-- The number of a vertex after vertex `i` is gone. -/
def shift (i v : Int) : Int := if i < v then v - 1 else v

def delVertex (b : Bridge R) (i : Int) : Bridge R × Bool :=
  if 0 ≤ i ∧ i < b.vertices.length then
    ({ b with
      vertices := b.vertices.eraseIdx i.toNat
      lanes := (b.lanes.filter fun l => ¬ (l.1 = i ∨ l.2 = i)).map
        fun l => (shift i l.1, shift i l.2) }, true)
  else (b, false)

/-- The handlers of the requests. -/
def edit (b : Bridge R) : Edit R → Bridge R × EditResponse
  | .vertex x y index =>
    if 0 ≤ index then
      let (b, ok) := b.moveVertex index x y
      (b, .vertex ok index)
    else
      let (b, index) := b.addVertex x y
      (b, .vertex true index)
  | .lane p q =>
    let (b, ok) := b.addLane p q
    (b, .lane ok)
  | .laneDel p q =>
    let (b, ok) := b.delLane p q
    (b, .lane ok)
  | .vertexDel index =>
    let (b, ok) := b.delVertex index
    (b, .vertexDel ok b.vertices.length b.lanes.length)

/-- The navgraph file that `save_navgraph` writes. -/
def file (b : Bridge R) : NavFile R :=
  .level (b.vertices.map fun v => some (v.x, v.y)) (b.lanes.map some)

/-- `save_navgraph` while the reload service of the fleet answers. -/
def saveNavgraph (b : Bridge R) (s : FleetNode R) : Option (FleetNode R × SaveResponse) := do
  let (s, r) ← s.onReload b.file
  some (s, ⟨true, b.vertices.length, b.lanes.length, r.message⟩)

end Bridge

end LibiFleet
