import LibiFleet.Navgraph
import Mathlib.Analysis.SpecialFunctions.Complex.Arg

/-!
# The patrol loop

`patrol_cycle.cpp`: the walk along the boundary of the graph that turns right as far
as it can. It starts at the topmost vertex and ends when it is back there.
-/

namespace LibiFleet

/-- `M_PI` and `std::atan2`. Angles are counted in a unit of their own, in which a half turn
is `pi`. -/
class Angles (R : Type) extends Double R where
  pi : R
  pi_pos : 0 < pi
  atan2 : R → R → R
  atan2_range : ∀ y x, -pi < atan2 y x ∧ atan2 y x ≤ pi
  atan2_east : ∀ x, 0 ≤ x → atan2 0 x = 0
  atan2_west : ∀ x, x < 0 → atan2 0 x = pi
  atan2_north : ∀ y, 0 < y → atan2 y 0 = pi / 2
  atan2_south : ∀ y, y < 0 → atan2 y 0 = -(pi / 2)

export Angles (pi pi_pos atan2)

noncomputable instance : Angles ℝ where
  pi := Real.pi
  pi_pos := Real.pi_pos
  atan2 y x := Complex.arg ⟨x, y⟩
  atan2_range y x := Complex.arg_mem_Ioc ⟨x, y⟩
  atan2_east _ hx := Complex.arg_ofReal_of_nonneg hx
  atan2_west _ hx := Complex.arg_ofReal_of_neg hx
  atan2_north _ hy := Complex.arg_eq_pi_div_two_iff.mpr ⟨rfl, hy⟩
  atan2_south _ hy := Complex.arg_eq_neg_pi_div_two_iff.mpr ⟨rfl, hy⟩

/-- The angle of a direction in eighths of a turn: exact for the eight directions of a grid, and in
the right order between them. -/
def eighths (y x : ℚ) : ℚ :=
  let t := y / (|x| + |y|)
  if 0 ≤ x then 2 * t else if 0 ≤ y then 4 - 2 * t else -4 - 2 * t

theorem eighths_range (y x : ℚ) : -4 < eighths y x ∧ eighths y x ≤ 4 := by
  have hle : |y / (|x| + |y|)| ≤ 1 := by
    rw [abs_div, abs_of_nonneg (add_nonneg (abs_nonneg x) (abs_nonneg y))]
    exact div_le_one_of_le₀ (le_add_of_nonneg_left (abs_nonneg x)) (by positivity)
  obtain ⟨hlow, hhigh⟩ := abs_le.mp hle
  unfold eighths
  dsimp only
  split
  · constructor <;> linarith
  rename_i hx
  have hpos : 0 < |x| + |y| := by
    have hne : x ≠ 0 := fun h => hx h.ge
    positivity
  split
  · rename_i hy
    have hnonneg : 0 ≤ y / (|x| + |y|) := div_nonneg hy hpos.le
    constructor <;> linarith
  · rename_i hy
    have hneg : y / (|x| + |y|) < 0 := div_neg_of_neg_of_pos (not_le.mp hy) hpos
    constructor <;> linarith

instance : Angles ℚ where
  pi := 4
  pi_pos := by norm_num
  atan2 := eighths
  atan2_range := eighths_range
  atan2_east x hx := by simp [eighths, hx]
  atan2_west x hx := by simp [eighths, not_le.mpr hx]
  atan2_north y hy := by
    have hne : y ≠ 0 := hy.ne'
    norm_num [eighths, abs_of_pos hy, hne]
  atan2_south y hy := by
    have hne : y ≠ 0 := hy.ne
    norm_num [eighths, abs_of_neg hy, div_neg, hne]

variable {R : Type} [Angles R]

/-- The loop that adds turns. -/
def raise (tau : R) : Nat → R → R
  | 0, a => a
  | n + 1, a => if a < 0 then raise tau n (a + tau) else a

/-- The loop that takes turns away. -/
def lower (tau : R) : Nat → R → R
  | 0, a => a
  | n + 1, a => if tau ≤ a then lower tau n (a - tau) else a

/-- `norm2pi`, with as many rounds as the loops can need. -/
def norm2pi (a : R) : R :=
  let tau := 2 * pi
  let rounds := ⌈|a| / tau⌉.toNat
  lower tau rounds (raise tau rounds a)

section Norm

variable {tau : R}

theorem raise_spec (n : Nat) : ∀ a : R, -(n * tau) ≤ a →
    0 ≤ raise tau n a ∧ (raise tau n a = a ∨ raise tau n a < tau) := by
  induction n with
  | zero =>
    intro a ha
    simp only [Nat.cast_zero, zero_mul, neg_zero] at ha
    exact ⟨ha, .inl rfl⟩
  | succ n ih =>
    intro a ha
    unfold raise
    split
    · rename_i hneg
      have hstep : -(n * tau) ≤ a + tau := by
        push_cast at ha
        linarith
      obtain ⟨hnonneg, heq | hlt⟩ := ih (a + tau) hstep
      · refine ⟨hnonneg, .inr ?_⟩
        rw [heq]
        linarith
      · exact ⟨hnonneg, .inr hlt⟩
    · rename_i hnonneg
      exact ⟨not_lt.mp hnonneg, .inl rfl⟩

theorem lower_spec (n : Nat) : ∀ a : R, 0 ≤ a → a < (n + 1) * tau →
    0 ≤ lower tau n a ∧ lower tau n a < tau := by
  induction n with
  | zero =>
    intro a ha hlt
    simp only [Nat.cast_zero, zero_add, one_mul] at hlt
    exact ⟨ha, hlt⟩
  | succ n ih =>
    intro a ha hlt
    unfold lower
    split
    · rename_i hle
      apply ih (a - tau) (sub_nonneg.mpr hle)
      push_cast at hlt
      linarith
    · rename_i hgt
      exact ⟨ha, not_le.mp hgt⟩

/-- The rounds are enough: the angle comes to lie between 0 and a full turn. -/
theorem norm2pi_range (a : R) : 0 ≤ norm2pi a ∧ norm2pi a < 2 * pi := by
  have htau : (0 : R) < 2 * pi := mul_pos two_pos pi_pos
  unfold norm2pi
  dsimp only
  generalize hn : ⌈|a| / (2 * pi)⌉.toNat = n
  have hceil : |a| / (2 * pi) ≤ n := by
    have hnonneg : 0 ≤ ⌈|a| / (2 * pi)⌉ := Int.ceil_nonneg (div_nonneg (abs_nonneg a) htau.le)
    have hcast : ((n : Int) : R) = ⌈|a| / (2 * pi)⌉ := by rw [← hn, Int.toNat_of_nonneg hnonneg]
    rw [← Int.cast_natCast, hcast]
    exact Int.le_ceil _
  have habs : |a| ≤ n * (2 * pi) := (div_le_iff₀ htau).mp hceil
  obtain ⟨hlow, hhigh⟩ := abs_le.mp habs
  obtain ⟨hnonneg, hcases⟩ := raise_spec n a hlow
  apply lower_spec n _ hnonneg
  rw [add_mul, one_mul]
  rcases hcases with heq | hlt
  · rw [heq]
    exact lt_add_of_le_of_pos hhigh htau
  · exact lt_add_of_nonneg_of_lt (mul_nonneg (Nat.cast_nonneg n) htau.le) hlt

end Norm

namespace Navgraph

/-! ## The walk -/

/-- `1e-9`. -/
def cycleEps : R := 1 / 10 ^ 9

/-- The loop that looks for the start, from vertex number `i` on: the topmost vertex, and the
leftmost of several. `b` is the vertex `start`. -/
def topFrom (i start : Int) (b : Vertex R) : List (Vertex R) → Int
  | [] => start
  | v :: vs =>
    if b.y + cycleEps < v.y ∨ |v.y - b.y| ≤ cycleEps ∧ v.x < b.x - cycleEps then
      topFrom (i + 1) i v vs
    else topFrom (i + 1) start b vs

def top (g : Navgraph R) : Int :=
  match g.vertices with
  | [] => 0
  | b :: vs => topFrom 1 0 b vs

/-- `best`, `best_rel` and `fallback_prev`; `none` is the initial `infinity()`. -/
structure Turn (R : Type) where
  best : Int
  bestRel : Option R
  fallbackPrev : Int

/-- The angle `rel` from `backAngle` clockwise to `a`: a full turn for the way back. -/
def clockwise (backAngle a : R) : R :=
  let rel := norm2pi (backAngle - a)
  if rel < cycleEps then rel + 2 * pi else rel

/-- The body of the loop over the neighbours of `c`. -/
def weighTurn (g : Navgraph R) (c : Vertex R) (backAngle : R) (prev : Int) (turn : Turn R)
    (nx : Int) : Option (Turn R) := do
  let vn ← g.vertex nx
  let rel := clockwise backAngle (atan2 (vn.y - c.y) (vn.x - c.x))
  if nx = prev then some { turn with fallbackPrev := nx }
  else if below rel turn.bestRel then some { turn with bestRel := some rel, best := nx }
  else some turn

/-- The neighbour that is the first one clockwise from `backAngle`; `prev` only in a dead end, and
`-1` without a neighbour. -/
def turnFrom (g : Navgraph R) (c : Vertex R) (backAngle : R) (prev : Int) (nb : List Int) :
    Option Int := do
  let turn ← nb.foldlM (g.weighTurn c backAngle prev) ⟨-1, none, -1⟩
  some (if turn.best < 0 then turn.fallbackPrev else turn.best)

/-- The loop over the steps. -/
def cycleFrom (g : Navgraph R) (start : Int) :
    Nat → Int → R → Int → List Int → Option (List Int)
  | 0, _, _, _, cycle => some cycle
  | steps + 1, cur, backAngle, prev, cycle => do
    let c ← g.vertex cur
    let nb ← g.neighbors cur
    let best ← g.turnFrom c backAngle prev nb
    if best < 0 then some []
    else if best = start then some cycle
    else
      let vb ← g.vertex best
      cycleFrom g start steps best (atan2 (c.y - vb.y) (c.x - vb.x)) cur (cycle ++ [best])

/-- `right_hand_boundary_cycle`: empty where no loop is found. -/
def rightHandBoundaryCycle (g : Navgraph R) : Option (List Int) :=
  if g.size < 3 then some []
  else do
    let cycle ← g.cycleFrom g.top (4 * g.vertices.length + 4) g.top pi (-1) [g.top]
    some (if cycle.length < 3 then [] else cycle)

section Range

variable {g : Navgraph R}

theorem topFrom_range (n : Int) (vs : List (Vertex R)) : ∀ i start b,
    0 ≤ i → i + vs.length = n → 0 ≤ start → start < n →
    0 ≤ topFrom i start b vs ∧ topFrom i start b vs < n := by
  induction vs with
  | nil =>
    intro i start b _ _ hstart hlt
    exact ⟨hstart, hlt⟩
  | cons v vs ih =>
    intro i start b hi hn hstart hlt
    rw [List.length_cons] at hn
    unfold topFrom
    split
    · exact ih (i + 1) i v (by omega) (by omega) hi (by omega)
    · exact ih (i + 1) start b (by omega) (by omega) hstart hlt

theorem top_inRange (h : g.vertices ≠ []) : g.InRange g.top := by
  unfold InRange size top
  split
  · contradiction
  · rename_i b vs heq
    rw [heq, List.length_cons]
    apply topFrom_range <;> omega

omit [Angles R] in
theorem neighbors_some {v : Int} (h : g.InRange v) :
    ∃ nb, g.neighbors v = some nb ∧ ∀ u ∈ nb, g.InRange u := by
  obtain ⟨hv, hlt⟩ := h
  have hlen : v.toNat < g.adj.length := by
    rw [g.adj_length]
    unfold size at hlt
    omega
  refine ⟨g.adj[v.toNat], ?_, ?_⟩
  · rw [neighbors, if_pos hv, List.getElem?_eq_getElem hlen]
  · intro u hu
    exact g.adj_range _ (List.getElem_mem hlen) u hu

/-- What a turn leads to is a vertex, if it is anything. -/
def Turn.Sound (g : Navgraph R) (turn : Turn R) : Prop :=
  (0 ≤ turn.best → g.InRange turn.best) ∧ (0 ≤ turn.fallbackPrev → g.InRange turn.fallbackPrev)

theorem weighTurn_some (c : Vertex R) (backAngle : R) (prev : Int) {nx : Int} {turn : Turn R}
    (hnx : g.InRange nx) (h : turn.Sound g) :
    ∃ turn', g.weighTurn c backAngle prev turn nx = some turn' ∧ turn'.Sound g := by
  obtain ⟨vn, hvn⟩ := exists_vertex hnx
  simp only [weighTurn, hvn, Option.bind_eq_bind, Option.bind_some]
  split
  · exact ⟨_, rfl, h.1, fun _ => hnx⟩
  split
  · exact ⟨_, rfl, fun _ => hnx, h.2⟩
  · exact ⟨_, rfl, h⟩

theorem weighTurns_some (c : Vertex R) (backAngle : R) (prev : Int) (nb : List Int) :
    ∀ turn : Turn R, (∀ u ∈ nb, g.InRange u) → turn.Sound g →
    ∃ turn', nb.foldlM (g.weighTurn c backAngle prev) turn = some turn' ∧ turn'.Sound g := by
  induction nb with
  | nil =>
    intro turn _ h
    exact ⟨turn, rfl, h⟩
  | cons nx nb ih =>
    intro turn hnb h
    obtain ⟨hnx, hnb⟩ := List.forall_mem_cons.mp hnb
    obtain ⟨turn1, h1, hsound⟩ := weighTurn_some c backAngle prev hnx h
    obtain ⟨turn', h', hsound'⟩ := ih turn1 hnb hsound
    exact ⟨turn', by rw [List.foldlM_cons, h1]; exact h', hsound'⟩

theorem turnFrom_some (c : Vertex R) (backAngle : R) (prev : Int) {nb : List Int}
    (hnb : ∀ u ∈ nb, g.InRange u) :
    ∃ best, g.turnFrom c backAngle prev nb = some best ∧ (0 ≤ best → g.InRange best) := by
  have hnone : Turn.Sound g ⟨-1, none, -1⟩ := by simp [Turn.Sound]
  obtain ⟨turn, hturn, hsound⟩ := weighTurns_some c backAngle prev nb _ hnb hnone
  refine ⟨_, Option.bind_eq_some_iff.mpr ⟨turn, hturn, rfl⟩, ?_⟩
  split
  · exact hsound.2
  · exact hsound.1

theorem cycleFrom_some (start : Int) (steps : Nat) : ∀ cur backAngle prev cycle,
    g.InRange cur → (∀ v ∈ cycle, g.InRange v) →
    ∃ loop, g.cycleFrom start steps cur backAngle prev cycle = some loop ∧
      ∀ v ∈ loop, g.InRange v := by
  induction steps with
  | zero =>
    intro cur backAngle prev cycle _ hcycle
    exact ⟨cycle, rfl, hcycle⟩
  | succ steps ih =>
    intro cur backAngle prev cycle hcur hcycle
    obtain ⟨c, hc⟩ := exists_vertex hcur
    obtain ⟨nb, hnb, hrange⟩ := neighbors_some hcur
    obtain ⟨best, hbest, hin⟩ := turnFrom_some c backAngle prev hrange
    simp only [cycleFrom, hc, hnb, hbest, Option.bind_eq_bind, Option.bind_some]
    split
    · exact ⟨[], rfl, by simp⟩
    rename_i hnonneg
    split
    · exact ⟨cycle, rfl, hcycle⟩
    have hb := hin (not_lt.mp hnonneg)
    obtain ⟨vb, hvb⟩ := exists_vertex hb
    rw [hvb, Option.bind_some]
    apply ih _ _ _ _ hb
    intro v hv
    rcases List.mem_append.mp hv with hv | hv
    · exact hcycle v hv
    · rw [List.mem_singleton.mp hv]
      exact hb

/-- No lookup of the walk fails, and the loop it returns is made of vertices. -/
theorem rightHandBoundaryCycle_some (g : Navgraph R) :
    ∃ loop, g.rightHandBoundaryCycle = some loop ∧ (∀ v ∈ loop, g.InRange v) ∧
      (loop = [] ∨ 3 ≤ loop.length) := by
  unfold rightHandBoundaryCycle
  split
  · exact ⟨[], rfl, by simp, .inl rfl⟩
  rename_i hsize
  have hne : g.vertices ≠ [] := by
    intro h
    simp [size, h] at hsize
  have htop := top_inRange hne
  obtain ⟨loop, hloop, hrange⟩ := cycleFrom_some g.top (4 * g.vertices.length + 4) g.top pi
    (-1) [g.top] htop (by simpa using htop)
  rw [hloop]
  by_cases hshort : loop.length < 3
  · exact ⟨[], by simp [hshort], by simp, .inl rfl⟩
  · exact ⟨loop, by simp [hshort], hrange, .inr (by omega)⟩

end Range

/-- The built-in route, which the node falls back on. -/
def defaultRoute : List Int := [0, 1, 2, 3, 7, 6, 5, 4]

/-- The `patrol_route` of the parameter `auto`. -/
def autoRoute (g : Navgraph R) : Option (List Int) := do
  let route ← g.rightHandBoundaryCycle
  some (if route.length < 2 then defaultRoute else route)

/-- A loop is found, or the graph has the vertices of the built-in route. -/
def CanPatrol (g : Navgraph R) : Prop := g.rightHandBoundaryCycle ≠ some [] ∨ 8 ≤ g.size

/-- The route that the node makes for itself fits its graph exactly if the node does not fall
back on a route with more vertices than the graph has. -/
theorem autoRoute_some (g : Navgraph R) :
    ∃ route, g.autoRoute = some route ∧ 2 ≤ route.length ∧
      ((∀ v ∈ route, g.InRange v) ↔ g.CanPatrol) := by
  obtain ⟨loop, hloop, hrange, hlen⟩ := g.rightHandBoundaryCycle_some
  refine ⟨_, Option.bind_eq_some_iff.mpr ⟨loop, hloop, rfl⟩, ?_⟩
  unfold CanPatrol
  rw [hloop]
  rcases hlen with rfl | hlen
  · simp only [List.length_nil, Nat.zero_lt_succ, if_true, ne_eq, not_true_eq_false, false_or]
    refine ⟨by decide, ?_⟩
    simp only [defaultRoute, InRange, List.forall_mem_cons]
    constructor
    · rintro ⟨-, -, -, -, h, -⟩
      omega
    · intro h
      simp only [List.not_mem_nil, false_imp_iff, implies_true, and_true]
      omega
  · have hne : loop ≠ [] := by
      rintro rfl
      simp at hlen
    rw [if_neg (by omega)]
    exact ⟨by omega, fun _ => .inl (by simpa using hne), fun _ => hrange⟩

end Navgraph

/-- The map of the library, which the tests load. -/
def libraryMap : NavFile ℚ :=
  .level ([(-34 / 5, 49 / 5), (-19 / 5, 49 / 5), (-6 / 5, 49 / 5), (3 / 5, 49 / 5),
      (-34 / 5, 16 / 5), (-19 / 5, 16 / 5), (-6 / 5, 16 / 5), (3 / 5, 16 / 5)].map some)
    ([(0, 1), (1, 0), (1, 2), (2, 1), (2, 3), (3, 2), (4, 5), (5, 4), (5, 6), (6, 5), (6, 7),
      (7, 6), (0, 4), (4, 0), (1, 5), (5, 1), (2, 6), (6, 2), (3, 7), (7, 3)].map some)

example : (Navgraph.load libraryMap).join.bind Navgraph.rightHandBoundaryCycle =
    some [0, 1, 2, 3, 7, 6, 5, 4] := by decide +kernel

end LibiFleet
