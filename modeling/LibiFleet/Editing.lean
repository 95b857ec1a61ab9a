import LibiFleet.Console
import LibiFleet.Machine

/-!
# The editor of the console

`add_lane`, `del_lane` and `del_vertex` keep the lanes symmetric, without copies and between two
different vertices. What `add_lane` does not look at, unlike `move_vertex` and `del_vertex`, is
whether its vertices exist: the lanes stay in the graph as long as every lane that is added is
between two of its vertices.
-/

namespace LibiFleet

variable {R : Type}

namespace Bridge

/-- The lanes of a graph that is drawn in both directions. -/
structure Tidy (b : Bridge R) : Prop where
  apart : ∀ l ∈ b.lanes, l.1 ≠ l.2
  once : b.lanes.Nodup
  symmetric : ∀ p q, (p, q) ∈ b.lanes ↔ (q, p) ∈ b.lanes

/-- A graph that the editor may start from. -/
structure Proper (b : Bridge R) : Prop extends Tidy b where
  closed : b.Closed

/-- A request does not add a lane to a vertex that does not exist. -/
def Fits (b : Bridge R) : Edit R → Prop
  | .lane p q => p = q ∨ b.graph.InRange p ∧ b.graph.InRange q
  | _ => True

instance (b : Bridge R) : ∀ e, Decidable (b.Fits e)
  | .lane _ _ => inferInstanceAs (Decidable (_ ∨ _))
  | .vertex _ _ _ => .isTrue trivial
  | .laneDel _ _ => .isTrue trivial
  | .vertexDel _ => .isTrue trivial

theorem inRange_graph {b : Bridge R} {v : Int} :
    b.graph.InRange v ↔ 0 ≤ v ∧ v < b.vertices.length := .rfl

theorem mem_joinLane {lanes : List (Int × Int)} {l l' : Int × Int} :
    l' ∈ joinLane lanes l ↔ l' ∈ lanes ∨ l' = l := by
  unfold joinLane
  split
  · rename_i h
    constructor
    · exact .inl
    · rintro (h' | rfl)
      · exact h'
      · exact h
  · simp

theorem joinLane_once {lanes : List (Int × Int)} (h : lanes.Nodup) (l : Int × Int) :
    (joinLane lanes l).Nodup := by
  unfold joinLane
  split
  · exact h
  · rename_i hl
    exact h.append (List.nodup_singleton l) (List.disjoint_singleton.mpr hl)

theorem mem_addLane {b : Bridge R} {p q : Int} (h : p ≠ q) {l : Int × Int} :
    l ∈ (b.addLane p q).1.lanes ↔ l ∈ b.lanes ∨ l = (p, q) ∨ l = (q, p) := by
  simp only [addLane, if_neg h, List.foldl_cons, List.foldl_nil, mem_joinLane, or_assoc]

theorem addLane_self (b : Bridge R) (p : Int) : (b.addLane p p).1 = b := by
  rw [addLane, if_pos rfl]

theorem addLane_vertices (b : Bridge R) (p q : Int) :
    (b.addLane p q).1.vertices = b.vertices := by
  unfold addLane
  split <;> rfl

theorem addLane_tidy {b : Bridge R} (hb : b.Tidy) (p q : Int) : (b.addLane p q).1.Tidy := by
  by_cases h : p = q
  · rw [h, addLane_self]
    exact hb
  constructor
  · intro l hl
    rcases (mem_addLane h).mp hl with hl | rfl | rfl
    · exact hb.apart l hl
    · exact h
    · exact Ne.symm h
  · rw [addLane, if_neg h]
    exact joinLane_once (joinLane_once hb.once _) _
  · intro u v
    have hsymm := hb.symmetric u v
    rw [mem_addLane h, mem_addLane h, hsymm]
    simp only [Prod.mk.injEq]
    constructor
    all_goals
      rintro (hl | ⟨rfl, rfl⟩ | ⟨rfl, rfl⟩)
      · exact .inl hl
      · exact .inr (.inr ⟨rfl, rfl⟩)
      · exact .inr (.inl ⟨rfl, rfl⟩)

/-- Only the new lanes have to be looked at. -/
theorem addLane_closed {b : Bridge R} (hb : b.Closed) (p q : Int) :
    (b.addLane p q).1.Closed ↔ b.Fits (.lane p q) := by
  by_cases h : p = q
  · rw [h, addLane_self]
    exact ⟨fun _ => .inl rfl, fun _ => hb⟩
  have hrange : ∀ v, (b.addLane p q).1.graph.InRange v ↔ b.graph.InRange v := by
    intro v
    rw [inRange_graph, inRange_graph, addLane_vertices]
  constructor
  · intro hc
    have hpq := hc (p, q) ((mem_addLane h).mpr (.inr (.inl rfl)))
    exact .inr ⟨(hrange p).mp hpq.1, (hrange q).mp hpq.2⟩
  · intro hfits
    obtain ⟨hp, hq⟩ := hfits.resolve_left h
    intro l hl
    rw [hrange, hrange]
    rcases (mem_addLane h).mp hl with hl | rfl | rfl
    · exact hb l hl
    · exact ⟨hp, hq⟩
    · exact ⟨hq, hp⟩

theorem mem_delLane {b : Bridge R} {p q : Int} {l : Int × Int} :
    l ∈ (b.delLane p q).1.lanes ↔ l ∈ b.lanes ∧ ({l.1, l.2} : Finset Int) ≠ {p, q} := by
  simp [delLane]

theorem delLane_tidy {b : Bridge R} (hb : b.Tidy) (p q : Int) : (b.delLane p q).1.Tidy := by
  constructor
  · intro l hl
    exact hb.apart l (mem_delLane.mp hl).1
  · exact hb.once.filter _
  · intro u v
    rw [mem_delLane, mem_delLane, hb.symmetric u v, Finset.pair_comm u v]

theorem delLane_closed {b : Bridge R} (hb : b.Closed) (p q : Int) : (b.delLane p q).1.Closed :=
  fun l hl => hb l (mem_delLane.mp hl).1

/-- Two vertices that stay do not get one number. -/
theorem shift_inj {i u v : Int} (hu : u ≠ i) (hv : v ≠ i) : shift i u = shift i v ↔ u = v := by
  unfold shift
  split <;> split <;> omega

theorem shift_range {i v n : Int} (hi : 0 ≤ i ∧ i < n) (hne : v ≠ i) (hv : 0 ≤ v ∧ v < n) :
    0 ≤ shift i v ∧ shift i v < n - 1 := by
  unfold shift
  split <;> omega

section

variable {b : Bridge R} {i : Int}

theorem mem_delVertex (hi : 0 ≤ i ∧ i < b.vertices.length) {l : Int × Int} :
    l ∈ (b.delVertex i).1.lanes ↔
      ∃ l' ∈ b.lanes, (l'.1 ≠ i ∧ l'.2 ≠ i) ∧ (shift i l'.1, shift i l'.2) = l := by
  simp [delVertex, if_pos hi, and_assoc]

theorem delVertex_length (hi : 0 ≤ i ∧ i < b.vertices.length) :
    (b.delVertex i).1.vertices.length + 1 = b.vertices.length := by
  have hlt : i.toNat < b.vertices.length := by omega
  simp only [delVertex, if_pos hi, List.length_eraseIdx_of_lt hlt]
  omega

theorem delVertex_tidy (hb : b.Tidy) (i : Int) : (b.delVertex i).1.Tidy := by
  by_cases hi : 0 ≤ i ∧ i < b.vertices.length
  · constructor
    · intro l hl
      obtain ⟨l', hl', ⟨hu, hv⟩, rfl⟩ := (mem_delVertex hi).mp hl
      intro heq
      exact hb.apart l' hl' ((shift_inj hu hv).mp heq)
    · simp only [delVertex, if_pos hi]
      apply List.Nodup.map_on _ (hb.once.filter _)
      intro l hl l' hl' heq
      have hne := of_decide_eq_true (List.mem_filter.mp hl).2
      have hne' := of_decide_eq_true (List.mem_filter.mp hl').2
      rw [not_or] at hne hne'
      obtain ⟨h₁, h₂⟩ := Prod.mk.inj heq
      exact Prod.ext ((shift_inj hne.1 hne'.1).mp h₁) ((shift_inj hne.2 hne'.2).mp h₂)
    · have swap : ∀ u v, (u, v) ∈ (b.delVertex i).1.lanes → (v, u) ∈ (b.delVertex i).1.lanes := by
        intro u v hl
        obtain ⟨⟨u', v'⟩, hl', ⟨hu, hv⟩, heq⟩ := (mem_delVertex hi).mp hl
        obtain ⟨rfl, rfl⟩ := Prod.mk.inj heq
        exact (mem_delVertex hi).mpr ⟨(v', u'), (hb.symmetric u' v').mp hl', ⟨hv, hu⟩, rfl⟩
      intro u v
      exact ⟨swap u v, swap v u⟩
  · rw [delVertex, if_neg hi]
    exact hb

theorem delVertex_closed (hb : b.Closed) (i : Int) : (b.delVertex i).1.Closed := by
  by_cases hi : 0 ≤ i ∧ i < b.vertices.length
  · intro l hl
    obtain ⟨l', hl', ⟨hu, hv⟩, rfl⟩ := (mem_delVertex hi).mp hl
    have hlength : ((b.delVertex i).1.vertices.length : Int) = b.vertices.length - 1 := by
      have := delVertex_length hi
      omega
    obtain ⟨hp, hq⟩ := hb l' hl'
    rw [inRange_graph, inRange_graph, hlength]
    exact ⟨shift_range hi hu hp, shift_range hi hv hq⟩
  · rw [delVertex, if_neg hi]
    exact hb

end

/-! ## The runs of the editor -/

theorem edit_vertex_lanes (b : Bridge R) (x y : R) (i : Int) :
    (b.edit (.vertex x y i)).1.lanes = b.lanes := by
  simp only [edit, moveVertex, addVertex]
  split
  · split <;> rfl
  · rfl

theorem edit_vertex_length (b : Bridge R) (x y : R) (i : Int) :
    b.vertices.length ≤ (b.edit (.vertex x y i)).1.vertices.length := by
  simp only [edit, moveVertex, addVertex]
  split
  · split
    · rw [List.length_set]
    · exact le_rfl
  · simp

theorem edit_tidy {b : Bridge R} (hb : b.Tidy) (e : Edit R) : (b.edit e).1.Tidy := by
  cases e with
  | vertex x y i =>
    have hlanes := edit_vertex_lanes b x y i
    exact ⟨hlanes ▸ hb.apart, hlanes ▸ hb.once, hlanes ▸ hb.symmetric⟩
  | lane p q => exact addLane_tidy hb p q
  | laneDel p q => exact delLane_tidy hb p q
  | vertexDel i => exact delVertex_tidy hb i

theorem edit_closed {b : Bridge R} (hb : b.Closed) (e : Edit R) :
    (b.edit e).1.Closed ↔ b.Fits e := by
  cases e with
  | vertex x y i =>
    refine iff_of_true ?_ trivial
    intro l hl
    rw [edit_vertex_lanes] at hl
    have hlength := edit_vertex_length b x y i
    have hrange := hb l hl
    simp only [inRange_graph] at hrange ⊢
    omega
  | lane p q => exact addLane_closed hb p q
  | laneDel p q => exact iff_of_true (delLane_closed hb p q) trivial
  | vertexDel i => exact iff_of_true (delVertex_closed hb i) trivial

end Bridge

/-- The editor as it takes one request after the other. -/
def editor (b : Bridge R) : Machine (Bridge R) (Edit R) where
  start := b
  step b e := some (b.edit e).1

theorem reach_tidy {b₀ b : Bridge R} (h : b₀.Tidy) (hb : (editor b₀).Reach (fun _ _ => True) b) :
    b.Tidy := by
  apply hb.invariant (P := Bridge.Tidy) h
  rintro b e b' - hstep hb
  obtain rfl := Option.some.inj hstep
  exact Bridge.edit_tidy hb e

theorem reach_proper {b₀ b : Bridge R} (h : b₀.Proper) (hb : (editor b₀).Reach Bridge.Fits b) :
    b.Proper := by
  apply hb.invariant (P := Bridge.Proper) h
  intro b e b' hfits hstep hb
  obtain rfl := Option.some.inj hstep
  exact ⟨Bridge.edit_tidy hb.toTidy e, (Bridge.edit_closed hb.closed e).mpr hfits⟩

/-- From a proper graph the graph stays proper while the lanes that are added are between vertices
of the graph, and the first lane that is not spoils it. Apart from the range of its lanes the graph
stays proper in every run. -/
theorem editor_proper {b₀ : Bridge R} (h : b₀.Proper) :
    (∀ b, (editor b₀).Reach Bridge.Fits b →
      b.Proper ∧ ∀ e, (b.edit e).1.Proper ↔ b.Fits e) ∧
    ∀ b, (editor b₀).Reach (fun _ _ => True) b → b.Tidy := by
  constructor
  · intro b hb
    have hproper := reach_proper h hb
    refine ⟨hproper, fun e => ⟨?_, ?_⟩⟩
    · intro he
      exact (Bridge.edit_closed hproper.closed e).mp he.closed
    · intro hfits
      exact ⟨Bridge.edit_tidy hproper.toTidy e, (Bridge.edit_closed hproper.closed e).mpr hfits⟩
  · exact fun b hb => reach_tidy h.toTidy hb

/-- Three vertices in a row. -/
def drawing : Bridge ℚ where
  robots := []
  vertices := [⟨0, 0⟩, ⟨1, 0⟩, ⟨2, 0⟩]
  lanes := [(0, 1), (1, 0), (1, 2), (2, 1)]
  once := by decide

theorem drawing_proper : drawing.Proper := by
  refine ⟨⟨by decide, by decide, ?_⟩, by decide⟩
  intro p q
  simp only [drawing, List.mem_cons, Prod.mk.injEq, List.not_mem_nil, or_false]
  omega

/-- A new vertex, a lane to it, and the first vertex deleted. -/
theorem editor_proper_three : ∃ b : Bridge ℚ,
    (editor drawing).Reach Bridge.Fits b ∧ b.lanes = [(0, 1), (1, 0), (2, 1), (1, 2)] ∧
      b.Proper ∧ ¬ (b.edit (.lane 0 3)).1.Proper := by
  obtain ⟨b, hb, hlanes⟩ := Machine.exists_reach (editor drawing) Bridge.Fits
    (fun b => decide (b.lanes = [(0, 1), (1, 0), (2, 1), (1, 2)] ∧ ¬ b.Fits (.lane 0 3)))
    [.vertex 3 0 (-1), .lane 3 2, .vertexDel 0] (by decide +kernel)
  obtain ⟨hlanes, hfits⟩ := of_decide_eq_true hlanes
  obtain ⟨hproper, hnext⟩ := (editor_proper drawing_proper).1 b hb
  exact ⟨b, hb, hlanes, hproper, fun h => hfits ((hnext _).mp h)⟩

/-- A lane to a vertex that does not exist is taken and answered with `true`. -/
theorem editor_breaks : drawing.Proper ∧ (drawing.edit (.lane 0 99)).2 = .lane true ∧
    ∃ b, (editor drawing).Reach (fun _ _ => True) b ∧ (0, 99) ∈ b.lanes ∧
      ¬ b.graph.InRange 99 := by
  have hstep : (editor drawing).step drawing (.lane 0 99) = some (drawing.edit (.lane 0 99)).1 :=
    rfl
  exact ⟨drawing_proper, by decide, _, .step .start trivial hstep, by decide, by decide⟩

/-! ## The graph without a vertex -/

/-- The number of vertex `j` when `i` is left out. -/
def closeGap (i j : Int) : Int := if j < i then j else j - 1

/-- `b'` has the vertices of `b` but `i` and the lanes between them, in their order and as often as
they are there, under the numbers that close the gap. -/
structure Bridge.Induced (b : Bridge R) (i : Int) (b' : Bridge R) : Prop where
  length : b'.vertices.length + 1 = b.vertices.length
  numbers : ∀ k, b'.graph.InRange k ↔ ∃ j, b.graph.InRange j ∧ j ≠ i ∧ closeGap i j = k
  vertex : ∀ j, b.graph.InRange j → j ≠ i → b'.graph.vertex (closeGap i j) = b.graph.vertex j
  lanes : b'.lanes = (b.lanes.filter fun l => l.1 ≠ i ∧ l.2 ≠ i).map
    fun l => (closeGap i l.1, closeGap i l.2)
  closed : b'.Closed
  row : ∀ j, b.graph.InRange j → j ≠ i →
    b'.graph.row (closeGap i j) = ((b.graph.row j).filter (· ≠ i)).map (closeGap i)

namespace Bridge

theorem shift_eq {i j : Int} (h : j ≠ i) : shift i j = closeGap i j := by
  unfold shift closeGap
  split <;> split <;> omega

theorem closeGap_inj {i u v : Int} (hu : u ≠ i) (hv : v ≠ i) :
    closeGap i u = closeGap i v ↔ u = v := by
  rw [← shift_eq hu, ← shift_eq hv, shift_inj hu hv]

/-- The entries of a row, where every lane is between vertices. -/
theorem row_closed {b : Bridge R} (hb : b.Closed) {j : Int} (hj : b.graph.InRange j) :
    b.graph.row j = (b.lanes.filter (·.1 = j)).map (·.2) := by
  refine (Navgraph.build_row hj).trans (congrArg _ (List.filter_congr ?_))
  intro l hl
  have hrange := inRange_graph.mp (hb l hl).2
  simp [hrange]

section

variable {b : Bridge R} {i : Int}

theorem delVertex_numbers (hi : b.graph.InRange i) (k : Int) :
    (b.delVertex i).1.graph.InRange k ↔ ∃ j, b.graph.InRange j ∧ j ≠ i ∧ closeGap i j = k := by
  have hi' := inRange_graph.mp hi
  have hlength := delVertex_length hi'
  rw [inRange_graph]
  constructor
  · intro hk
    by_cases h : k < i
    · refine ⟨k, inRange_graph.mpr (by omega), by omega, ?_⟩
      rw [closeGap, if_pos h]
    · refine ⟨k + 1, inRange_graph.mpr (by omega), by omega, ?_⟩
      rw [closeGap, if_neg (by omega)]
      omega
  · intro h
    obtain ⟨j, hj, hne, rfl⟩ := h
    rw [inRange_graph] at hj
    unfold closeGap
    split <;> omega

theorem delVertex_vertex (hi : b.graph.InRange i) {j : Int} (hj : b.graph.InRange j) (hne : j ≠ i) :
    (b.delVertex i).1.graph.vertex (closeGap i j) = b.graph.vertex j := by
  have hi' := inRange_graph.mp hi
  rw [inRange_graph] at hj
  have hnonneg : 0 ≤ closeGap i j := by
    unfold closeGap
    split <;> omega
  have hvertices : (b.delVertex i).1.graph.vertices = b.vertices.eraseIdx i.toNat := by
    simp only [delVertex, if_pos hi']
    rfl
  rw [Navgraph.vertex, if_pos hnonneg, Navgraph.vertex, if_pos hj.1, hvertices,
    List.getElem?_eraseIdx]
  unfold closeGap
  split
  · rename_i hlt
    rw [if_pos (by omega)]
    rfl
  · rw [if_neg (by omega), show (j - 1).toNat + 1 = j.toNat by omega]
    rfl

theorem delVertex_lanes (hi : b.graph.InRange i) : (b.delVertex i).1.lanes =
    (b.lanes.filter fun l => l.1 ≠ i ∧ l.2 ≠ i).map fun l => (closeGap i l.1, closeGap i l.2) := by
  have hi' := inRange_graph.mp hi
  simp only [delVertex, if_pos hi', not_or]
  apply List.map_congr_left
  intro l hl
  obtain ⟨hu, hv⟩ := of_decide_eq_true (List.mem_filter.mp hl).2
  rw [shift_eq hu, shift_eq hv]

theorem delVertex_row (hb : b.Closed) (hi : b.graph.InRange i) {j : Int} (hj : b.graph.InRange j)
    (hne : j ≠ i) : (b.delVertex i).1.graph.row (closeGap i j) =
      ((b.graph.row j).filter (· ≠ i)).map (closeGap i) := by
  have hj' := (delVertex_numbers hi _).mpr ⟨j, hj, hne, rfl⟩
  rw [row_closed (delVertex_closed hb i) hj', row_closed hb hj, delVertex_lanes hi,
    List.filter_map, List.filter_filter, List.filter_map, List.filter_filter, List.map_map,
    List.map_map]
  have hfilter : b.lanes.filter (fun l => decide (closeGap i l.1 = closeGap i j) &&
        decide (l.1 ≠ i ∧ l.2 ≠ i)) =
      b.lanes.filter fun l => decide (l.2 ≠ i) && decide (l.1 = j) := by
    apply List.filter_congr
    intro l _
    by_cases hl : l.1 = i
    · simp [hl, Ne.symm hne]
    · simp [closeGap_inj hl hne, hl, Bool.and_comm]
  exact congrArg _ hfilter

end

end Bridge

/-- Deleting a vertex of the graph leaves the graph without it, and nothing else is deleted. -/
theorem delVertex_induced {b : Bridge R} (closed : b.Closed) (i : Int) :
    (b.graph.InRange i → ∃ b', b.delVertex i = (b', true) ∧ b.Induced i b') ∧
    (¬ b.graph.InRange i → b.delVertex i = (b, false)) := by
  constructor
  · intro hi
    have hi' := Bridge.inRange_graph.mp hi
    have hanswer : (b.delVertex i).2 = true := by
      simp only [Bridge.delVertex, if_pos hi']
    refine ⟨(b.delVertex i).1, Prod.ext rfl hanswer, ?_⟩
    constructor
    · exact Bridge.delVertex_length hi'
    · exact Bridge.delVertex_numbers hi
    · exact fun j => Bridge.delVertex_vertex hi
    · exact Bridge.delVertex_lanes hi
    · exact Bridge.delVertex_closed closed i
    · exact fun j => Bridge.delVertex_row closed hi
  · intro hi
    rw [Bridge.inRange_graph] at hi
    rw [Bridge.delVertex, if_neg hi]

/-- The end of the row of three is gone, and the middle has its number. -/
theorem delVertex_induced_three : drawing.graph.InRange 0 ∧
    ∃ b', drawing.delVertex 0 = (b', true) ∧ drawing.Induced 0 b' ∧
      b'.lanes = [(0, 1), (1, 0)] := by
  have hrange : drawing.graph.InRange 0 := by decide
  obtain ⟨b', hdel, hinduced⟩ := (delVertex_induced drawing_proper.closed 0).1 hrange
  refine ⟨hrange, b', hdel, hinduced, ?_⟩
  rw [hinduced.lanes]
  decide

end LibiFleet
