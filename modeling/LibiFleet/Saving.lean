import LibiFleet.Editing
import LibiFleet.Tick
import Mathlib.Data.List.Count

/-!
# From the editor to the fleet

`save_navgraph` answers `ok` whatever the fleet makes of the file. The fleet leaves out a lane that
is not between vertices, and it keeps its graph when the file has no vertex: it drives what was
saved just where neither is the case.
-/

namespace LibiFleet

variable {R : Type}

/-- The number of lanes from `a` to `c` in `adj_`. -/
def Navgraph.held (g : Navgraph R) (a c : Int) : Nat := if g.InRange a then (g.row a).count c else 0

/-- A graph without vertices has nothing else either. -/
theorem Navgraph.eq_of_empty {g g' : Navgraph R} (h : g.vertices = []) (h' : g'.vertices = []) :
    g = g' := by
  have hadj : g.adj = [] := List.eq_nil_of_length_eq_zero (by rw [g.adj_length, h]; rfl)
  have hadj' : g'.adj = [] := List.eq_nil_of_length_eq_zero (by rw [g'.adj_length, h']; rfl)
  exact ext_lists (h.trans h'.symm) (hadj.trans hadj'.symm)

namespace Bridge

/-- A graph has the vertices and the lanes of the editor. -/
def Mirrored (b : Bridge R) (g : Navgraph R) : Prop :=
  g.vertices = b.vertices ∧ ∀ a c, g.held a c = b.lanes.count (a, c)

theorem mapM_some_id {α : Type} (l : List α) : (l.map some).mapM id = some l :=
  mapM_map_eq (f := some) (g := id) (fun _ => rfl) l

theorem load_file (b : Bridge R) :
    Navgraph.load b.file = some (if b.vertices = [] then none else some b.graph) := by
  have hpairs : (b.vertices.map fun v => some (v.x, v.y)).mapM id =
      some (b.vertices.map fun v => (v.x, v.y)) := by
    have hmap := mapM_some_id (b.vertices.map fun v => (v.x, v.y))
    rwa [List.map_map] at hmap
  have hback : (b.vertices.map fun v => (v.x, v.y)).map (fun p => (⟨p.1, p.2⟩ : Vertex R)) =
      b.vertices := by
    simp [List.map_map, Function.comp_def]
  simp only [Navgraph.load, file, hpairs, mapM_some_id, Option.bind_eq_bind, Option.bind_some,
    hback, graph]
  cases b.vertices <;> rfl

/-- What the file keeps of the lanes: those between two vertices, each as often as it is there. -/
theorem held_graph (b : Bridge R) (a c : Int) : b.graph.held a c =
    if b.graph.InRange a ∧ b.graph.InRange c then b.lanes.count (a, c) else 0 := by
  by_cases ha : b.graph.InRange a
  · have hrow := Navgraph.build_row ha
    have hcount : (b.graph.row a).count c =
        b.lanes.countP fun l => l.2 = c ∧ l.1 = a ∧ 0 ≤ l.2 ∧ l.2 < (b.vertices.length : Int) := by
      rw [graph, hrow, List.count, List.countP_map, List.countP_filter]
      apply List.countP_congr
      intro l _
      simp
    rw [Navgraph.held, if_pos ha, hcount]
    simp only [ha, true_and]
    by_cases hc : b.graph.InRange c
    · rw [if_pos hc, List.count]
      apply List.countP_congr
      rintro ⟨u, v⟩ -
      have hrange := inRange_graph.mp hc
      simp only [decide_eq_true_eq, beq_iff_eq, Prod.mk.injEq]
      constructor
      · rintro ⟨rfl, rfl, -⟩
        exact ⟨rfl, rfl⟩
      · rintro ⟨rfl, rfl⟩
        exact ⟨rfl, rfl, hrange⟩
    · rw [if_neg hc, List.countP_eq_zero]
      intro l _ hl
      obtain ⟨rfl, -, hrange⟩ := of_decide_eq_true hl
      exact hc (inRange_graph.mpr hrange)
  · rw [Navgraph.held, if_neg ha, if_neg fun h => ha h.1]

theorem mirrored_graph (b : Bridge R) : b.Mirrored b.graph ↔ b.Closed := by
  constructor
  · rintro ⟨-, hlanes⟩ l hl
    have hheld := hlanes l.1 l.2
    have hpos : 0 < b.lanes.count (l.1, l.2) := List.count_pos_iff.mpr hl
    rw [held_graph] at hheld
    split at hheld
    · assumption
    · omega
  · intro hclosed
    refine ⟨rfl, fun a c => ?_⟩
    rw [held_graph]
    split
    · rfl
    · rename_i hrange
      exact (List.count_eq_zero.mpr fun hl => hrange (hclosed (a, c) hl)).symm

theorem saveNavgraph_some (b : Bridge R) (s : FleetNode R) : ∃ s' r,
    b.saveNavgraph s = some (s', r) ∧ r.ok = true ∧
      s'.graph = if b.vertices = [] then s.graph else b.graph := by
  simp only [saveNavgraph, FleetNode.onReload, load_file, Option.bind_eq_bind, Option.bind_some]
  split
  · rename_i g hg
    refine ⟨_, _, rfl, rfl, ?_⟩
    split at hg
    · cases hg
    · rename_i hv
      rw [if_neg hv]
      exact (Option.some.inj hg).symm
  · rename_i hnone
    refine ⟨_, _, rfl, rfl, ?_⟩
    split at hnone
    · rename_i hv
      rw [if_pos hv]
    · cases hnone

theorem saveNavgraph_mirrored (b : Bridge R) (s : FleetNode R) : ∃ s' r,
    b.saveNavgraph s = some (s', r) ∧ r.ok = true ∧
      (b.Mirrored s'.graph ↔ (b.vertices = [] → s.graph.vertices = []) ∧ b.Closed) := by
  obtain ⟨s', r, hsave, hok, hgraph⟩ := saveNavgraph_some b s
  refine ⟨s', r, hsave, hok, ?_⟩
  rw [hgraph]
  split
  · rename_i hv
    constructor
    · intro h
      have hs : s.graph.vertices = [] := h.1.trans hv
      have heq : s.graph = b.graph := Navgraph.eq_of_empty hs hv
      rw [heq] at h
      exact ⟨fun _ => hs, (mirrored_graph b).mp h⟩
    · rintro ⟨hs, hclosed⟩
      have heq : s.graph = b.graph := Navgraph.eq_of_empty (hs hv) hv
      rw [heq]
      exact (mirrored_graph b).mpr hclosed
  · rename_i hv
    rw [mirrored_graph]
    exact ⟨fun h => ⟨fun hnil => absurd hnil hv, h⟩, And.right⟩

end Bridge

/-- Whatever was edited, saving is answered with `ok`, and the fleet drives what was saved exactly
if every lane is between vertices and there is a vertex, or was none before either. -/
theorem saved_mirrored (b₀ : Bridge R) :
    (∀ b, (editor b₀).Reach (fun _ _ => True) b → ∀ s, ∃ s' r,
      b.saveNavgraph s = some (s', r) ∧ r.ok = true ∧
        (b.Mirrored s'.graph ↔ (b.vertices = [] → s.graph.vertices = []) ∧ b.Closed)) ∧
    (b₀.Proper → ∀ b, (editor b₀).Reach Bridge.Fits b → b.vertices ≠ [] →
      ∀ s s' r, b.saveNavgraph s = some (s', r) → b.Mirrored s'.graph) := by
  constructor
  · exact fun b _ s => b.saveNavgraph_mirrored s
  · intro h b hb hv s s' r hsave
    obtain ⟨s₁, r₁, hsave₁, -, hiff⟩ := b.saveNavgraph_mirrored s
    rw [hsave] at hsave₁
    obtain ⟨rfl, rfl⟩ := Prod.mk.inj (Option.some.inj hsave₁)
    exact hiff.mpr ⟨fun hnil => absurd hnil hv, (reach_proper h hb).closed⟩

/-- The row of three after its middle is gone: two vertices and no lane. -/
theorem saved_mirrored_two : drawing.Proper ∧ ∃ b s' r, (editor drawing).Reach Bridge.Fits b ∧
    b.vertices = [⟨0, 0⟩, ⟨2, 0⟩] ∧
      b.saveNavgraph (.start (Yard.setup false [])) = some (s', r) ∧ b.Mirrored s'.graph := by
  obtain ⟨hruns, hproper⟩ := saved_mirrored drawing
  have hstep : (editor drawing).step drawing (.vertexDel 1) =
      some (drawing.edit (.vertexDel 1)).1 := rfl
  have hfits : (editor drawing).Reach Bridge.Fits (drawing.edit (.vertexDel 1)).1 :=
    .step (a := .vertexDel 1) .start trivial hstep
  have hreach := hfits.mono fun _ _ _ => trivial
  obtain ⟨s', r, hsave, -⟩ := hruns _ hreach (.start (Yard.setup false []))
  exact ⟨drawing_proper, _, s', r, hfits, by decide, hsave,
    hproper drawing_proper _ hfits (by decide) _ _ _ hsave⟩

/-- When its last vertex is deleted, the editor is empty, the answer is `ok`, and the fleet goes
on with the old graph. A lane to a vertex that does not exist is answered with `ok` too. -/
theorem saved_apart : drawing.Proper ∧ (∃ b s' r, (editor drawing).Reach Bridge.Fits b ∧
      b.saveNavgraph (.start (Yard.setup false [])) = some (s', r) ∧ r.ok = true ∧
        b.vertices = [] ∧ s'.graph.vertices ≠ []) ∧
    ∃ b s' r, (editor drawing).Reach (fun _ _ => True) b ∧
      b.saveNavgraph (.start (Yard.setup false [])) = some (s', r) ∧ r.ok = true ∧
        (0, 99) ∈ b.lanes ∧ s'.graph.held 0 99 = 0 := by
  refine ⟨drawing_proper, ?_, ?_⟩
  · obtain ⟨b, hb, hp⟩ := Machine.exists_reach (editor drawing) Bridge.Fits
      (fun b => decide (b.vertices = [])) [.vertexDel 0, .vertexDel 0, .vertexDel 0]
      (by decide +kernel)
    have hv : b.vertices = [] := of_decide_eq_true hp
    obtain ⟨s', r, hsave, hok, hgraph⟩ := b.saveNavgraph_some (.start (Yard.setup false []))
    rw [if_pos hv] at hgraph
    exact ⟨b, s', r, hb, hsave, hok, hv, by rw [hgraph]; decide⟩
  · have hstep : (editor drawing).step drawing (.lane 0 99) =
        some (drawing.edit (.lane 0 99)).1 := rfl
    have hb : (editor drawing).Reach (fun _ _ => True) (drawing.edit (.lane 0 99)).1 :=
      .step .start trivial hstep
    obtain ⟨s', r, hsave, hok, hgraph⟩ :=
      (drawing.edit (.lane 0 99)).1.saveNavgraph_some (.start (Yard.setup false []))
    rw [if_neg (by decide)] at hgraph
    exact ⟨_, s', r, hb, hsave, hok, by decide, by rw [hgraph]; decide⟩

end LibiFleet
