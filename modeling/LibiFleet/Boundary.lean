import LibiFleet.FleetNode
import LibiFleet.PatrolCycle
import LibiFleet.Stroll

/-!
# Where the patrol loop is closed, and where it is simple

The loop over the steps of `right_hand_boundary_cycle` ends when the walk is back at its start, at
a vertex without lanes, or at its cap. In the first case the vertices it has passed are a closed
walk along lanes. A walk that the cap has cut is returned all the same.
-/

namespace LibiFleet

variable {R : Type} [Angles R]

namespace Navgraph

/-- `cur`, `back_angle` and `prev`. -/
structure Heading (R : Type) where
  cur : Int
  backAngle : R
  prev : Int

/-- `best`, once the neighbours of `cur` have been weighed. -/
def turn (g : Navgraph R) (k : Heading R) : Option Int := do
  let c ← g.vertex k.cur
  let nb ← g.neighbors k.cur
  g.turnFrom c k.backAngle k.prev nb

/-- Where the walk is after `n` steps, `none` when it has ended before. -/
def heading (g : Navgraph R) : Nat → Option (Heading R)
  | 0 => some ⟨g.top, pi, -1⟩
  | n + 1 => do
    let k ← g.heading n
    let best ← g.turn k
    if best < 0 ∨ best = g.top then none
    else
      let c ← g.vertex k.cur
      let vb ← g.vertex best
      some ⟨best, atan2 (c.y - vb.y) (c.x - vb.x), k.cur⟩

/-- `max_steps`. -/
def maxSteps (g : Navgraph R) : Nat := 4 * g.vertices.length + 4

/-- The walk comes back to its start from where it is after `n` steps. -/
def BackAfter (g : Navgraph R) (n : Nat) : Prop := ∃ k, g.heading n = some k ∧ g.turn k = some g.top

/-- The walk gets back to its start in the steps it has. -/
def GetsBack (g : Navgraph R) : Prop := ∃ n < g.maxSteps, g.BackAfter n

/-- The loop over the steps runs into its cap. -/
def Capped (g : Navgraph R) : Prop := 3 ≤ g.size ∧ g.heading g.maxSteps ≠ none

/-- The walk gets back, and has passed three vertices at least. -/
def Loops (g : Navgraph R) : Prop := 3 ≤ g.size ∧ ∃ n, 2 ≤ n ∧ n < g.maxSteps ∧ g.BackAfter n

/-- No vertex is higher than this one. -/
def Topmost (g : Navgraph R) (a : Int) : Prop :=
  ∃ v, g.vertex a = some v ∧ ∀ w ∈ g.vertices, w.y ≤ v.y

/-- Heights that the tolerance of the comparison takes for the same are the same. -/
def Exact (g : Navgraph R) : Prop :=
  ∀ v ∈ g.vertices, ∀ w ∈ g.vertices, v.y < w.y → v.y + cycleEps < w.y

/-- A closed walk along lanes that starts at a topmost vertex. -/
structure ClosedLoop (g : Navgraph R) (cycle : List Int) : Prop where
  long : 3 ≤ cycle.length
  top : ∃ a, cycle.head? = some a ∧ g.Topmost a
  lanes : cycle.IsChain g.Lane
  closing : ∀ a b, cycle.getLast? = some a → cycle.head? = some b → g.Lane a b

/-- What `right_hand_boundary_cycle` is to return. -/
def CycleOk (g : Navgraph R) (cycle : List Int) : Prop :=
  (cycle = [] ∨ g.ClosedLoop cycle) ∧ (¬ g.GetsBack → cycle = [])

section Turn

variable {g : Navgraph R} {c : Vertex R} {backAngle : R} {prev : Int}

/-- What the loop over the neighbours has found among those it has seen. -/
structure Weighed (prev : Int) (seen : List Int) (turn : Turn R) : Prop where
  best : turn.best = -1 ∧ turn.bestRel = none ∧ (∀ w ∈ seen, w = prev) ∨
    turn.best ∈ seen ∧ turn.best ≠ prev
  fallback : turn.fallbackPrev = -1 ∨ turn.fallbackPrev = prev ∧ prev ∈ seen

theorem Weighed.step {seen : List Int} {turn turn' : Turn R} {nx : Int}
    (h : Weighed prev seen turn) (hstep : g.weighTurn c backAngle prev turn nx = some turn') :
    Weighed prev (seen ++ [nx]) turn' := by
  obtain ⟨vn, -, hstep⟩ := Option.bind_eq_some_iff.mp hstep
  have kept : turn.best ∈ seen ∧ turn.best ≠ prev →
      turn.best ∈ seen ++ [nx] ∧ turn.best ≠ prev :=
    fun hb => ⟨List.mem_append_left _ hb.1, hb.2⟩
  dsimp only at hstep
  split at hstep
  · rename_i hprev
    obtain rfl := Option.some.inj hstep
    refine ⟨?_, .inr ⟨hprev, hprev ▸ List.mem_concat_self⟩⟩
    rcases h.best with ⟨hbest, hrel, hall⟩ | hb
    · refine .inl ⟨hbest, hrel, ?_⟩
      rw [List.forall_mem_append, List.forall_mem_singleton]
      exact ⟨hall, hprev⟩
    · exact .inr (kept hb)
  rename_i hprev
  have hfallback : turn.fallbackPrev = -1 ∨
      turn.fallbackPrev = prev ∧ prev ∈ seen ++ [nx] :=
    h.fallback.imp_right fun hf => ⟨hf.1, List.mem_append_left _ hf.2⟩
  split at hstep
  · obtain rfl := Option.some.inj hstep
    exact ⟨.inr ⟨List.mem_concat_self, hprev⟩, hfallback⟩
  · rename_i hbelow
    obtain rfl := Option.some.inj hstep
    refine ⟨?_, hfallback⟩
    rcases h.best with ⟨-, hrel, -⟩ | hb
    · rw [hrel] at hbelow
      exact absurd rfl hbelow
    · exact .inr (kept hb)

theorem Weighed.run {nb : List Int} : ∀ {seen : List Int} {turn turn' : Turn R},
    Weighed prev seen turn → nb.foldlM (g.weighTurn c backAngle prev) turn = some turn' →
    Weighed prev (seen ++ nb) turn' := by
  induction nb with
  | nil =>
    intro seen turn turn' h hrun
    obtain rfl := Option.some.inj hrun
    rwa [List.append_nil]
  | cons nx nb ih =>
    intro seen turn turn' h hrun
    rw [List.foldlM_cons] at hrun
    obtain ⟨turn1, h1, hrun⟩ := Option.bind_eq_some_iff.mp hrun
    rw [List.append_cons]
    exact ih (h.step h1) hrun

/-- The walk goes on to a neighbour, and back only where there is no other. -/
theorem turnFrom_spec {nb : List Int} {best : Int} (hnb : ∀ u ∈ nb, 0 ≤ u)
    (h : g.turnFrom c backAngle prev nb = some best) (found : 0 ≤ best) :
    best ∈ nb ∧ (best = prev → ∀ w ∈ nb, w = prev) := by
  obtain ⟨turn, hturn, hbest⟩ := Option.bind_eq_some_iff.mp h
  have hnone : Weighed prev [] (⟨-1, none, -1⟩ : Turn R) :=
    ⟨.inl ⟨rfl, rfl, by simp⟩, .inl rfl⟩
  have hw := hnone.run hturn
  rw [List.nil_append] at hw
  have hbest := Option.some.inj hbest
  rcases hw.best with ⟨hneg, -, hall⟩ | ⟨hmem, hne⟩
  · rw [if_pos (by omega)] at hbest
    rcases hw.fallback with hf | ⟨hf, hmem⟩
    · omega
    · rw [← hbest, hf]
      exact ⟨hmem, fun _ => hall⟩
  · rw [if_neg (not_lt.mpr (hnb _ hmem))] at hbest
    rw [← hbest]
    exact ⟨hmem, fun heq => absurd heq hne⟩

omit [Angles R] in
theorem neighbors_row {v : Int} {nb : List Int} (h : g.neighbors v = some nb) :
    nb = g.row v ∧ g.InRange v := by
  unfold neighbors at h
  split at h
  · rename_i hv
    obtain ⟨hlt, hnb⟩ := List.getElem?_eq_some_iff.mp h
    refine ⟨?_, hv, ?_⟩
    · rw [row, List.getD_eq_getElem?_getD, h, Option.getD_some]
    · rw [g.adj_length] at hlt
      unfold size
      omega
  · cases h

theorem turn_spec {k : Heading R} {best : Int} (h : g.turn k = some best) (found : 0 ≤ best) :
    g.Lane k.cur best ∧ (best = k.prev → ∀ w, g.Lane k.cur w → w = k.prev) := by
  obtain ⟨c, -, h⟩ := Option.bind_eq_some_iff.mp h
  obtain ⟨nb, hnb, h⟩ := Option.bind_eq_some_iff.mp h
  obtain ⟨rfl, hrange⟩ := neighbors_row hnb
  obtain ⟨hmem, hback⟩ := turnFrom_spec (fun u hu => (row_range hu).1) h found
  exact ⟨⟨hrange, hmem⟩, fun heq w hw => hback heq w hw.2⟩

end Turn

section Heading

variable {g : Navgraph R} {n m : Nat} {k k' : Heading R}

theorem heading_succ (h : g.heading (n + 1) = some k') : ∃ k, g.heading n = some k ∧
    g.turn k = some k'.cur ∧ 0 ≤ k'.cur ∧ k'.cur ≠ g.top ∧ k'.prev = k.cur := by
  obtain ⟨k, hk, h⟩ := Option.bind_eq_some_iff.mp h
  obtain ⟨best, hbest, h⟩ := Option.bind_eq_some_iff.mp h
  split at h
  · cases h
  · rename_i hgo
    obtain ⟨c, -, h⟩ := Option.bind_eq_some_iff.mp h
    obtain ⟨vb, -, h⟩ := Option.bind_eq_some_iff.mp h
    obtain rfl := Option.some.inj h
    rw [not_or, not_lt] at hgo
    exact ⟨k, hk, hbest, hgo.1, hgo.2, rfl⟩

theorem heading_mono (h : g.heading n ≠ none) (hm : m ≤ n) : g.heading m ≠ none := by
  induction n with
  | zero =>
    obtain rfl : m = 0 := by omega
    exact h
  | succ n ih =>
    by_cases heq : m = n + 1
    · rw [heq]
      exact h
    · obtain ⟨k', hk'⟩ := Option.ne_none_iff_exists'.mp h
      obtain ⟨k, hk, -⟩ := heading_succ hk'
      exact ih (by simp [hk]) (by omega)

/-- After its last step the walk is nowhere. -/
theorem heading_over {best : Int} (hk : g.heading n = some k) (hbest : g.turn k = some best)
    (hover : best < 0 ∨ best = g.top) (hm : n < m) : g.heading m = none := by
  by_contra hne
  obtain ⟨k', hk'⟩ := Option.ne_none_iff_exists'.mp (heading_mono hne hm)
  obtain ⟨k₁, hk₁, hturn, hnonneg, htop, -⟩ := heading_succ hk'
  obtain rfl := Option.some.inj (hk.symm.trans hk₁)
  obtain rfl := Option.some.inj (hbest.symm.trans hturn)
  rcases hover with hneg | heq
  · omega
  · exact htop heq

/-- The entries of `cycle` are where the walk has been. -/
def Traced (g : Navgraph R) (cycle : List Int) : Prop :=
  ∀ i < cycle.length, ∃ k, g.heading i = some k ∧ cycle[i]? = some k.cur

theorem Traced.getD {cycle : List Int} (h : g.Traced cycle) {i : Nat} (hi : i < cycle.length) :
    ∃ k, g.heading i = some k ∧ cycle.getD i 0 = k.cur := by
  obtain ⟨k, hk, hc⟩ := h i hi
  exact ⟨k, hk, by rw [List.getD_eq_getElem?_getD, hc, Option.getD_some]⟩

theorem Traced.stroll {cycle : List Int} (h : g.Traced cycle) :
    Stroll g.Lane (fun i => cycle.getD i 0) cycle.length where
  arc := by
    intro i hi
    obtain ⟨k', hk', heq'⟩ := h.getD hi
    obtain ⟨k, hk, hturn, hnonneg, -, -⟩ := heading_succ hk'
    obtain ⟨k₁, hk₁, heq⟩ := h.getD (show i < cycle.length by omega)
    obtain rfl := Option.some.inj (hk.symm.trans hk₁)
    rw [heq, heq']
    exact (turn_spec hturn hnonneg).1
  away := by
    intro i hi
    obtain ⟨k', hk', heq'⟩ := h.getD hi
    obtain ⟨k₀, hk₀, heq₀⟩ := h.getD (show 0 < cycle.length by omega)
    obtain rfl := Option.some.inj hk₀
    rw [heq', heq₀]
    obtain ⟨-, -, -, -, htop, -⟩ := heading_succ hk'
    exact htop
  back := by
    intro i hi
    obtain ⟨k₂, hk₂, heq₂⟩ := h.getD hi
    obtain ⟨k₁, hk₁, hturn, hnonneg, -, -⟩ := heading_succ hk₂
    obtain ⟨k₀, hk₀, -, -, -, hprev⟩ := heading_succ hk₁
    obtain ⟨k, hk, heq⟩ := h.getD (show i < cycle.length by omega)
    obtain ⟨k', hk', heq'⟩ := h.getD (show i + 1 < cycle.length by omega)
    obtain rfl := Option.some.inj (hk₁.symm.trans hk')
    obtain rfl := Option.some.inj (hk₀.symm.trans hk)
    rw [heq, heq', heq₂, ← hprev]
    exact (turn_spec hturn hnonneg).2

/-! ## The loop -/

theorem Traced.concat {cycle : List Int} (h : g.Traced cycle)
    (hk : g.heading cycle.length = some k) : g.Traced (cycle ++ [k.cur]) := by
  intro i hi
  rw [List.length_append, List.length_singleton] at hi
  by_cases hlast : i = cycle.length
  · rw [hlast]
    exact ⟨k, hk, List.getElem?_concat_length⟩
  · obtain ⟨k₁, hk₁, hc⟩ := h i (by omega)
    exact ⟨k₁, hk₁, by rw [List.getElem?_append_left (by omega), hc]⟩

/-- How the loop over the steps ends. -/
inductive CycleEnds (g : Navgraph R) (m : Nat) : List Int → Prop
  | stuck {n k best} (hn : n < m) (hk : g.heading n = some k) (hbest : g.turn k = some best)
      (hneg : best < 0) : CycleEnds g m []
  | back {n cycle} (hn : n < m) (hc : g.Traced cycle) (length : cycle.length = n + 1)
      (hback : g.BackAfter n) : CycleEnds g m cycle
  | cap {cycle} (hc : g.Traced cycle) (length : cycle.length = m + 1)
      (hm : g.heading m ≠ none) : CycleEnds g m cycle

theorem cycleFrom_ends (steps : Nat) : ∀ {n : Nat} {k : Heading R} {cycle loop : List Int},
    g.heading n = some k → g.Traced cycle → cycle.length = n + 1 →
    g.cycleFrom g.top steps k.cur k.backAngle k.prev cycle = some loop →
    g.CycleEnds (n + steps) loop := by
  induction steps with
  | zero =>
    intro n k cycle loop hk htraced hlength h
    obtain rfl := Option.some.inj h
    exact .cap htraced hlength (by simp [hk])
  | succ steps ih =>
    intro n k cycle loop hk htraced hlength h
    obtain ⟨c, hc, h⟩ := Option.bind_eq_some_iff.mp h
    obtain ⟨nb, hnb, h⟩ := Option.bind_eq_some_iff.mp h
    obtain ⟨best, hbest, h⟩ := Option.bind_eq_some_iff.mp h
    have hturn : g.turn k = some best := by
      simp only [turn, hc, hnb, Option.bind_eq_bind, Option.bind_some, hbest]
    split at h
    · rename_i hneg
      obtain rfl := Option.some.inj h
      exact .stuck (by omega) hk hturn hneg
    rename_i hnonneg
    split at h
    · rename_i hstart
      obtain rfl := Option.some.inj h
      exact .back (by omega) htraced hlength ⟨k, hk, hstart ▸ hturn⟩
    rename_i hgo
    obtain ⟨vb, hvb, h⟩ := Option.bind_eq_some_iff.mp h
    have hnext : g.heading (n + 1) = some ⟨best, atan2 (c.y - vb.y) (c.x - vb.x), k.cur⟩ := by
      simp only [heading, hk, hturn, hc, hvb, Option.bind_eq_bind, Option.bind_some]
      exact if_neg (not_or.mpr ⟨hnonneg, hgo⟩)
    have htraced' : g.Traced (cycle ++ [best]) := htraced.concat (hlength ▸ hnext)
    rw [show n + (steps + 1) = n + 1 + steps by omega]
    exact ih hnext htraced' (by simp [hlength]) h

theorem traced_start (g : Navgraph R) : g.Traced [g.top] := by
  intro i hi
  obtain rfl : i = 0 := by simpa using hi
  exact ⟨_, rfl, rfl⟩

theorem BackAfter.heading_none (h : g.BackAfter n) (hm : n < m) : g.heading m = none := by
  obtain ⟨k, hk, hback⟩ := h
  exact heading_over hk hback (.inr rfl) hm

theorem BackAfter.ne_none (h : g.BackAfter n) : g.heading n ≠ none := by
  obtain ⟨k, hk, -⟩ := h
  simp [hk]

theorem BackAfter.eq (h : g.BackAfter n) (h' : g.BackAfter m) : n = m := by
  rcases Nat.lt_trichotomy n m with hlt | heq | hgt
  · exact absurd (h.heading_none hlt) h'.ne_none
  · exact heq
  · exact absurd (h'.heading_none hgt) h.ne_none

theorem top_nonneg (h : 3 ≤ g.size) : 0 ≤ g.top ∧ g.vertices ≠ [] := by
  have hne : g.vertices ≠ [] := by
    intro hnil
    simp [size, hnil] at h
  exact ⟨(top_inRange hne).1, hne⟩

/-- What the function returns: nothing, the walk up to where it is back at its start, or the walk
that the cap has cut. -/
inductive Returns (g : Navgraph R) : List Int → Prop
  | nothing (hcap : ¬ g.Capped) (hloops : ¬ g.Loops) : Returns g []
  | loop {n cycle} (hloops : g.Loops) (hc : g.Traced cycle) (long : 3 ≤ cycle.length)
      (length : cycle.length = n + 1) (hn : n < g.maxSteps) (hback : g.BackAfter n) :
      Returns g cycle
  | cut {cycle} (hcap : g.Capped) (hc : g.Traced cycle) (length : cycle.length = g.maxSteps + 1) :
      Returns g cycle

theorem CycleEnds.returns {cycle : List Int} (h : g.CycleEnds g.maxSteps cycle)
    (hsize : 3 ≤ g.size) : g.Returns (if cycle.length < 3 then [] else cycle) := by
  cases h with
  | @stuck n k best hn hk hbest hneg =>
    refine .nothing (fun hcap => hcap.2 (heading_over hk hbest (.inl hneg) hn)) ?_
    rintro ⟨-, m, -, -, hback⟩
    obtain ⟨k', hk', hturn⟩ := id hback
    -- the walk cannot be stuck and back
    rcases Nat.lt_trichotomy m n with hlt | rfl | hgt
    · rw [hback.heading_none hlt] at hk
      cases hk
    · obtain rfl := Option.some.inj (hk.symm.trans hk')
      obtain rfl := Option.some.inj (hbest.symm.trans hturn)
      exact absurd hneg (not_lt.mpr (top_nonneg hsize).1)
    · rw [heading_over hk hbest (.inl hneg) hgt] at hk'
      cases hk'
  | @back n _ hn hc length hback =>
    by_cases hshort : cycle.length < 3
    · rw [if_pos hshort]
      refine .nothing (fun hcap => hcap.2 (hback.heading_none hn)) ?_
      rintro ⟨-, m, hm, -, hback'⟩
      have := hback.eq hback'
      omega
    · rw [if_neg hshort]
      exact .loop ⟨hsize, n, by omega, hn, hback⟩ hc (not_lt.mp hshort) length hn hback
  | cap hc length hm =>
    have hlong : ¬ cycle.length < 3 := by
      unfold maxSteps at length
      omega
    rw [if_neg hlong]
    exact .cut ⟨hsize, hm⟩ hc length

theorem rightHandBoundaryCycle_returns {cycle : List Int}
    (h : g.rightHandBoundaryCycle = some cycle) : g.Returns cycle := by
  unfold rightHandBoundaryCycle at h
  split at h
  · rename_i hsize
    obtain rfl := Option.some.inj h
    have hsize : ¬ 3 ≤ g.size := not_le.mpr hsize
    exact .nothing (fun hcap => hsize hcap.1) fun hloops => hsize hloops.1
  · rename_i hsize
    obtain ⟨loop, hloop, h⟩ := Option.bind_eq_some_iff.mp h
    have hends : g.CycleEnds (0 + g.maxSteps) loop :=
      cycleFrom_ends g.maxSteps (k := ⟨g.top, pi, -1⟩) rfl g.traced_start rfl hloop
    rw [Nat.zero_add] at hends
    obtain rfl := Option.some.inj h
    exact hends.returns (not_lt.mp hsize)

end Heading

section Top

variable {g : Navgraph R}

theorem cycleEps_nonneg : (0 : R) ≤ cycleEps := by
  unfold cycleEps
  positivity

/-- Where heights are told apart exactly, the search for the start finds a topmost vertex. -/
theorem topFrom_top (exact : g.Exact) (vs : List (Vertex R)) : ∀ (seen : List (Vertex R)) {b start},
    g.vertices = seen ++ vs → g.vertex start = some b → b ∈ g.vertices → (∀ w ∈ seen, w.y ≤ b.y) →
    g.Topmost (topFrom seen.length start b vs) := by
  induction vs with
  | nil =>
    intro seen b start hvertices hb _ hseen
    rw [List.append_nil] at hvertices
    exact ⟨b, hb, hvertices ▸ hseen⟩
  | cons v vs ih =>
    intro seen b start hvertices hb hmem hseen
    have hv : v ∈ g.vertices := by simp [hvertices]
    have happend : g.vertices = (seen ++ [v]) ++ vs := by simp [hvertices]
    have hlength : ((seen ++ [v]).length : Int) = seen.length + 1 := by simp
    have hvertex : g.vertex seen.length = some v := by
      simp [vertex, hvertices]
    unfold topFrom
    rw [← hlength]
    split
    · rename_i hgo
      have hle : b.y ≤ v.y := by
        rcases hgo with hhigher | ⟨hsame, -⟩
        · exact (le_add_of_nonneg_right cycleEps_nonneg).trans hhigher.le
        · by_contra hlt
          have htold := exact v hv b hmem (not_le.mp hlt)
          have habs := neg_le_of_abs_le hsame
          linarith
      refine ih _ happend hvertex hv ?_
      rw [List.forall_mem_append, List.forall_mem_singleton]
      exact ⟨fun w hw => (hseen w hw).trans hle, le_rfl⟩
    · rename_i hstay
      refine ih _ happend hb hmem ?_
      rw [List.forall_mem_append, List.forall_mem_singleton]
      refine ⟨hseen, ?_⟩
      by_contra hlt
      exact hstay (.inl (exact b hmem v hv (not_le.mp hlt)))

theorem top_topmost (exact : g.Exact) (hne : g.vertices ≠ []) : g.Topmost g.top := by
  obtain ⟨b, vs, hvertices⟩ := List.exists_cons_of_ne_nil hne
  have hb : g.vertex 0 = some b := by simp [vertex, hvertices]
  have htop : g.top = topFrom 1 0 b vs := by simp [top, hvertices]
  rw [htop]
  exact topFrom_top exact vs [b] hvertices hb (by simp [hvertices]) (by simp)

end Top

/-! ## Closed loops -/

section Closed

variable {g : Navgraph R} {cycle : List Int}

theorem Traced.head (h : g.Traced cycle) (hne : cycle ≠ []) : cycle.head? = some g.top := by
  obtain ⟨k, hk, hc⟩ := h 0 (List.length_pos_of_ne_nil hne)
  obtain rfl := Option.some.inj hk
  rwa [List.head?_eq_getElem?]

theorem Traced.lanes (h : g.Traced cycle) : cycle.IsChain g.Lane := by
  rw [List.isChain_iff_getElem]
  intro i hi
  have harc := h.stroll.arc i hi
  simpa [List.getD_eq_getElem?_getD, List.getElem?_eq_getElem hi,
    List.getElem?_eq_getElem (show i < cycle.length by omega)] using harc

theorem Traced.closing {n : Nat} (h : g.Traced cycle) (length : cycle.length = n + 1)
    (hback : g.BackAfter n) (htop : 0 ≤ g.top) :
    ∃ a, cycle.getLast? = some a ∧ g.Lane a g.top := by
  obtain ⟨k, hk, hturn⟩ := hback
  obtain ⟨k', hk', hc⟩ := h n (by omega)
  obtain rfl := Option.some.inj (hk.symm.trans hk')
  refine ⟨k.cur, ?_, (turn_spec hturn htop).1⟩
  rwa [List.getLast?_eq_getElem?, length, Nat.add_sub_cancel]

theorem ne_nil_of_length {n : Nat} (length : cycle.length = n + 1) : cycle ≠ [] := by
  rintro rfl
  cases length

theorem Traced.closedLoop {n : Nat} (h : g.Traced cycle) (length : cycle.length = n + 1)
    (hback : g.BackAfter n) (long : 3 ≤ cycle.length) (htop : 0 ≤ g.top)
    (topmost : g.Topmost g.top) : g.ClosedLoop cycle := by
  have hhead := h.head (ne_nil_of_length length)
  obtain ⟨a, ha, hlane⟩ := h.closing length hback htop
  refine ⟨long, ⟨g.top, hhead, topmost⟩, h.lanes, ?_⟩
  intro a' b ha' hb
  rw [ha] at ha'
  rw [hhead] at hb
  obtain rfl := Option.some.inj ha'
  obtain rfl := Option.some.inj hb
  exact hlane

theorem Returns.ok_iff (h : g.Returns cycle) :
    g.CycleOk cycle ↔ ¬ g.Capped ∧ (g.Loops → g.Topmost g.top) := by
  cases h with
  | nothing hcap hloops =>
    exact iff_of_true ⟨.inl rfl, fun _ => rfl⟩ ⟨hcap, fun hloop => absurd hloop hloops⟩
  | @loop n _ hloops htraced long length hn hback =>
    have hne := ne_nil_of_length length
    constructor
    · intro hok
      refine ⟨fun hcap => hcap.2 (hback.heading_none hn), fun _ => ?_⟩
      obtain ⟨a, ha, htopmost⟩ := (hok.1.resolve_left hne).top
      rw [htraced.head hne] at ha
      exact Option.some.inj ha ▸ htopmost
    · rintro ⟨-, htopmost⟩
      refine ⟨.inr ?_, fun hno => absurd ⟨n, hn, hback⟩ hno⟩
      exact htraced.closedLoop length hback long (top_nonneg hloops.1).1 (htopmost hloops)
  | cut hcap htraced length =>
    refine iff_of_false ?_ fun hno => hno.1 hcap
    rintro ⟨-, hback⟩
    apply ne_nil_of_length length
    apply hback
    rintro ⟨n, hn, hback⟩
    exact hcap.2 (hback.heading_none hn)

/-- The loop that is returned is a closed walk exactly if the loop over the steps does not run into
its cap. The loop starts at a topmost vertex where heights are told apart exactly, and else if the
search for the start has found one. -/
theorem boundaryCycle_closed (g : Navgraph R) : ∃ cycle, g.rightHandBoundaryCycle = some cycle ∧
    (g.CycleOk cycle ↔ ¬ g.Capped ∧ (g.Loops → g.Topmost g.top)) ∧
    (g.Exact → (g.CycleOk cycle ↔ ¬ g.Capped)) := by
  obtain ⟨cycle, hc, -⟩ := g.rightHandBoundaryCycle_some
  have hok := (rightHandBoundaryCycle_returns hc).ok_iff
  refine ⟨cycle, hc, hok, fun exact => ?_⟩
  have htop : g.Loops → g.Topmost g.top := fun hloop =>
    top_topmost exact (top_nonneg hloop.1).2
  rw [hok]
  exact ⟨And.left, fun hcap => ⟨hcap, htop⟩⟩

/-- One-way lanes into a ring that does not lead back. -/
def lasso : Navgraph ℚ :=
  .build [⟨0, 3⟩, ⟨1, 2⟩, ⟨2, 1⟩, ⟨0, 1⟩] [(0, 1), (1, 2), (2, 3), (3, 1)]

/-- The walk around the ring is cut after twenty steps, in the middle of it, and returned. -/
theorem lasso_open : ∃ cycle, lasso.rightHandBoundaryCycle = some cycle ∧ cycle.length = 21 ∧
    lasso.Exact ∧ ¬ lasso.GetsBack ∧ ¬ lasso.ClosedLoop cycle ∧ ¬ lasso.CycleOk cycle := by
  have hc : lasso.rightHandBoundaryCycle =
      some [0, 1, 2, 3, 1, 2, 3, 1, 2, 3, 1, 2, 3, 1, 2, 3, 1, 2, 3, 1, 2] := by decide +kernel
  have hcap : (lasso.heading lasso.maxSteps).isSome = true := by decide +kernel
  have hback : ¬ lasso.GetsBack := by
    rintro ⟨n, hn, hback⟩
    rw [hback.heading_none hn] at hcap
    cases hcap
  have hopen : ¬ lasso.ClosedLoop
      [0, 1, 2, 3, 1, 2, 3, 1, 2, 3, 1, 2, 3, 1, 2, 3, 1, 2, 3, 1, 2] := by
    intro h
    exact absurd (h.closing 2 0 rfl rfl) (by decide +kernel)
  refine ⟨_, hc, rfl, ?_, hback, hopen, fun hok => hopen (hok.1.resolve_left (by simp))⟩
  unfold Exact
  decide +kernel

end Closed

/-- Lanes that are there in both directions, as the editor draws them. -/
def Symmetric (g : Navgraph R) : Prop := ∀ a b, g.Lane a b ↔ g.Lane b a

section Simple

variable {g : Navgraph R} {cycle : List Int}

theorem nodup_iff_getD {l : List Int} :
    l.Nodup ↔ ∀ i j, i < j → j < l.length → l.getD i 0 ≠ l.getD j 0 := by
  rw [List.nodup_iff_getElem?_ne_getElem?]
  constructor
  all_goals
    intro h i j hij hj heq
    apply h i j hij hj
    have hi : i < l.length := by omega
    simpa [List.getD_eq_getElem?_getD, List.getElem?_eq_getElem hi,
      List.getElem?_eq_getElem hj] using heq

/-- What is at two places is there twice. -/
theorem count_of_getD {l : List Int} {i j : Nat} (hij : i < j) (hj : j < l.length)
    (heq : l.getD i 0 = l.getD j 0) : 2 ≤ l.count (l.getD i 0) := by
  have hi : i < l.length := by omega
  have hleft : l.getD i 0 ∈ l.take j := by
    rw [List.mem_take_iff_getElem]
    exact ⟨i, by omega, by simp [List.getElem?_eq_getElem hi]⟩
  have hright : l.getD i 0 ∈ l.drop j := by
    rw [heq, List.mem_drop_iff_getElem]
    exact ⟨0, by omega, by simp [List.getElem?_eq_getElem hj]⟩
  have hcount : l.count (l.getD i 0) =
      (l.take j).count (l.getD i 0) + (l.drop j).count (l.getD i 0) := by
    rw [← List.count_append, List.take_append_drop]
  have := List.count_pos_iff.mpr hleft
  have := List.count_pos_iff.mpr hright
  omega

/-- A walk that the cap has cut is longer than the graph, so a loop that passes no vertex twice is
closed. -/
theorem Returns.closed_of_nodup (h : g.Returns cycle) (hne : cycle ≠ []) (nodup : cycle.Nodup)
    (range : ∀ v ∈ cycle, g.InRange v) :
    g.Lane (cycle.getD (cycle.length - 1) 0) (cycle.getD 0 0) := by
  cases h with
  | nothing => exact absurd rfl hne
  | loop hloops htraced long length hn hback =>
    obtain ⟨a, ha, hlane⟩ := htraced.closing length hback (top_nonneg hloops.1).1
    have hhead := htraced.head hne
    rw [List.getLast?_eq_getElem?] at ha
    rw [List.head?_eq_getElem?] at hhead
    rwa [List.getD_eq_getElem?_getD, ha, List.getD_eq_getElem?_getD, hhead]
  | cut hcap htraced length =>
    have hle := length_le nodup range
    unfold maxSteps at length
    omega

theorem Returns.stroll (h : g.Returns cycle) (hne : cycle ≠ []) :
    3 ≤ cycle.length ∧ Stroll g.Lane (fun i => cycle.getD i 0) cycle.length := by
  cases h with
  | nothing => exact absurd rfl hne
  | loop _ htraced long => exact ⟨long, htraced.stroll⟩
  | cut _ htraced length =>
    refine ⟨?_, htraced.stroll⟩
    unfold maxSteps at length
    omega

omit [Angles R] in
theorem patrolSucc_next {s : FleetCore R} (hs : s.patrolRoute = cycle) (nodup : cycle.Nodup)
    {i : Nat} (hi : i < cycle.length) :
    s.patrolSucc cycle[i] = cycle.getD ((i + 1) % cycle.length) 0 := by
  have hidx : cycle.idxOf? cycle[i] = some i := by
    rw [List.idxOf?_eq_some_iff]
    refine ⟨hi, rfl, fun j hj heq => ?_⟩
    have := nodup.getElem_inj_iff.mp heq
    omega
  simp only [FleetCore.patrolSucc, hs, hidx]

/-- Where the lanes are there in both directions, the loop passes a vertex twice exactly if it runs
into a dead end or passes a junction twice; and then, and only then, the successor of a vertex on
the route is not the next entry everywhere. -/
theorem boundaryCycle_simple (symm : g.Symmetric) (h : g.rightHandBoundaryCycle = some cycle)
    (hne : cycle ≠ []) :
    (cycle.Nodup ↔
      (∀ v ∈ cycle, ¬ DeadEnd g.Lane v) ∧ ∀ v, Junction g.Lane v → cycle.count v ≤ 1) ∧
    ∀ s : FleetCore R, s.patrolRoute = cycle →
      ((∀ i (hi : i < cycle.length),
        s.patrolSucc cycle[i] = cycle.getD ((i + 1) % cycle.length) 0) ↔ cycle.Nodup) := by
  have hreturns := rightHandBoundaryCycle_returns h
  obtain ⟨hlong, hstroll⟩ := hreturns.stroll hne
  have hsymm : ∀ a b, g.Lane a b → g.Lane b a := fun a b => (symm a b).mp
  have hgetD {i : Nat} (hi : i < cycle.length) : cycle.getD i 0 = cycle[i] := by
    rw [List.getD_eq_getElem?_getD, List.getElem?_eq_getElem hi, Option.getD_some]
  refine ⟨⟨fun hnodup => ⟨?_, ?_⟩, ?_⟩, fun s hs => ⟨?_, fun hnodup i hi => ?_⟩⟩
  · obtain ⟨cycle', hc', hrange, -⟩ := g.rightHandBoundaryCycle_some
    obtain rfl := Option.some.inj (h.symm.trans hc')
    have hclosed := hreturns.closed_of_nodup hne hnodup hrange
    have hends := hstroll.through hsymm hlong hclosed (nodup_iff_getD.mp hnodup)
    intro v hv
    obtain ⟨i, hi, rfl⟩ := List.mem_iff_getElem.mp hv
    rw [← hgetD hi]
    exact hends i hi
  · exact fun v _ => List.nodup_iff_count_le_one.mp hnodup v
  · rintro ⟨hthrough, honce⟩
    apply nodup_iff_getD.mpr
    apply hstroll.inj hsymm
    · intro i hi
      exact hthrough _ (hgetD hi ▸ List.getElem_mem hi)
    · intro i j hij hj heq hjunction
      have hcount := count_of_getD hij hj heq
      have := honce _ hjunction
      omega
  · intro hnext
    apply nodup_iff_getD.mpr
    apply hstroll.inj_of_succ
    intro i hi
    rw [hgetD hi]
    exact hnext i hi
  · exact patrolSucc_next hs hnodup hi

omit [Angles R] in
theorem build_symmetric {vertices : List (Vertex R)} {lanes : List (Int × Int)}
    (h : ∀ l ∈ lanes, (l.2, l.1) ∈ lanes) : (build vertices lanes).Symmetric := by
  intro a b
  rw [build_lane, build_lane, and_comm (a := InRange _ b)]
  constructor
  · rintro ⟨hlane, hrange⟩
    exact ⟨h _ hlane, hrange⟩
  · rintro ⟨hlane, hrange⟩
    exact ⟨h _ hlane, hrange⟩

def triangle : Navgraph ℚ :=
  .build [⟨0, 1⟩, ⟨1, 0⟩, ⟨-1, 0⟩] [(0, 1), (1, 0), (1, 2), (2, 1), (2, 0), (0, 2)]

theorem boundaryCycle_simple_triangle : triangle.rightHandBoundaryCycle = some [0, 1, 2] ∧
    (∀ v ∈ [0, 1, 2], ¬ DeadEnd triangle.Lane v) ∧
    ∀ s : FleetCore ℚ, s.patrolRoute = [0, 1, 2] → s.patrolSucc 2 = 0 := by
  have hc : triangle.rightHandBoundaryCycle = some [0, 1, 2] := by decide +kernel
  have symm : triangle.Symmetric := build_symmetric (by decide)
  obtain ⟨hsimple, hsucc⟩ := boundaryCycle_simple symm hc (by simp)
  refine ⟨hc, (hsimple.mp (by decide)).1, fun s hs => ?_⟩
  exact (hsucc s hs).mpr (by decide) 2 (by decide)

/-- Three vertices in a row: the walk turns back at the end. -/
theorem row_twice : ¬ ∀ g : Navgraph ℚ, g.Symmetric →
    ∀ cycle, g.rightHandBoundaryCycle = some cycle → cycle ≠ [] → cycle.Nodup := by
  intro h
  have symm : (build [⟨0, 0⟩, ⟨1, 0⟩, ⟨2, 0⟩] [(0, 1), (1, 0), (1, 2), (2, 1)] :
      Navgraph ℚ).Symmetric := build_symmetric (by decide)
  exact absurd (h _ symm [0, 1, 2, 1] (by decide +kernel) (by simp)) (by decide)

end Simple

end Navgraph

end LibiFleet
