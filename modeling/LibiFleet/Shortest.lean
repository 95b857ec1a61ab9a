import LibiFleet.Dijkstra
import LibiFleet.Survey

/-!
# Dijkstra's search is right

The vectors of the search are a survey of the graph, `pq` holds every vertex that was
found and is not settled, and the rounds of the loop are enough. So the search finds a
way exactly if there is one, and no way is shorter.
-/

namespace LibiFleet

variable {R : Type} [Double R]

namespace Navgraph

/-- The lanes that do not enter the avoided vertex. -/
def net (g : Navgraph R) (avoid : Int) : Net Int R where
  Arc a b := g.Lane a b ∧ b ≠ avoid
  len := g.laneLength
  len_nonneg := g.laneLength_nonneg

/-- The lanes of the vertices in the list. -/
def lanesOf (g : Navgraph R) (done : List Int) : Nat := (done.map fun u => (g.row u).length).sum

end Navgraph

/-- What the vectors of a search say about the vertices. `done` are those whose lanes have been
relaxed. -/
def Search.survey (s : Search R) (g : Navgraph R) (done : List Int) : Survey Int R where
  dist v := if g.InRange v then s.distOf v else none
  prev v := if g.InRange v ∧ s.prevOf v ≠ -1 then some (s.prevOf v) else none
  done := done

namespace Navgraph

variable {g : Navgraph R} {start goal avoid u v : Int} {s : Search R} {done : List Int} {level : R}
variable {pending : Int → Int → Prop}

omit [Double R] in
theorem survey_dist (hv : g.InRange v) : (s.survey g done).dist v = s.distOf v := if_pos hv

omit [Double R] in
theorem survey_set {pq : List (R × Int)} {d : R} (h : Tree g start avoid s) (hu : g.InRange u)
    (hv : g.InRange v) :
    Search.survey ⟨s.dist.set v.toNat (some d), s.prev.set v.toNat u, pq⟩ g done =
      (s.survey g done).reach u v d := by
  have hne : u ≠ -1 := by
    have := hu.1
    omega
  unfold Search.survey Survey.reach
  congr 1
  · funext w
    by_cases hw : g.InRange w
    · rw [if_pos hw, distOf_set h.dist_length hw hv, Function.update_apply]
      split
      · rfl
      · exact (if_pos hw).symm
    · have hwv : w ≠ v := fun he => hw (he ▸ hv)
      rw [if_neg hw, Function.update_of_ne hwv]
      exact (if_neg hw).symm
  · funext w
    by_cases hw : g.InRange w
    · rw [prevOf_set h.prev_length hw hv, Function.update_apply]
      by_cases hwv : w = v
      · simp [hwv, hv, hne]
      · simp [hwv]
    · have hwv : w ≠ v := fun he => hw (he ▸ hv)
      rw [if_neg (fun h => hw h.1), Function.update_of_ne hwv]
      exact (if_neg (fun h => hw h.1)).symm

theorem push_length (e : R × Int) (pq : List (R × Int)) : (push e pq).length = pq.length + 1 := by
  induction pq with
  | nil => rfl
  | cons q qs ih =>
    unfold push
    split
    · rfl
    · simp [ih]

theorem push_sorted {e : R × Int} {pq : List (R × Int)} (h : pq.Pairwise fun a b => a.1 ≤ b.1) :
    (push e pq).Pairwise fun a b => a.1 ≤ b.1 := by
  induction pq with
  | nil => exact List.pairwise_singleton _ _
  | cons q qs ih =>
    obtain ⟨hq, hqs⟩ := List.pairwise_cons.mp h
    unfold push
    split
    · rename_i hle
      have heq : e.1 ≤ q.1 := hle.elim le_of_lt fun h => h.1.le
      apply List.pairwise_cons.mpr
      exact ⟨List.forall_mem_cons.mpr ⟨heq, fun x hx => heq.trans (hq x hx)⟩, h⟩
    · rename_i hlt
      have hqe : q.1 ≤ e.1 := by
        by_contra hcon
        exact hlt (.inl (not_le.mp hcon))
      apply List.pairwise_cons.mpr
      refine ⟨?_, ih hqs⟩
      intro x hx
      rcases mem_push.mp hx with rfl | hx
      · exact hqe
      · exact hq x hx

/-- The nearest entry comes first, no entry is nearer than the distance of its vertex, and every
vertex that was found and is not settled has one with its distance. -/
structure Queue (g : Navgraph R) (s : Search R) (done : List Int) : Prop where
  sorted : s.pq.Pairwise fun a b => a.1 ≤ b.1
  entries : ∀ e ∈ s.pq, g.InRange e.2 ∧ ∃ d, s.distOf e.2 = some d ∧ d ≤ e.1
  fresh : ∀ v d, g.InRange v → v ∉ done → s.distOf v = some d → (d, v) ∈ s.pq

/-- The vectors of a search in the loop. -/
structure Known (g : Navgraph R) (start avoid : Int) (pending : Int → Int → Prop) (level : R)
    (s : Search R) (done : List Int) : Prop where
  tree : Tree g start avoid s
  explored : Explored (g.net avoid) start pending level (s.survey g done)
  nodup : done.Nodup
  range : ∀ v ∈ done, g.InRange v

/-- The cases of the body of the loop over the lanes. -/
theorem relax_cases {du : R} (hu : s.distOf u = some du) (avoid v : Int) :
    (g.relax avoid u s v = s ∧
      (v = avoid ∨ ∃ dv, s.distOf v = some dv ∧ dv ≤ du + g.laneLength u v)) ∨
    (v ≠ avoid ∧ (∀ dv, s.distOf v = some dv → du + g.laneLength u v < dv) ∧
      g.relax avoid u s v = ⟨s.dist.set v.toNat (some (du + g.laneLength u v)),
        s.prev.set v.toNat u, push (du + g.laneLength u v, v) s.pq⟩) := by
  unfold relax
  by_cases hav : v = avoid
  · exact .inl ⟨if_pos hav, .inl hav⟩
  rw [if_neg hav, hu]
  dsimp only
  cases hv : s.distOf v with
  | none => exact .inr ⟨hav, by simp, by simp [below]⟩
  | some dv =>
    by_cases hlt : du + g.laneLength u v < dv
    · refine .inr ⟨hav, ?_, by simp [below, hlt]⟩
      intro e he
      exact Option.some.inj he ▸ hlt
    · exact .inl ⟨by simp [below, hlt], .inr ⟨dv, rfl, not_lt.mp hlt⟩⟩

/-- No entry of the queue is nearer than the distance of its vertex. -/
def Covers (g : Navgraph R) (s : Search R) : Prop :=
  ∀ e ∈ s.pq, g.InRange e.2 ∧ ∃ d, s.distOf e.2 = some d ∧ d ≤ e.1

theorem relax_covers {du : R} (hlen : s.dist.length = g.vertices.length)
    (hd : s.distOf u = some du) (hv : g.InRange v) (h : Covers g s) (avoid : Int) :
    Covers g (g.relax avoid u s v) := by
  obtain ⟨hsame, -⟩ | ⟨-, hfar, hnew⟩ := relax_cases (g := g) hd avoid v
  · rwa [hsame]
  rw [hnew]
  intro e he
  rcases mem_push.mp he with rfl | he
  · refine ⟨hv, _, ?_, le_refl _⟩
    rw [distOf_set hlen hv hv, if_pos rfl]
  · obtain ⟨her, d, hde, hle⟩ := h e he
    rw [distOf_set hlen her hv]
    split
    · rename_i hev
      exact ⟨her, _, rfl, (hfar d (hev ▸ hde)).le.trans hle⟩
    · exact ⟨her, d, hde, hle⟩

/-- The distance of the vertex whose lanes are relaxed stays. -/
theorem relax_distOf {du : R} (hlen : s.dist.length = g.vertices.length)
    (hd : s.distOf u = some du) (hu : g.InRange u) (hv : g.InRange v) (avoid : Int) :
    (g.relax avoid u s v).distOf u = some du := by
  obtain ⟨hsame, -⟩ | ⟨-, hfar, hnew⟩ := relax_cases (g := g) hd avoid v
  · rwa [hsame]
  have huv : u ≠ v := by
    rintro rfl
    exact absurd (hfar du hd) (not_lt.mpr (le_add_of_nonneg_right (g.laneLength_nonneg u u)))
  rw [hnew, distOf_set hlen hu hv, if_neg huv, hd]

theorem relax_known (h : Known g start avoid pending level s done) (hq : Queue g s done)
    (hu : u ∈ done) (hd : s.distOf u = some level) (hv : v ∈ g.row u) :
    Known g start avoid (fun a b => pending a b ∧ ¬ (a = u ∧ b = v)) level (g.relax avoid u s v)
        done ∧ Queue g (g.relax avoid u s v) done ∧
      (g.relax avoid u s v).distOf u = some level ∧
      (g.relax avoid u s v).pq.length ≤ s.pq.length + 1 := by
  have hur : g.InRange u := h.range u hu
  have hvr : g.InRange v := row_range hv
  have hdist : (s.survey g done).dist u = some level := (survey_dist hur).trans hd
  obtain ⟨hsame, hnear⟩ | ⟨hav, hfar, hnew⟩ := relax_cases (g := g) hd avoid v
  · rw [hsame]
    refine ⟨⟨h.tree, ?_, h.nodup, h.range⟩, hq, hd, Nat.le_succ _⟩
    rcases hnear with rfl | ⟨dv, hdv, hle⟩
    · apply h.explored.mono
      intro a b arc hp
      exact ⟨hp, fun he => arc.2 he.2⟩
    · exact h.explored.skip hdist ((survey_dist hvr).trans hdv) hle
  · have htree := relax_tree hur h.tree hv
    have hcovers := relax_covers h.tree.dist_length hd hvr hq.entries avoid
    have hstays := relax_distOf h.tree.dist_length hd hur hvr avoid
    rw [hnew] at htree hcovers hstays ⊢
    have hexplored := h.explored.reach hu hdist ⟨⟨hur, hv⟩, hav⟩
      fun dv hdv => hfar dv ((survey_dist hvr).symm.trans hdv)
    refine ⟨⟨htree, ?_, h.nodup, h.range⟩, ⟨push_sorted hq.sorted, hcovers, ?_⟩, hstays, ?_⟩
    · rw [survey_set h.tree hur hvr]
      exact hexplored
    · intro w d hw hdone hdw
      rw [distOf_set h.tree.dist_length hw hvr] at hdw
      apply mem_push.mpr
      split at hdw
      · rename_i hwv
        obtain rfl := Option.some.inj hdw
        exact .inl (by rw [hwv])
      · exact .inr (hq.fresh w d hw hdone hdw)
    · rw [push_length]

/-- The loop over the lanes of the vertex that has just been settled. -/
theorem relaxAll_known (vs : List Int) : ∀ {s : Search R}, (∀ v ∈ vs, v ∈ g.row u) →
    Known g start avoid (fun a b => a = u ∧ b ∈ vs) level s done → Queue g s done → u ∈ done →
    s.distOf u = some level →
    Known g start avoid (fun _ _ => False) level (vs.foldl (g.relax avoid u) s) done ∧
      Queue g (vs.foldl (g.relax avoid u) s) done ∧
      (vs.foldl (g.relax avoid u) s).pq.length ≤ s.pq.length + vs.length := by
  induction vs with
  | nil =>
    intro s _ h hq _ _
    refine ⟨⟨h.tree, h.explored.mono ?_, h.nodup, h.range⟩, hq, Nat.le_add_right _ _⟩
    intro a b _ hp
    exact List.not_mem_nil hp.2
  | cons v vs ih =>
    intro s hvs h hq hu hd
    obtain ⟨hv, hvs⟩ := List.forall_mem_cons.mp hvs
    obtain ⟨h1, hq1, hd1, hlen1⟩ := relax_known h hq hu hd hv
    have h2 : Known g start avoid (fun a b => a = u ∧ b ∈ vs) level (g.relax avoid u s v) done := by
      refine ⟨h1.tree, h1.explored.mono ?_, h1.nodup, h1.range⟩
      intro a b _ hp
      have hb : b ≠ v := fun he => hp.2 ⟨hp.1.1, he⟩
      exact ⟨hp.1.1, (List.mem_cons.mp hp.1.2).resolve_left hb⟩
    obtain ⟨h3, hq3, hlen3⟩ := ih hvs h2 hq1 hu hd1
    refine ⟨h3, hq3, ?_⟩
    rw [List.foldl_cons, List.length_cons]
    omega

/-- The lanes of a vertex that was settled before are relaxed in vain. -/
theorem relaxAll_settled {du : R} (hd : s.distOf u = some du) (vs : List Int)
    (near : ∀ v ∈ vs, v = avoid ∨ ∃ dv, s.distOf v = some dv ∧ dv ≤ du + g.laneLength u v) :
    vs.foldl (g.relax avoid u) s = s := by
  induction vs with
  | nil => rfl
  | cons v vs ih =>
    obtain ⟨hv, hvs⟩ := List.forall_mem_cons.mp near
    have hsame : g.relax avoid u s v = s := by
      obtain ⟨hsame, -⟩ | ⟨hav, hfar, -⟩ := relax_cases (g := g) hd avoid v
      · exact hsame
      · obtain rfl | ⟨dv, hdv, hle⟩ := hv
        · exact absurd rfl hav
        · exact absurd (hfar dv hdv) (not_lt.mpr hle)
    rw [List.foldl_cons, hsame]
    exact ih hvs

/-! ## The rounds are enough -/

omit [Double R] in
theorem laneCount_eq (g : Navgraph R) :
    g.laneCount = ((List.range g.vertices.length).map fun i => (g.adj.getD i []).length).sum := by
  have hadj : g.adj = (List.range g.vertices.length).map fun i => g.adj.getD i [] := by
    apply List.ext_getElem
    · simp [g.adj_length]
    · intro i h1 h2
      simp [List.getElem?_eq_getElem h1]
  unfold laneCount
  conv_lhs => rw [hadj]
  rw [List.map_map]
  rfl

omit [Double R] in
theorem lanesOf_le (nodup : done.Nodup) (range : ∀ v ∈ done, g.InRange v) :
    g.lanesOf done ≤ g.laneCount := by
  obtain ⟨l, hperm, hsublist⟩ := vertices_subperm nodup range
  have hsum := (hsublist.map fun i => (g.adj.getD i []).length).sum_le_sum fun _ _ => Nat.zero_le _
  rw [(hperm.map _).sum_eq, List.map_map] at hsum
  rw [laneCount_eq]
  exact hsum

/-- The loop over the queue without a bound on its rounds: it ends in the second search. -/
inductive Runs (g : Navgraph R) (goal avoid : Int) : Search R → Search R → Prop
  | empty {s : Search R} (hempty : s.pq = []) : Runs g goal avoid s s
  | stale {s s' : Search R} {d : R} {u : Int} {pq : List (R × Int)} (head : s.pq = (d, u) :: pq)
      (far : (s.distOf u).any (· < d) = true) (rest : Runs g goal avoid { s with pq } s') :
      Runs g goal avoid s s'
  | goal {s : Search R} {d : R} {pq : List (R × Int)} (head : s.pq = (d, goal) :: pq)
      (near : (s.distOf goal).any (· < d) = false) : Runs g goal avoid s { s with pq }
  | relax {s s' : Search R} {d : R} {u : Int} {pq : List (R × Int)} (head : s.pq = (d, u) :: pq)
      (near : (s.distOf u).any (· < d) = false) (other : u ≠ goal)
      (rest : Runs g goal avoid ((g.row u).foldl (g.relax avoid u) { s with pq }) s') :
      Runs g goal avoid s s'

/-- The vectors of a search that has stopped. -/
structure Searched (g : Navgraph R) (start goal avoid : Int) (s : Search R) (done : List Int) :
    Prop where
  tree : Tree g start avoid s
  settled : ∃ level, Settled (g.net avoid) start level (s.survey g done)
  nodup : done.Nodup
  range : ∀ v ∈ done, g.InRange v
  stopped : (∀ v, g.InRange v → s.distOf v ≠ none → v ∈ done) ∨
    ∃ d, s.distOf goal = some d ∧ (s.survey g done).Least d

theorem Known.searched (h : Known g start avoid (fun _ _ => False) level s done)
    (hq : Queue g s done) (hempty : s.pq = []) : Searched g start goal avoid s done := by
  refine ⟨h.tree, ⟨level, h.explored⟩, h.nodup, h.range, .inl ?_⟩
  intro v hv hfound
  by_contra hdone
  obtain ⟨d, hd⟩ := Option.ne_none_iff_exists'.mp hfound
  have hmem := hq.fresh v d hv hdone hd
  rw [hempty] at hmem
  cases hmem

section Pop

variable {d : R} {pq : List (R × Int)}

theorem Known.pop (h : Known g start avoid pending level s done) (hpq : s.pq = (d, u) :: pq) :
    Known g start avoid pending level { s with pq } done := by
  refine ⟨⟨h.tree.dist_length, h.tree.prev_length, ?_, h.tree.root, h.tree.edge⟩, h.explored,
    h.nodup, h.range⟩
  intro e he
  exact h.tree.queue e (hpq ▸ List.mem_cons_of_mem _ he)

/-- The first entry may go if its vertex is settled, or is nearer than the entry says. -/
theorem Queue.pop (h : Queue g s done) (hpq : s.pq = (d, u) :: pq) {done' : List Int}
    (hsub : ∀ v ∈ done, v ∈ done') (hgone : u ∉ done' → s.distOf u ≠ some d) :
    Queue g { s with pq } done' where
  sorted := (List.pairwise_cons.mp (hpq ▸ h.sorted)).2
  entries := (List.forall_mem_cons.mp (hpq ▸ h.entries)).2
  fresh := by
    intro v d' hv hdone hd'
    have hmem := h.fresh v d' hv (fun hold => hdone (hsub v hold)) hd'
    rw [hpq] at hmem
    apply (List.mem_cons.mp hmem).resolve_left
    intro heq
    cases heq
    exact hgone hdone hd'

theorem Queue.least (h : Queue g s done) (hpq : s.pq = (d, u) :: pq) :
    (s.survey g done).Least d := by
  intro v e hv he
  by_cases hvr : g.InRange v
  · have hmem := h.fresh v e hvr hv ((survey_dist hvr).symm.trans he)
    rw [hpq] at hmem
    rcases List.mem_cons.mp hmem with heq | hmem
    · exact (Prod.mk.inj heq).1.ge
    · have hsorted : ((d, u) :: pq).Pairwise fun a b => a.1 ≤ b.1 := hpq ▸ h.sorted
      exact (List.pairwise_cons.mp hsorted).1 _ hmem
  · simp [Search.survey, hvr] at he

/-- The nearest vertex that is not settled is settled, and its lanes are relaxed. -/
theorem settle_known (h : Known g start avoid (fun _ _ => False) level s done)
    (hq : Queue g s done) (hpq : s.pq = (d, u) :: pq) (hu : g.InRange u) (hdone : u ∉ done)
    (hd : s.distOf u = some d) :
    Known g start avoid (fun _ _ => False) d ((g.row u).foldl (g.relax avoid u) { s with pq })
        (u :: done) ∧
      Queue g ((g.row u).foldl (g.relax avoid u) { s with pq }) (u :: done) ∧
      ((g.row u).foldl (g.relax avoid u) { s with pq }).pq.length ≤
        pq.length + (g.row u).length := by
  have hpop := h.pop hpq
  have hqueue : Queue g { s with pq } (u :: done) :=
    hq.pop hpq (fun _ hv => List.mem_cons_of_mem _ hv) fun hn => absurd List.mem_cons_self hn
  have hsettle : Known g start avoid (fun a b => a = u ∧ b ∈ g.row u) d { s with pq }
      (u :: done) := by
    refine ⟨hpop.tree, ?_, List.nodup_cons.mpr ⟨hdone, h.nodup⟩,
      List.forall_mem_cons.mpr ⟨hu, h.range⟩⟩
    apply (h.explored.settle hdone ((survey_dist hu).trans hd) (hq.least hpq)).mono
    intro a b arc ha
    exact ⟨ha, ha ▸ arc.1.2⟩
  exact relaxAll_known (g.row u) (fun _ hv => hv) hsettle hqueue List.mem_cons_self hd

/-- A vertex that was settled before is left as it is. -/
theorem resettle_known (pq : List (R × Int))
    (h : Known g start avoid (fun _ _ => False) level s done) (hu : g.InRange u) (hdone : u ∈ done)
    (hd : s.distOf u = some d) :
    (g.row u).foldl (g.relax avoid u) { s with pq } = { s with pq } := by
  apply relaxAll_settled (s := { s with pq }) hd
  intro v hv
  by_cases hav : v = avoid
  · exact .inl hav
  · obtain ⟨d', dv, hd', hdv, hle⟩ := h.explored.closed u v hdone ⟨⟨hu, hv⟩, hav⟩ not_false
    rw [survey_dist hu, hd] at hd'
    obtain rfl := Option.some.inj hd'
    exact .inr ⟨dv, (survey_dist (row_range hv)).symm.trans hdv, hle⟩

end Pop

/-- Every round takes an entry from the queue, and the lanes of a vertex are relaxed only once. -/
theorem searchLoop_searched (fuel : Nat) : ∀ {s : Search R} {done : List Int} {level : R},
    Known g start avoid (fun _ _ => False) level s done → Queue g s done →
    s.pq.length + g.laneCount ≤ fuel + g.lanesOf done →
    Runs g goal avoid s (g.searchLoop goal avoid fuel s) ∧
      ∃ done', Searched g start goal avoid (g.searchLoop goal avoid fuel s) done' := by
  induction fuel with
  | zero =>
    intro s done level h hq hfuel
    have hle := lanesOf_le h.nodup h.range
    have hempty : s.pq = [] := List.length_eq_zero_iff.mp (by omega)
    exact ⟨.empty hempty, done, h.searched hq hempty⟩
  | succ fuel ih =>
    intro s done level h hq hfuel
    unfold searchLoop
    split
    · rename_i hempty
      exact ⟨.empty hempty, done, h.searched hq hempty⟩
    rename_i d u pq hpq
    have hpop := h.pop hpq
    obtain ⟨hu, du, hdu, hle⟩ := hq.entries (d, u) (by simp [hpq])
    have hbudget : pq.length + 1 + g.laneCount ≤ fuel + 1 + g.lanesOf done := by
      rwa [hpq, List.length_cons] at hfuel
    have hround : ({ s with pq } : Search R).pq.length + g.laneCount ≤ fuel + g.lanesOf done := by
      dsimp only
      omega
    have hsame : Search.distOf { s with pq } u = some du := hdu
    have hany : (s.distOf u).any (· < d) = decide (du < d) := by
      rw [hdu, Option.any_some]
    dsimp only
    rw [hsame, Option.any_some]
    split
    · rename_i hstale
      obtain ⟨hruns, hdone⟩ := ih hpop (hq.pop hpq (fun _ hv => hv) fun _ hcon => by
        rw [hdu] at hcon
        simp [Option.some.inj hcon] at hstale) hround
      exact ⟨.stale hpq (hany.trans hstale) hruns, hdone⟩
    rename_i hcurrent
    have hnear : (s.distOf u).any (· < d) = false := by
      rw [hany]
      exact Bool.eq_false_of_not_eq_true hcurrent
    obtain rfl : du = d := le_antisymm hle (by simpa using hcurrent)
    split
    · rename_i hgoal
      subst hgoal
      exact ⟨.goal hpq hnear, done, hpop.tree, ⟨level, h.explored⟩, h.nodup, h.range,
        .inr ⟨du, hdu, hq.least hpq⟩⟩
    rename_i hother
    by_cases hdone : u ∈ done
    · have hsettled := resettle_known pq h hu hdone hdu
      have hrest := ih hpop (hq.pop hpq (fun _ hv => hv) fun hn => absurd hdone hn) hround
      rw [← hsettled] at hrest
      exact ⟨.relax hpq hnear hother hrest.1, hrest.2⟩
    · obtain ⟨h1, hq1, hlen⟩ := settle_known h hq hpq hu hdone hdu
      have hlanes : g.lanesOf (u :: done) = (g.row u).length + g.lanesOf done := by
        simp [lanesOf]
      have hrest := ih h1 hq1 (by omega)
      exact ⟨.relax hpq hnear hother hrest.1, hrest.2⟩

theorem startSearch_searched (goal avoid : Int) (hs : g.InRange start) {fuel : Nat}
    (hfuel : g.laneCount + 1 ≤ fuel) :
    Runs g goal avoid (g.startSearch start) (g.searchLoop goal avoid fuel (g.startSearch start)) ∧
    ∃ done, Searched g start goal avoid (g.searchLoop goal avoid fuel (g.startSearch start))
      done := by
  have hsurvey : (g.startSearch start).survey g [] = Survey.start start := by
    unfold Search.survey Survey.start
    congr 1
    · funext v
      rw [Function.update_apply]
      by_cases hv : g.InRange v
      · rw [if_pos hv, startSearch_distOf hs hv]
      · have hne : v ≠ start := fun he => hv (he ▸ hs)
        rw [if_neg hv, if_neg hne]
    · funext v
      simp [startSearch_prevOf]
  have hknown : Known g start avoid (fun _ _ => False) 0 (g.startSearch start) [] := by
    refine ⟨startSearch_tree hs, ?_, List.nodup_nil, by simp⟩
    rw [hsurvey]
    exact Explored.initial _ start
  have hqueue : Queue g (g.startSearch start) [] := by
    constructor
    · exact List.pairwise_singleton _ _
    · intro e he
      obtain rfl := List.mem_singleton.mp he
      exact ⟨hs, 0, by simp [startSearch_distOf hs hs], le_refl 0⟩
    · intro v d hv _ hd
      rw [startSearch_distOf hs hv] at hd
      split at hd
      · rename_i heq
        obtain rfl := Option.some.inj hd
        exact heq ▸ List.mem_singleton_self _
      · cases hd
  apply searchLoop_searched _ hknown hqueue
  simp only [startSearch, lanesOf, List.length_singleton, List.map_nil, List.sum_nil]
  omega

/-- One lane of `path_cost`. -/
theorem pathCostFrom_lane {c : R} {rest : List Int} (hu : g.InRange u) (hv : g.InRange v) :
    g.pathCostFrom c (u :: v :: rest) = g.pathCostFrom (c + g.laneLength u v) (v :: rest) := by
  obtain ⟨p, hp⟩ := exists_vertex hu
  obtain ⟨q, hq⟩ := exists_vertex hv
  have hp' : g.vertices[u.toNat]? = some p := by simpa [vertex, hu.1] using hp
  have hq' : g.vertices[v.toNat]? = some q := by simpa [vertex, hv.1] using hq
  simp [pathCostFrom, laneLength, hp, hq, hp', hq']

section Back

variable {d : R}

omit [Double R] in
theorem survey_prev (hv : g.InRange v) (hp : s.prevOf v ≠ -1) :
    (s.survey g done).prev v = some (s.prevOf v) := if_pos ⟨hv, hp⟩

omit [Double R] in
/-- Going back along settled vertices visits each of them once at most. -/
theorem walkBack_some (l : List Int) : ∀ (fuel : Nat) (v : Int) (path : List Int),
    Founded (s.survey g done).prev l → l.Nodup → (∀ w ∈ l, g.InRange w) → v ∈ l →
    l.length ≤ fuel →
    ∃ back, walkBack s.prev fuel v path = some (back ++ path) ∧ back.Nodup ∧ ∀ w ∈ back, w ∈ l := by
  induction l with
  | nil =>
    intro fuel v path _ _ _ hv
    cases hv
  | cons w rest ih =>
    intro fuel v path hf hn hr hv hfuel
    rw [List.length_cons] at hfuel
    obtain ⟨hw, hrest⟩ := List.forall_mem_cons.mp hr
    obtain ⟨hfresh, hnrest⟩ := List.nodup_cons.mp hn
    rcases List.mem_cons.mp hv with rfl | hv
    · obtain ⟨fuel, rfl⟩ : ∃ n, fuel = n + 1 := ⟨fuel - 1, by omega⟩
      have hne : v ≠ -1 := by
        have := hw.1
        omega
      rw [walkBack, if_neg hne]
      change ∃ back, walkBack s.prev fuel (s.prevOf v) (v :: path) = some (back ++ path) ∧ _
      by_cases hp : s.prevOf v = -1
      · refine ⟨[v], ?_, List.nodup_singleton v, by simp⟩
        rw [hp]
        cases fuel <;> rfl
      · have hparent := hf.1 _ (survey_prev hw hp)
        obtain ⟨back, hback, hnodup, hmem⟩ := ih fuel _ (v :: path) hf.2 hnrest hrest
          hparent (by omega)
        refine ⟨back ++ [v], by simpa using hback, ?_, ?_⟩
        · apply List.nodup_append.mpr
          refine ⟨hnodup, List.nodup_singleton v, ?_⟩
          intro a ha b hb hab
          rw [hab, List.mem_singleton.mp hb] at ha
          exact hfresh (hmem v ha)
        · intro a ha
          rcases List.mem_append.mp ha with ha | ha
          · exact List.mem_cons_of_mem _ (hmem a ha)
          · exact List.mem_singleton.mp ha ▸ List.mem_cons_self
    · obtain ⟨back, hback, hnodup, hmem⟩ := ih fuel v path hf.2 hnrest hrest hv
        (by omega)
      exact ⟨back, hback, hnodup, fun a ha => List.mem_cons_of_mem _ (hmem a ha)⟩

/-- The vertices of the way back are as far apart as their distances say. -/
theorem walkBack_cost (h : Searched g start goal avoid s done) {total : R} (fuel : Nat) :
    ∀ {a : Int} {d : R} {rest path : List Int},
      walkBack s.prev fuel (s.prevOf a) (a :: rest) = some path → g.InRange a →
      s.distOf a = some d → g.pathCostFrom d (a :: rest) = some total →
      g.pathCost path = some total := by
  obtain ⟨level, hsettled⟩ := h.settled
  have atStart {a : Int} {d : R} {rest : List Int} (hp : s.prevOf a = -1) (ha : g.InRange a)
      (hd : s.distOf a = some d) (hcost : g.pathCostFrom d (a :: rest) = some total) :
      g.pathCost (a :: rest) = some total := by
    have hstart : a = start := h.tree.root a ha (by simp [hd]) hp
    have hzero : d = 0 := by
      have horigin := hsettled.origin
      rw [← hstart, survey_dist ha, hd] at horigin
      exact Option.some.inj horigin
    rwa [hzero] at hcost
  induction fuel with
  | zero =>
    intro a d rest path hw ha hd hcost
    unfold walkBack at hw
    split at hw
    · obtain rfl := Option.some.inj hw
      exact atStart ‹_› ha hd hcost
    · cases hw
  | succ fuel ih =>
    intro a d rest path hw ha hd hcost
    unfold walkBack at hw
    split at hw
    · obtain rfl := Option.some.inj hw
      exact atStart ‹_› ha hd hcost
    · rename_i hp
      obtain ⟨-, arc, dp, hdp, hda⟩ := hsettled.parents a _ (survey_prev ha hp)
      have hr : g.InRange (s.prevOf a) := arc.1.1
      rw [survey_dist hr] at hdp
      rw [survey_dist ha, hd] at hda
      apply ih hw hr hdp
      rw [pathCostFrom_lane hr ha]
      have hlen : d = dp + g.laneLength (s.prevOf a) a := Option.some.inj hda
      exact hlen ▸ hcost

end Back

/-! ## The shortest way -/

/-- A walk from `a` to `b` whose every step is one of `step`. -/
structure Leads (step : Int → Int → Prop) (a b : Int) (path : List Int) : Prop where
  head : path.head? = some a
  last : path.getLast? = some b
  steps : path.IsChain step

/-- The walk is a trip of the length that `path_cost` computes. -/
theorem Leads.trip {a b : Int} {path : List Int} {d : R}
    (h : Leads (g.net avoid).Arc a b path) (hcost : g.pathCost path = some d) :
    (g.net avoid).Trip a b d := by
  have along (rest : List Int) : ∀ (v : Int) (c : R), (v :: rest).IsChain (g.net avoid).Arc →
      (v :: rest).getLast? = some b → g.pathCostFrom c (v :: rest) = some d →
      (g.net avoid).Trip a v c → (g.net avoid).Trip a b d := by
    induction rest with
    | nil =>
      intro v c _ hlast hcost trip
      cases hlast
      cases hcost
      exact trip
    | cons w rest ih =>
      intro v c hchain hlast hcost trip
      obtain ⟨arc, hchain⟩ := List.isChain_cons_cons.mp hchain
      rw [List.getLast?_cons_cons] at hlast
      rw [pathCostFrom_lane arc.1.1 arc.1.target] at hcost
      exact ih w _ hchain hlast hcost (trip.go arc)
  obtain ⟨hhead, hlast, hsteps⟩ := h
  cases path with
  | nil => cases hhead
  | cons v rest =>
    obtain rfl : v = a := Option.some.inj hhead
    exact along rest v 0 hsteps hlast hcost .stay

theorem Leads.range {a b : Int} {path : List Int} (h : Leads (g.net avoid).Arc a b path)
    (ha : g.InRange a) : ∀ v ∈ path, g.InRange v := by
  have along (rest : List Int) : ∀ v, g.InRange v → (v :: rest).IsChain (g.net avoid).Arc →
      ∀ w ∈ v :: rest, g.InRange w := by
    induction rest with
    | nil =>
      intro v hv _ w hw
      rwa [List.mem_singleton.mp hw]
    | cons u rest ih =>
      intro v hv hchain
      obtain ⟨arc, hchain⟩ := List.isChain_cons_cons.mp hchain
      exact List.forall_mem_cons.mpr ⟨hv, ih u arc.1.target hchain⟩
  cases path with
  | nil => simp
  | cons v rest =>
    obtain rfl : v = a := Option.some.inj h.head
    exact along rest v ha h.steps

namespace Searched

/-- Every trip to the goal shows that the goal was found, and no farther away. -/
theorem found (h : Searched g start goal avoid s done) (hg : g.InRange goal) {e : R}
    (trip : (g.net avoid).Trip start goal e) : ∃ d, s.distOf goal = some d ∧ d ≤ e := by
  obtain ⟨level, hsettled⟩ := h.settled
  have hdist : (s.survey g done).dist goal = s.distOf goal := survey_dist hg
  rw [← hdist]
  obtain hall | ⟨d, hd, least⟩ := h.stopped
  · apply hsettled.complete _ trip
    intro w hw
    by_cases hwr : g.InRange w
    · rw [survey_dist hwr] at hw
      exact hall w hwr hw
    · simp [Search.survey, hwr] at hw
  · rw [← hdist] at hd
    exact ⟨d, hd, hsettled.minimal hd least trip⟩

/-- The way back from a goal that was found ends, and repeats no vertex. -/
theorem walksBack (h : Searched g start goal avoid s done) (hg : g.InRange goal) :
    ∃ path, walkBack s.prev (g.vertices.length + 1) goal [] = some path ∧ path.Nodup := by
  obtain ⟨level, hsettled⟩ := h.settled
  have hlen := length_le h.nodup h.range
  have back {l : List Int} (hf : Founded (s.survey g done).prev l) (hn : l.Nodup)
      (hr : ∀ w ∈ l, g.InRange w) (hgoal : goal ∈ l) (hl : l.length ≤ g.vertices.length + 1) :
      ∃ path, walkBack s.prev (g.vertices.length + 1) goal [] = some path ∧ path.Nodup := by
    obtain ⟨path, hpath, hnodup, -⟩ := walkBack_some l _ _ [] hf hn hr hgoal hl
    exact ⟨path, by simpa using hpath, hnodup⟩
  by_cases hgoal : goal ∈ done
  · exact back (l := done) hsettled.founded h.nodup h.range hgoal (by omega)
  · have hfounded : Founded (s.survey g done).prev (goal :: done) :=
      ⟨fun u hu => (hsettled.parents goal u hu).1, hsettled.founded⟩
    apply back hfounded (List.nodup_cons.mpr ⟨hgoal, h.nodup⟩)
    · exact List.forall_mem_cons.mpr ⟨hg, h.range⟩
    · exact List.mem_cons_self
    · rw [List.length_cons]
      omega

/-- A goal that was not found cannot be reached. One that was found is as far away as `dist` says,
and the way back from it is a shortest walk. -/
theorem answer (h : Searched g start goal avoid s done) (hs : g.InRange start)
    (hg : g.InRange goal) :
    (s.distOf goal = none ∧ ∀ path, ¬ Leads (g.net avoid).Arc start goal path) ∨
    ∃ d path, s.distOf goal = some d ∧
      walkBack s.prev (g.vertices.length + 1) goal [] = some path ∧ path.Nodup ∧
      Leads (g.net avoid).Arc start goal path ∧ g.pathCost path = some d ∧
      ∀ path' e, Leads (g.net avoid).Arc start goal path' → g.pathCost path' = some e → d ≤ e := by
  cases hd : s.distOf goal with
  | none =>
    left
    refine ⟨rfl, ?_⟩
    intro path hpath
    obtain ⟨e, he⟩ := Option.isSome_iff_exists.mp (pathCostFrom_isSome path 0 (hpath.range hs))
    obtain ⟨d, hd', -⟩ := h.found hg (hpath.trip he)
    rw [hd] at hd'
    cases hd'
  | some d =>
    right
    obtain ⟨path, hback, hnodup⟩ := h.walksBack hg
    refine ⟨d, path, rfl, hback, hnodup, ?_⟩
    have hgoal : goal ≠ -1 := by
      have := hg.1
      omega
    rw [walkBack, if_neg hgoal] at hback
    have hroute : Route g start goal avoid path :=
      walkBack_route h.tree _ _ _ _ hback (by simp [hd]) rfl (List.isChain_singleton _)
        (by simpa using hg)
    refine ⟨⟨hroute.head, hroute.last, ?_⟩, walkBack_cost h _ hback hg hd rfl, ?_⟩
    · exact hroute.hops.imp fun _ _ hop => ⟨hop.1, hop.2.2⟩
    · intro path' e hpath' he
      obtain ⟨d', hd', hle⟩ := h.found hg (hpath'.trip he)
      rw [hd] at hd'
      exact Option.some.inj hd' ▸ hle

end Searched

theorem dijkstra_eq (hs : g.InRange start) (hg : g.InRange goal) (avoid : Int) :
    g.dijkstra start goal avoid =
      if (g.searchLoop goal avoid (g.laneCount + 1) (g.startSearch start)).distOf goal = none
      then []
      else (walkBack (g.searchLoop goal avoid (g.laneCount + 1) (g.startSearch start)).prev
        (g.vertices.length + 1) goal []).getD [] := by
  simp [dijkstra, hs, hg]

/-- The search finds a walk exactly if there is one, and no walk is shorter. -/
theorem dijkstra_shortest (hs : g.InRange start) (hg : g.InRange goal) (avoid : Int) :
    (g.dijkstra start goal avoid = [] ∧ ∀ path, ¬ Leads (g.net avoid).Arc start goal path) ∨
    (Leads (g.net avoid).Arc start goal (g.dijkstra start goal avoid) ∧
      (g.dijkstra start goal avoid).Nodup ∧
      ∃ d, g.pathCost (g.dijkstra start goal avoid) = some d ∧
        ∀ path e, Leads (g.net avoid).Arc start goal path → g.pathCost path = some e → d ≤ e) := by
  obtain ⟨-, done, h⟩ := startSearch_searched goal avoid hs (le_refl _)
  rw [dijkstra_eq hs hg]
  obtain ⟨hd, hno⟩ | ⟨d, path, hd, hback, hnodup, hleads, hcost, hleast⟩ := h.answer hs hg
  · exact .inl ⟨if_pos hd, hno⟩
  · right
    rw [if_neg (by simp [hd]), hback, Option.getD_some]
    exact ⟨hleads, hnodup, d, hcost, hleast⟩

/-- A walk along lanes that does not enter `avoid`, though it may start there. -/
structure Tour (g : Navgraph R) (avoid a b : Int) (path : List Int) : Prop where
  head : path.head? = some a
  last : path.getLast? = some b
  lanes : path.IsChain g.Lane
  avoids : avoid ∉ path.tail

omit [Double R] in
theorem isChain_avoid (path : List Int) :
    path.IsChain (fun u v => g.Lane u v ∧ v ≠ avoid) ↔ path.IsChain g.Lane ∧ avoid ∉ path.tail := by
  induction path with
  | nil => simp
  | cons u rest ih =>
    cases rest with
    | nil => simp
    | cons v rest =>
      rw [List.isChain_cons_cons, List.isChain_cons_cons, ih]
      simp only [List.tail_cons, List.mem_cons, not_or]
      constructor
      · rintro ⟨⟨hlane, hne⟩, hchain, hrest⟩
        exact ⟨⟨hlane, hchain⟩, Ne.symm hne, hrest⟩
      · rintro ⟨⟨hlane, hchain⟩, hne, hrest⟩
        exact ⟨⟨hlane, Ne.symm hne⟩, hchain, hrest⟩

theorem leads_iff_tour {a b : Int} {path : List Int} :
    Leads (g.net avoid).Arc a b path ↔ g.Tour avoid a b path := by
  constructor
  · intro h
    obtain ⟨hlanes, havoids⟩ := (isChain_avoid path).mp h.steps
    exact ⟨h.head, h.last, hlanes, havoids⟩
  · intro h
    exact ⟨h.head, h.last, (isChain_avoid path).mpr ⟨h.lanes, h.avoids⟩⟩

/-- Both loops of `dijkstra` end by themselves: the bounds on their rounds are never reached. -/
structure Ends (g : Navgraph R) (start goal avoid : Int) : Prop where
  search : Runs g goal avoid (g.startSearch start)
    (g.searchLoop goal avoid (g.laneCount + 1) (g.startSearch start))
  back : (g.searchLoop goal avoid (g.laneCount + 1) (g.startSearch start)).distOf goal ≠ none →
    (walkBack (g.searchLoop goal avoid (g.laneCount + 1) (g.startSearch start)).prev
      (g.vertices.length + 1) goal []).isSome

theorem dijkstra_ends (hs : g.InRange start) (hg : g.InRange goal) (avoid : Int) :
    Ends g start goal avoid := by
  obtain ⟨hruns, done, h⟩ := startSearch_searched goal avoid hs (le_refl _)
  refine ⟨hruns, ?_⟩
  intro hfound
  obtain ⟨hd, -⟩ | ⟨d, path, -, hback, -⟩ := h.answer hs hg
  · exact absurd hd hfound
  · rw [hback]
    rfl

/-- The search ends. It returns nothing exactly if there is no walk, and otherwise a shortest walk
that repeats no vertex. -/
theorem dijkstra_correct (hs : g.InRange start) (hg : g.InRange goal) (avoid : Int) :
    Ends g start goal avoid ∧
    (g.dijkstra start goal avoid = [] ↔
      start ≠ goal ∧ ∀ path, ¬ g.Tour avoid start goal path) ∧
    (g.dijkstra start goal avoid ≠ [] →
      g.Tour avoid start goal (g.dijkstra start goal avoid) ∧
      (g.dijkstra start goal avoid).Nodup ∧
      (start = goal → g.dijkstra start goal avoid = [start]) ∧
      ∃ d, g.pathCost (g.dijkstra start goal avoid) = some d ∧
        ∀ path e, g.Tour avoid start goal path → g.pathCost path = some e → d ≤ e) := by
  refine ⟨dijkstra_ends hs hg avoid, ?_⟩
  obtain ⟨hempty, hno⟩ | ⟨hleads, hnodup, d, hcost, hleast⟩ := dijkstra_shortest hs hg avoid
  · have hne : start ≠ goal := by
      rintro rfl
      exact hno [start] ⟨rfl, rfl, List.isChain_singleton _⟩
    refine ⟨?_, fun h => absurd hempty h⟩
    rw [hempty]
    exact iff_of_true rfl ⟨hne, fun path hpath => hno path (leads_iff_tour.mpr hpath)⟩
  · have hwalk := leads_iff_tour.mp hleads
    have hfound : g.dijkstra start goal avoid ≠ [] := by
      intro h
      rw [h] at hleads
      cases hleads.head
    constructor
    · exact iff_of_false hfound fun h => h.2 _ hwalk
    · intro _
      refine ⟨hwalk, hnodup, ?_, d, hcost, fun path e h => hleast path e (leads_iff_tour.mpr h)⟩
      rintro rfl
      obtain ⟨hhead, hlast, -⟩ := hwalk
      generalize g.dijkstra start start avoid = path at hhead hlast hnodup
      rcases path with _ | ⟨u, rest⟩
      · cases hhead
      obtain rfl := Option.some.inj hhead
      cases rest with
      | nil => rfl
      | cons v rest =>
        -- the last vertex would be the first one again
        rw [List.getLast?_cons_cons] at hlast
        exact absurd (List.mem_of_getLast? hlast) (List.nodup_cons.mp hnodup).1

/-- Two vertices at one place, with a lane of no length between them, and a lane from the start to
itself. -/
theorem dijkstra_correct_zero :
    let g : Navgraph ℚ := .build [⟨0, 0⟩, ⟨3, 4⟩, ⟨3, 4⟩] [(0, 0), (0, 1), (1, 2), (2, 1)]
    Ends g 0 2 0 ∧ g.dijkstra 0 2 0 = [0, 1, 2] ∧
      ∃ d, g.pathCost [0, 1, 2] = some d ∧
        ∀ path e, g.Tour 0 0 2 path → g.pathCost path = some e → d ≤ e := by
  intro g
  have hpath : g.dijkstra 0 2 0 = [0, 1, 2] := by decide +kernel
  obtain ⟨hends, -, hfound⟩ := @dijkstra_correct ℚ _ g 0 2 (by decide) (by decide) 0
  rw [hpath] at hfound
  exact ⟨hends, hpath, (hfound (by simp)).2.2.2⟩

end Navgraph

end LibiFleet
