import Mathlib.Algebra.Order.Monoid.Defs
import Mathlib.Logic.Function.Basic

/-!
# Shortest paths

The argument of Dijkstra's search, for any graph whose arcs have lengths that are not
negative. A survey holds the distances found so far, the vertex that each of them was
found from, and the settled vertices. `Explored` is what a survey is worth, and there
is one rule for each thing the search does: it starts, it settles the nearest vertex
that is not settled, and it follows an arc of that vertex. Which vertex is the nearest,
and when the search stops, is not its concern.
-/

namespace LibiFleet

structure Net (V R : Type*) [AddCommMonoid R] [LinearOrder R] where
  Arc : V → V → Prop
  len : V → V → R
  len_nonneg : ∀ u v, 0 ≤ len u v

variable {V R : Type*} [AddCommMonoid R] [LinearOrder R]

/-- The ways from `start` along arcs, by where they end and how long they are. -/
inductive Net.Trip (N : Net V R) (start : V) : V → R → Prop
  | stay : N.Trip start start 0
  | go {u v : V} {d : R} : N.Trip start u d → N.Arc u v → N.Trip start v (d + N.len u v)

/-- The settled vertices are in the order in which they were settled, the last one first. -/
structure Survey (V R : Type*) where
  dist : V → Option R
  prev : V → Option V
  done : List V

namespace Survey

/-- The survey before the first step. -/
def start [DecidableEq V] (s : V) : Survey V R where
  dist := Function.update (fun _ => none) s (some 0)
  prev := fun _ => none
  done := []

/-- The vertex `v` is reached from `u`, at the distance `d`. -/
def reach [DecidableEq V] (k : Survey V R) (u v : V) (d : R) : Survey V R where
  dist := Function.update k.dist v (some d)
  prev := Function.update k.prev v (some u)
  done := k.done

def settle (k : Survey V R) (u : V) : Survey V R := { k with done := u :: k.done }

/-- No vertex that is not settled is nearer than `d`. -/
def Least (k : Survey V R) (d : R) : Prop := ∀ v e, v ∉ k.done → k.dist v = some e → d ≤ e

end Survey

/-- Each vertex of the list was found from one that comes later in it. -/
def Founded (prev : V → Option V) : List V → Prop
  | [] => True
  | v :: rest => (∀ u, prev v = some u → u ∈ rest) ∧ Founded prev rest

omit [AddCommMonoid R] [LinearOrder R] in
theorem Founded.congr {prev prev' : V → Option V} {l : List V} (h : ∀ v ∈ l, prev' v = prev v)
    (hf : Founded prev l) : Founded prev' l := by
  induction l with
  | nil => trivial
  | cons v rest ih =>
    obtain ⟨hv, hrest⟩ := List.forall_mem_cons.mp h
    exact ⟨fun u hu => hf.1 u (hv ▸ hu), ih hrest hf.2⟩

/-- The distances are lengths of ways, and where a settled vertex has an arc that is not pending
the distance at its end is no longer than the way along it. The settled vertices are as near as
`level` at most, and the others as near as `level` at least. -/
structure Explored (N : Net V R) (start : V) (pending : V → V → Prop) (level : R)
    (k : Survey V R) : Prop where
  origin : k.dist start = some 0
  trips : ∀ v d, k.dist v = some d → N.Trip start v d
  closed : ∀ u v, u ∈ k.done → N.Arc u v → ¬ pending u v →
    ∃ du dv, k.dist u = some du ∧ k.dist v = some dv ∧ dv ≤ du + N.len u v
  parents : ∀ v u, k.prev v = some u →
    u ∈ k.done ∧ N.Arc u v ∧ ∃ du, k.dist u = some du ∧ k.dist v = some (du + N.len u v)
  founded : Founded k.prev k.done
  low : ∀ v ∈ k.done, ∃ d, k.dist v = some d ∧ d ≤ level
  high : k.Least level

/-- Every arc of every settled vertex has been followed. -/
abbrev Settled (N : Net V R) (start : V) (level : R) (k : Survey V R) : Prop :=
  Explored N start (fun _ _ => False) level k

variable {N : Net V R} {start u v : V} {k : Survey V R} {level d du dv : R}
variable {pending pending' : V → V → Prop}

theorem Net.Trip.nonneg [IsOrderedAddMonoid R] (h : N.Trip start v d) : 0 ≤ d := by
  induction h with
  | stay => exact le_refl _
  | go _ _ ih => exact add_nonneg ih (N.len_nonneg _ _)

namespace Explored

theorem initial [DecidableEq V] (N : Net V R) (s : V) : Settled N s 0 (Survey.start s) where
  origin := by simp [Survey.start]
  trips := by
    intro v d hd
    simp only [Survey.start, Function.update_apply] at hd
    split at hd
    · rename_i hv
      obtain rfl := Option.some.inj hd
      exact hv ▸ .stay
    · cases hd
  closed := by
    intro u v hu
    cases hu
  parents := by
    intro v u hu
    cases hu
  founded := trivial
  low := by
    intro v hv
    cases hv
  high := by
    intro v e _ he
    simp only [Survey.start, Function.update_apply] at he
    split at he
    · obtain rfl := Option.some.inj he
      exact le_refl _
    · cases he

theorem mono (h : Explored N start pending level k)
    (hp : ∀ u v, N.Arc u v → pending u v → pending' u v) : Explored N start pending' level k where
  origin := h.origin
  trips := h.trips
  closed := by
    intro u v hu arc hn
    exact h.closed u v hu arc fun hpending => hn (hp u v arc hpending)
  parents := h.parents
  founded := h.founded
  low := h.low
  high := h.high

/-- The nearest vertex that is not settled is settled, with all its arcs pending. -/
theorem settle (h : Settled N start level k) (hu : u ∉ k.done) (hd : k.dist u = some d)
    (least : k.Least d) : Explored N start (fun a _ => a = u) d (k.settle u) where
  origin := h.origin
  trips := h.trips
  closed := by
    intro a b ha arc hne
    exact h.closed a b ((List.mem_cons.mp ha).resolve_left hne) arc not_false
  parents := by
    intro v w hw
    obtain ⟨hdone, hrest⟩ := h.parents v w hw
    exact ⟨List.mem_cons_of_mem _ hdone, hrest⟩
  founded := ⟨fun w hw => (h.parents u w hw).1, h.founded⟩
  low := by
    intro v hv
    rcases List.mem_cons.mp hv with rfl | hv
    · exact ⟨d, hd, le_refl d⟩
    · obtain ⟨e, he, hle⟩ := h.low v hv
      exact ⟨e, he, hle.trans (h.high u d hu hd)⟩
  high := by
    intro v e hv he
    exact least v e (fun hdone => hv (List.mem_cons_of_mem _ hdone)) he

/-- An arc to a vertex that is near enough already need not be followed. -/
theorem skip (h : Explored N start pending level k) (hu : k.dist u = some du)
    (hv : k.dist v = some dv) (near : dv ≤ du + N.len u v) :
    Explored N start (fun a b => pending a b ∧ ¬ (a = u ∧ b = v)) level k where
  origin := h.origin
  trips := h.trips
  closed := by
    intro a b ha arc hn
    by_cases hab : a = u ∧ b = v
    · obtain ⟨rfl, rfl⟩ := hab
      exact ⟨du, dv, hu, hv, near⟩
    · exact h.closed a b ha arc fun hp => hn ⟨hp, hab⟩
  parents := h.parents
  founded := h.founded
  low := h.low
  high := h.high

/-- An arc of a vertex at `level` is followed to one that is farther away. -/
theorem reach [DecidableEq V] [IsOrderedAddMonoid R] (h : Explored N start pending level k)
    (hdone : u ∈ k.done) (hu : k.dist u = some level) (arc : N.Arc u v)
    (far : ∀ dv, k.dist v = some dv → level + N.len u v < dv) :
    Explored N start (fun a b => pending a b ∧ ¬ (a = u ∧ b = v)) level
      (k.reach u v (level + N.len u v)) := by
  have hlevel : level ≤ level + N.len u v := le_add_of_nonneg_right (N.len_nonneg u v)
  have hv : v ∉ k.done := by
    intro hv
    obtain ⟨dv, hdv, hle⟩ := h.low v hv
    exact absurd (far dv hdv) (not_lt.mpr (hle.trans hlevel))
  have hstart : start ≠ v := by
    rintro rfl
    have hnonneg := (h.trips u level hu).nonneg.trans hlevel
    exact absurd (far 0 h.origin) (not_lt.mpr hnonneg)
  have same {w : V} (hw : w ∈ k.done) : (k.reach u v (level + N.len u v)).dist w = k.dist w := by
    have hne : w ≠ v := fun he => hv (he ▸ hw)
    simp [Survey.reach, hne]
  constructor
  case origin =>
    simpa [Survey.reach, hstart] using h.origin
  case trips =>
    intro w d hw
    simp only [Survey.reach, Function.update_apply] at hw
    split at hw
    · rename_i he
      obtain rfl := Option.some.inj hw
      subst he
      exact .go (h.trips u level hu) arc
    · exact h.trips w d hw
  case closed =>
    intro a b ha hab hn
    rw [same ha]
    by_cases hb : b = v
    · subst hb
      by_cases hau : a = u
      · subst hau
        exact ⟨level, _, hu, by simp [Survey.reach], le_refl _⟩
      · obtain ⟨da, db, hda, hdb, hle⟩ := h.closed a b ha hab fun hp => hn ⟨hp, fun he => hau he.1⟩
        exact ⟨da, _, hda, by simp [Survey.reach], (far db hdb).le.trans hle⟩
    · obtain ⟨da, db, hda, hdb, hle⟩ := h.closed a b ha hab fun hp => hn ⟨hp, fun he => hb he.2⟩
      exact ⟨da, db, hda, by simpa [Survey.reach, hb] using hdb, hle⟩
  case parents =>
    intro w a ha
    simp only [Survey.reach, Function.update_apply] at ha
    split at ha
    · rename_i he
      obtain rfl := Option.some.inj ha
      subst he
      exact ⟨hdone, arc, level, (same hdone).trans hu, by simp [Survey.reach]⟩
    · rename_i hne
      obtain ⟨hdone', harc, da, hda, hdw⟩ := h.parents w a ha
      exact ⟨hdone', harc, da, (same hdone').trans hda, by simpa [Survey.reach, hne] using hdw⟩
  case founded =>
    refine Founded.congr ?_ h.founded
    intro w hw
    have hne : w ≠ v := fun he => hv (he ▸ hw)
    simp [Survey.reach, hne]
  case low =>
    intro w hw
    rw [same hw]
    exact h.low w hw
  case high =>
    intro w e hw he
    simp only [Survey.reach, Function.update_apply] at he
    split at he
    · obtain rfl := Option.some.inj he
      exact hlevel
    · exact h.high w e hw he

variable [IsOrderedAddMonoid R]

/-- A way either ends where the survey is no farther, or leaves the settled vertices. -/
theorem cut (h : Settled N start level k) (trip : N.Trip start v d) :
    (∃ e, k.dist v = some e ∧ e ≤ d) ∨ ∃ w e, w ∉ k.done ∧ k.dist w = some e ∧ e ≤ d := by
  induction trip with
  | stay => exact .inl ⟨0, h.origin, le_refl 0⟩
  | @go a b c _ arc ih =>
    have longer : c ≤ c + N.len a b := le_add_of_nonneg_right (N.len_nonneg a b)
    obtain ⟨e, he, hle⟩ | ⟨w, e, hw, he, hle⟩ := ih
    · by_cases ha : a ∈ k.done
      · obtain ⟨da, db, hda, hdb, hle'⟩ := h.closed a b ha arc not_false
        obtain rfl : da = e := Option.some.inj (hda.symm.trans he)
        exact .inl ⟨db, hdb, hle'.trans (add_le_add_left hle _)⟩
      · exact .inr ⟨a, e, ha, he, hle.trans longer⟩
    · exact .inr ⟨w, e, hw, he, hle.trans longer⟩

/-- No way to a vertex is shorter than its distance once no unsettled vertex is nearer. -/
theorem minimal (h : Settled N start level k) (hv : k.dist v = some d) (least : k.Least d)
    {e : R} (trip : N.Trip start v e) : d ≤ e := by
  obtain ⟨e', he', hle⟩ | ⟨w, e', hw, he', hle⟩ := h.cut trip
  · obtain rfl : d = e' := Option.some.inj (hv.symm.trans he')
    exact hle
  · exact (least w e' hw he').trans hle

/-- With every vertex that was found settled, every vertex there is a way to was found. -/
theorem complete (h : Settled N start level k) (all : ∀ w, k.dist w ≠ none → w ∈ k.done)
    (trip : N.Trip start v d) : ∃ e, k.dist v = some e ∧ e ≤ d := by
  obtain hfound | ⟨w, e, hw, he, -⟩ := h.cut trip
  · exact hfound
  · exact absurd (all w (by simp [he])) hw

end Explored

end LibiFleet
