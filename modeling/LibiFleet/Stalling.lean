import LibiFleet.Turns

/-!
# Robots that are given up

The count of ticks without progress compares the place of a robot with its place in the tick
before, and with no earlier one.
-/

namespace LibiFleet

variable {R : Type}

/-- The states in which the ticks of the timer began, the last one first. -/
def tickStates : Past R → List (FleetNode R)
  | [] => []
  | (.idle s, .call .timer) :: past => s :: tickStates past
  | _ :: past => tickStates past

theorem tickStates_kept {c : Conf R} {a : Action R} (other : a ≠ .call .timer) (past : Past R) :
    tickStates ((c, a) :: past) = tickStates past := by
  cases a with
  | go => cases c <;> rfl
  | call cb =>
    cases cb with
    | timer => exact absurd rfl other
    | robotState | submit | setPlugins | reload | setMode | setBattery => cases c <;> rfl

variable [Double R]

/-- The task was moving when the tick that began with `s` came, and its robot was less than 2 cm
from where it was at the tick before, which began with `s'`. -/
def Stalls (t : ActiveTask R) (s s' : FleetNode R) : Prop :=
  (∃ u ∈ s.tasks, u.Continues t ∧ u.moving = true) ∧
    hypot ((s.robot t.robot).x - (s'.robot t.robot).x)
      ((s.robot t.robot).y - (s'.robot t.robot).y) < 2 / 100

/-- The task was moving and its robot made no progress, tick by tick, in the last `n` ticks. -/
def Motionless (t : ActiveTask R) (begun : List (FleetNode R)) (n : Nat) : Prop :=
  ∀ i < n, ∃ s s', begun[i]? = some s ∧ begun[i + 1]? = some s' ∧ Stalls t s s'

/-- The place that is kept with the task is the one at the beginning of the last tick. -/
def LastAt (t : ActiveTask R) (begun : List (FleetNode R)) : Prop :=
  ∃ s, begun.head? = some s ∧ t.lastX = (s.robot t.robot).x ∧ t.lastY = (s.robot t.robot).y

/-- The count of the task is right, and so is the place if it will be compared. -/
structure Followed (t : ActiveTask R) (begun : List (FleetNode R)) : Prop where
  still : Motionless t begun t.noMove
  last : t.moving = true → LastAt t begun

/-- The same task, with the same count and place. -/
structure ActiveTask.SameTrack (t u : ActiveTask R) : Prop extends t.Continues u where
  noMove : u.noMove = t.noMove
  lastX : u.lastX = t.lastX
  lastY : u.lastY = t.lastY

variable {t u : ActiveTask R} {begun : List (FleetNode R)} {c : Conf R}

theorem Motionless.same {n : Nat} (h : Motionless t begun n) (same : t.Continues u) :
    Motionless u begun n := by
  intro i hi
  obtain ⟨s, s', hs, hs', ⟨v, hv, hvt, moving⟩, near⟩ := h i hi
  refine ⟨s, s', hs, hs', ⟨v, hv, hvt.trans same, moving⟩, ?_⟩
  rw [same.robot]
  exact near

theorem LastAt.same (h : LastAt t begun) (same : t.SameTrack u) : LastAt u begun := by
  obtain ⟨s, hs, hx, hy⟩ := h
  refine ⟨s, hs, ?_, ?_⟩
  · rw [same.lastX, hx, same.robot]
  · rw [same.lastY, hy, same.robot]

/-- One more tick without progress. -/
theorem Motionless.more {n : Nat} {s s' : FleetNode R} {older : List (FleetNode R)}
    (h : Motionless t (s' :: older) n) (now : Stalls t s s') :
    Motionless t (s :: s' :: older) (n + 1) := by
  intro i hi
  cases i with
  | zero => exact ⟨s, s', rfl, rfl, now⟩
  | succ i => exact h i (by omega)

theorem ActiveTask.Fresh.followed (fresh : t.Fresh) : Followed t begun := by
  rw [fresh]
  constructor
  · intro i hi
    exact absurd hi (Nat.not_lt_zero i)
  · intro moving
    cases moving

theorem Looked.sameTrack (h : Looked c t u) : t.SameTrack u := by
  cases h with
  | same | passed | lapped => exact ⟨⟨rfl, rfl, rfl, rfl⟩, rfl, rfl, rfl⟩

theorem Asked.sameTrack (h : Asked c t u) : t.SameTrack u := by
  cases h with
  | grant | hold => exact ⟨⟨rfl, rfl, rfl, rfl⟩, rfl, rfl, rfl⟩
  | detour path cause => cases cause <;> exact ⟨⟨rfl, rfl, rfl, rfl⟩, rfl, rfl, rfl⟩

/-- What is known of a task which the current tick has not come to yet. -/
structure Due (t : ActiveTask R) (begun : List (FleetNode R)) : Prop where
  followed : Followed t begun.tail
  began : t.moving = true → ∃ s, begun.head? = some s ∧
    ∃ u ∈ s.tasks, u.Continues t ∧ u.moving = true

/-- The robots are where they were when the current tick began. -/
def InPlace (s : FleetCore R) (begun : List (FleetNode R)) : Prop :=
  ∃ s₀, begun.head? = some s₀ ∧
    ∀ k, (s.robot k).x = (s₀.robot k).x ∧ (s.robot k).y = (s₀.robot k).y

/-- The counts are right for the tasks the current tick has been at, and were right when it began
for the others. -/
def Tracks (begun : List (FleetNode R)) : Conf R → Prop
  | .idle s => ∀ t ∈ s.tasks, Followed t begun
  | .patrols s _ => InPlace s.toFleetCore begun ∧ ∀ t ∈ s.tasks, Due t begun
  | .looping s kept todo =>
    InPlace s begun ∧ (∀ t ∈ kept, Followed t begun) ∧ ∀ t ∈ todo, Due t begun
  | .asking s kept t todo =>
    InPlace s begun ∧ (∀ t ∈ kept, Followed t begun) ∧
      (Motionless t begun t.noMove ∧ LastAt t begun) ∧ ∀ t ∈ todo, Due t begun

/-- The look at a task. -/
theorem Due.observe {s : FleetCore R} (due : Due t begun) (here : InPlace s begun) :
    Motionless (FleetCore.observe (s.robot t.robot) t) begun
        (FleetCore.observe (s.robot t.robot) t).noMove ∧
      LastAt (FleetCore.observe (s.robot t.robot) t) begun := by
  obtain ⟨s₀, hs₀, hplace⟩ := here
  obtain ⟨older, rfl⟩ := List.head?_eq_some_iff.mp hs₀
  obtain ⟨hx, hy⟩ := hplace t.robot
  constructor
  · by_cases stalls : t.moving = true ∧
        hypot ((s.robot t.robot).x - t.lastX) ((s.robot t.robot).y - t.lastY) < 2 / 100
    · obtain ⟨moving, near⟩ := stalls
      have hcount : (FleetCore.observe (s.robot t.robot) t).noMove = t.noMove + 1 := by
        simp only [FleetCore.observe]
        rw [if_pos ⟨moving, near⟩]
      obtain ⟨s', hs', hlastx, hlasty⟩ := due.followed.last moving
      obtain ⟨oldest, hold⟩ := List.head?_eq_some_iff.mp hs'
      obtain ⟨s₁, hs₁, hbegan⟩ := due.began moving
      obtain rfl : s₀ = s₁ := Option.some.inj hs₁
      have now : Stalls t s₀ s' := by
        refine ⟨hbegan, ?_⟩
        rw [← hx, ← hy, ← hlastx, ← hlasty]
        exact near
      have hbefore := due.followed.still
      rw [List.tail_cons] at hold hbefore
      subst hold
      rw [hcount]
      exact (hbefore.more now).same ⟨rfl, rfl, rfl, rfl⟩
    · have hcount : (FleetCore.observe (s.robot t.robot) t).noMove = 0 := by
        simp only [FleetCore.observe]
        rw [if_neg stalls]
      rw [hcount]
      intro i hi
      exact absurd hi (Nat.not_lt_zero i)
  · exact ⟨s₀, rfl, hx, hy⟩

theorem Recruits.followed {s s' : FleetNode R} {start : Option (String × List Int)}
    (h : Recruits s start s') (hs : ∀ t ∈ s.tasks, Followed t begun) :
    ∀ t ∈ s'.tasks, Followed t begun := by
  intro t ht
  rcases h.tasks t ht with hold | fresh
  · exact hs t hold
  · exact fresh.followed

theorem Recruits.due {s s' : FleetNode R} {start : Option (String × List Int)}
    (h : Recruits s start s') (hs : ∀ t ∈ s.tasks, Due t begun) : ∀ t ∈ s'.tasks, Due t begun := by
  intro t ht
  rcases h.tasks t ht with hold | fresh
  · exact hs t hold
  · refine ⟨fresh.followed, ?_⟩
    intro moving
    rw [fresh] at moving
    cases moving

/-- The iterations of the timer leave the robots where they are. -/
theorem InPlace.step {c' : Conf R} (h : c.step .go = some c') (hc : c.Sound)
    (here : InPlace c.node.toFleetCore begun) : InPlace c'.node.toFleetCore begun := by
  obtain ⟨s₀, hs₀, hplace⟩ := here
  refine ⟨s₀, hs₀, ?_⟩
  intro k
  obtain ⟨hx, hy⟩ := step_place h hc (k := k) rfl
  exact ⟨hx.trans (hplace k).1, hy.trans (hplace k).2⟩

theorem Turn.tracks {c' : Conf R} {a : Action R} {past : Past R} (h : Turn c a c')
    (place : a = .go → InPlace c.node.toFleetCore (tickStates past) →
      InPlace c'.node.toFleetCore (tickStates past))
    (hs : Tracks (tickStates past) c) : Tracks (tickStates ((c, a) :: past)) c' := by
  cases h with
  | call other recruits =>
    rw [tickStates_kept (by simpa using other)]
    exact recruits.followed hs
  | timer s =>
    refine ⟨⟨s, rfl, fun k => ⟨rfl, rfl⟩⟩, ?_⟩
    intro t ht
    exact ⟨hs t ht, fun moving => ⟨s, rfl, t, ht, .refl t, moving⟩⟩
  | patrol recruits => exact ⟨place rfl hs.1, recruits.due hs.2⟩
  | begin s => exact ⟨hs.1, by simp, hs.2⟩
  | @fail s s' kept t todo | @complete s s' kept t todo =>
    obtain ⟨here, hkept, htodo⟩ := hs
    exact ⟨place rfl here, hkept, (List.forall_mem_cons.mp htodo).2⟩
  | @drive s s' kept t t' todo _ looked =>
    obtain ⟨here, hkept, htodo⟩ := hs
    obtain ⟨due, htodo⟩ := List.forall_mem_cons.mp htodo
    obtain ⟨still, last⟩ := due.observe here
    have same := looked.sameTrack
    have hfollowed : Followed t' (tickStates past) :=
      ⟨same.noMove ▸ still.same same.toContinues, fun _ => last.same same⟩
    refine ⟨place rfl here, ?_, htodo⟩
    exact List.forall_mem_append.mpr ⟨hkept, List.forall_mem_singleton.mpr hfollowed⟩
  | @stand s s' kept t t' todo _ looked =>
    obtain ⟨here, hkept, htodo⟩ := hs
    obtain ⟨due, htodo⟩ := List.forall_mem_cons.mp htodo
    obtain ⟨still, last⟩ := due.observe here
    have same := looked.sameTrack
    exact ⟨place rfl here, hkept, ⟨same.noMove ▸ still.same same.toContinues, last.same same⟩,
      htodo⟩
  | @ask s s' kept t t' todo _ asked =>
    obtain ⟨here, hkept, ⟨still, last⟩, htodo⟩ := hs
    have same := asked.sameTrack
    have hfollowed : Followed t' (tickStates past) :=
      ⟨same.noMove ▸ still.same same.toContinues, fun _ => last.same same⟩
    refine ⟨place rfl here, ?_, htodo⟩
    exact List.forall_mem_append.mpr ⟨hkept, List.forall_mem_singleton.mpr hfollowed⟩
  | report _ tasks =>
    obtain ⟨-, hkept, -⟩ := hs
    exact tasks ▸ hkept

variable {p : Setup R}

theorem reach_tracks {ok : Conf R × Past R → Action R → Prop} {m : Conf R × Past R}
    (hm : (ticks p).traced.Reach ok m) : Tracks (tickStates m.2) m.1 := by
  refine (hm.assuming fun _ => traced_sound).invariant
    (P := fun m => Tracks (tickStates m.2) m.1) ?_ ?_
  · intro t ht
    simp [FleetNode.start] at ht
  · rintro ⟨c, past⟩ a ⟨c', past'⟩ ⟨-, hsound⟩ hstep hP
    obtain ⟨hstep, rfl⟩ := Machine.traced_step hstep
    refine (step_turn hstep).tracks ?_ hP
    rintro rfl
    exact InPlace.step hstep hsound

/-- FAILED is published only for a task that was moving when each of the last `kStuckTicks + 1`
ticks began, and whose robot was then less than 2 cm from where it was one tick before. -/
theorem failed_motionless {ok : Conf R × Past R → Action R → Prop} {m : Conf R × Past R}
    (hm : (ticks p).traced.Reach ok m) {a : Action R} {c' : Conf R} (hstep : m.1.step a = some c')
    {id robot : String} (he : .taskState id "FAILED" robot ∈ m.1.node.news c'.node.toFleetCore) :
    ∃ t ∈ m.1.node.tasks, t.id = id ∧ t.robot = robot ∧
      Motionless t (tickStates m.2) (kStuckTicks + 1) := by
  obtain ⟨s, kept, t, todo, hc, hid, hr, stuck⟩ := (step_turn hstep).failed he
  have htracks := reach_tracks hm
  rw [hc] at htracks ⊢
  obtain ⟨here, -, htodo⟩ := htracks
  obtain ⟨still, -⟩ := (htodo t List.mem_cons_self).observe here
  have hsame : Motionless t (tickStates m.2)
      (FleetCore.observe (s.robot t.robot) t).noMove := still.same ⟨rfl, rfl, rfl, rfl⟩
  refine ⟨t, List.mem_cons_self, hid, hr, ?_⟩
  intro i hi
  exact hsame i (by omega)

namespace Yard

/-- `n` ticks, in each of which the robot has come 1 cm further. -/
def creeps (n : Nat) : List (Action ℚ) :=
  (List.range n).flatMap fun i => .call (seen "r1" ((i + 1) / 100) 0) :: taken .timer 3

/-- Where the robot was when the tick `i` ticks before the last one began. -/
def crept (past : Past ℚ) (i : Nat) : Option (ℚ × ℚ) :=
  (tickStates past)[i]?.map fun s => ((s.robot "r1").x, (s.robot "r1").y)

end Yard

/-- A robot that advances by 1 cm with every tick is given up on its way. -/
theorem creep_fails : ∃ m : Conf ℚ × Past ℚ,
    (ticks (Yard.setup false [])).traced.Reach (fun _ a => a.With Callback.Plain) m ∧
    Yard.crept m.2 0 = some (101 / 100, 0) ∧ Yard.crept m.2 kStuckTicks = some (1 / 100, 0) ∧
    ∃ c', m.1.step .go = some c' ∧
      .taskState "T-1" "FAILED" "r1" ∈ m.1.node.news c'.node.toFleetCore := by
  obtain ⟨m, hm, hcheck⟩ := (ticks (Yard.setup false [])).traced.exists_reach
    (fun _ a => a.With Callback.Plain)
    (fun m => decide (Yard.crept m.2 0 = some (101 / 100, 0) ∧
      Yard.crept m.2 kStuckTicks = some (1 / 100, 0) ∧ ∃ c' ∈ m.1.step .go,
        .taskState "T-1" "FAILED" "r1" ∈ m.1.node.news c'.node.toFleetCore))
    ([.call (Yard.seen "r1" 0 0), .call (Yard.send "r1" "1")] ++ Yard.taken .timer 4 ++
      Yard.creeps 100 ++ .call (Yard.seen "r1" (101 / 100) 0) :: Yard.taken .timer 1)
    (by decide +kernel)
  obtain ⟨hnow, hthen, hfails⟩ := of_decide_eq_true hcheck
  exact ⟨m, hm, hnow, hthen, hfails⟩

theorem failed_motionless_creep : ∃ m : Conf ℚ × Past ℚ,
    (ticks (Yard.setup false [])).traced.Reach (fun _ a => a.With Callback.Plain) m ∧
    ∃ t ∈ m.1.node.tasks, t.id = "T-1" ∧ t.robot = "r1" ∧
      Motionless t (tickStates m.2) (kStuckTicks + 1) := by
  obtain ⟨m, hm, -, -, c', hstep, he⟩ := creep_fails
  obtain ⟨t, ht, hid, hr, still⟩ := failed_motionless hm hstep he
  exact ⟨m, hm, t, ht, hid, hr, still⟩

/-- The robot that creeps is 1 m from where it was when the first of the ticks began. -/
theorem failed_creeping : ¬ ∀ (p : Setup ℚ) (m : Conf ℚ × Past ℚ),
    (ticks p).traced.Reach (fun _ a => a.With Callback.Plain) m → ∀ a c' id robot,
      m.1.step a = some c' → .taskState id "FAILED" robot ∈ m.1.node.news c'.node.toFleetCore →
      ∀ i ≤ kStuckTicks, ∀ s s', (tickStates m.2)[i]? = some s →
        (tickStates m.2)[kStuckTicks]? = some s' →
        hypot ((s.robot robot).x - (s'.robot robot).x) ((s.robot robot).y - (s'.robot robot).y) <
          2 / 100 := by
  intro h
  obtain ⟨m, hm, hnow, hthen, c', hstep, he⟩ := creep_fails
  obtain ⟨s, hs, hplace⟩ := Option.map_eq_some_iff.mp hnow
  obtain ⟨s', hs', hplace'⟩ := Option.map_eq_some_iff.mp hthen
  obtain ⟨hx, hy⟩ := Prod.mk.inj hplace
  obtain ⟨hx', hy'⟩ := Prod.mk.inj hplace'
  have hnear := h _ m hm _ c' _ _ hstep he 0 (by decide) s s' hs hs'
  have hfar : hypot (101 / 100 - 1 / 100 : ℚ) (0 - 0) = 1 :=
    hypot_exact _ _ 1 (by norm_num) (by norm_num)
  rw [hx, hy, hx', hy', hfar] at hnear
  norm_num at hnear

end LibiFleet
