import LibiFleet.Ledger

/-!
# Robots, tasks and modes agree

The invariant of the members that are not the plugin's: one task for a robot, which
is then busy and known, at a valid place of its path, and not stopped; and only a
robot with a task that stands still waits for another.
-/

namespace LibiFleet

open Std (ExtTreeMap)
open ReservationDeadlock (Sheds)

variable {R : Type} [Double R]

/-- The entry of a robot has its name, and says whether it has a task. -/
def Agrees (tasks : List (ActiveTask R)) (k : String) (r : RobotInfo R) : Prop :=
  r.name = k ∧ k ≠ "" ∧ (r.busy = true ↔ ∃ t ∈ tasks, t.robot = k)

structure Wellformed (s : FleetNode R) : Prop where
  once : (s.tasks.map (·.robot)).Nodup
  placed : ∀ t ∈ s.tasks, t.Placed
  laps : ∀ t ∈ s.tasks, t.patrol = true → 2 ≤ s.patrolRoute.length
  known : ∀ t ∈ s.tasks, t.robot ∈ s.robots
  entries : ∀ k r, s.robots[k]? = some r → Agrees s.tasks k r
  unstopped : ∀ t ∈ s.tasks, s.modeOf t.robot ≠ .stop
  waiting : ∀ r b, s.traffic.waits r = some b →
    ∃ t ∈ s.tasks, t.robot = r ∧ t.moving = false ∧ t.cur ≠ t.next
  named : s.traffic.Named
  auction : s.dispatcher = Auction.assign

/-- What the driving rests on, whichever dispatcher is in use. -/
structure Manned (s : FleetNode R) : Prop where
  ledger : Ledger s
  nameless : "" ∉ s.robots
  unstopped : ∀ t ∈ s.tasks, s.modeOf t.robot ≠ .stop
  named : s.traffic.Named

theorem wellformed_start (p : Setup R) : Wellformed (FleetNode.start p) where
  once := List.nodup_nil
  placed := by simp [FleetNode.start]
  laps := by simp [FleetNode.start]
  known := by simp [FleetNode.start]
  entries := by simp [FleetNode.start]
  unstopped := by simp [FleetNode.start]
  waiting := by simp [FleetNode.start, ReservationDeadlock.waits]
  named := by simp [FleetNode.start, ReservationDeadlock.Named, ReservationDeadlock.owner]
  auction := rfl

namespace Wellformed

variable {s : FleetNode R} {robot : String} {t u : ActiveTask R}

theorem ledger (hw : Wellformed s) : Ledger s where
  once := hw.once
  known := hw.known
  entries := by
    intro k r hr
    obtain ⟨hn, -, hb⟩ := hw.entries k r hr
    exact ⟨hn, hb⟩
  picks := by
    rw [hw.auction]
    exact Auction.picks

/-- A task that moves does not wait. -/
theorem not_waits (hw : Wellformed s) (ht : t ∈ s.tasks) (moving : t.moving = true) (b : String) :
    s.traffic.waits t.robot ≠ some b := by
  intro hb
  obtain ⟨u, hu, hr, still, -⟩ := hw.waiting _ _ hb
  rw [hw.ledger.eq_of_robot hu ht hr, moving] at still
  cases still

/-- Neither does a robot without a task. -/
theorem jobless_waits (hw : Wellformed s) (jobless : ∀ t ∈ s.tasks, t.robot ≠ robot) (b : String) :
    s.traffic.waits robot ≠ some b := by
  intro hb
  obtain ⟨t, ht, hr, -⟩ := hw.waiting _ _ hb
  exact jobless t ht hr

/-- The robots in `robots_` have names. -/
theorem named_of_mem (hw : Wellformed s) (hk : robot ∈ s.robots) : robot ≠ "" := by
  obtain ⟨r, hr⟩ := Ledger.exists_entry hk
  exact (hw.entries robot r hr).2.1

theorem manned (hw : Wellformed s) : Manned s where
  ledger := hw.ledger
  nameless := fun hk => hw.named_of_mem hk rfl
  unstopped := hw.unstopped
  named := hw.named

end Wellformed

omit [Double R] in
theorem Manned.named_of_mem {s : FleetNode R} {robot : String} (hm : Manned s)
    (hk : robot ∈ s.robots) : robot ≠ "" := by
  rintro rfl
  exact hm.nameless hk

/-- A task whose place in its path is valid, with a lap to start over if it is on patrol. -/
def ActiveTask.Fits (route : List Int) (t : ActiveTask R) : Prop :=
  t.Placed ∧ (t.patrol = true → 2 ≤ route.length)

/-- A detour starts where the task is, and goes on to another vertex. -/
theorem detour_spec {s : FleetCore R} {t : ActiveTask R} {goal : Int} {path : List Int}
    (found : path = s.detour t goal) (long : 2 ≤ path.length) (cause : Detour) :
    (t.detoured path cause).cur = t.cur ∧
      s.graph.Hop t.next (t.detoured path cause).cur (t.detoured path cause).next := by
  obtain ⟨u, v, rest, rfl⟩ : ∃ u v rest, path = u :: v :: rest := by
    rcases path with _ | ⟨u, _ | ⟨v, rest⟩⟩
    · simp at long
    · simp at long
    · exact ⟨u, v, rest, rfl⟩
  have route := Navgraph.dijkstra_route found.symm (List.cons_ne_nil _ _)
  have hcur : u = t.cur := Option.some.inj route.head
  have hhop := (List.isChain_cons_cons.mp route.hops).1
  cases cause <;> exact ⟨hcur, hhop⟩

/-- After its departure a robot waits for nobody. -/
theorem departed_waits {s : FleetCore R} {t : ActiveTask R} (hn : s.traffic.Named)
    (granted : (s.ask t).1 = .grant) :
    (if t.cur ≠ t.next then (s.ask t).2.traffic.release t.robot t.cur
      else (s.ask t).2.traffic).waits t.robot = none := by
  split
  · rw [ReservationDeadlock.release_waits, if_pos rfl]
  · exact ReservationDeadlock.granted_waits hn granted

namespace Effect

variable {c : Conf R} {a : Action R} {robot : String} {s s' : FleetNode R}

/-! ## The clauses of `Wellformed`, one by one -/

theorem patrolRoute_eq (h : Effect c a robot s s') : s'.patrolRoute = s.patrolRoute := by
  cases h <;> rfl

theorem auction (h : Effect c a robot s s') (steady : a.With Callback.Steady) :
    s'.dispatcher = s.dispatcher := by
  cases h with
  | swap _ _ _ _ called => exact (steady.not_swap called).elim
  | _ => rfl

theorem fits (h : Effect c a robot s s') (hs : ∀ t ∈ s.tasks, t.Fits s.patrolRoute) :
    ∀ t ∈ s'.tasks, t.Fits s.patrolRoute := by
  have restarted {path : List Int} {r : RobotInfo R}
      (made : s.makePatrolPath r (-1) = some path) (long : 2 ≤ s.patrolRoute.length) :
      1 < path.length := by
    rw [FleetNode.makePatrolPath_length made]
    omega
  intro t ht
  cases h.stems ht with
  | same here | look here | grant here | hold _ _ here =>
    have hold := hs _ here
    exact hold
  | dispatch _ _ _ _ _ _ long =>
    exact ⟨⟨le_refl 1, long⟩, fun patrol => absurd patrol Bool.false_ne_true⟩
  | patrol _ _ long lap => exact ⟨⟨le_refl 1, restarted lap long⟩, fun _ => long⟩
  | pass here more => exact ⟨⟨Nat.le_add_left .., more⟩, (hs _ here).2⟩
  | lap here _ patrol made =>
    have long := (hs _ here).2 patrol
    exact ⟨⟨le_refl 1, restarted made long⟩, fun _ => long⟩
  | reroute cause here _ _ long =>
    constructor
    · constructor
      · rw [ActiveTask.detoured_idx]
      · rw [ActiveTask.detoured_idx, ActiveTask.detoured_path]
        exact long
    · rw [ActiveTask.detoured_patrol]
      exact (hs _ here).2

theorem waiting_self (h : Effect c a robot s s') (hw : Wellformed s)
    (steady : a.With Callback.Steady) {b : String} (hb : s'.traffic.waits robot = some b) :
    ∃ t ∈ s'.tasks, t.robot = robot ∧ t.moving = false ∧ t.cur ≠ t.next := by
  cases h with
  | sighting | battery | touch | mode | reload | publish => exact hw.waiting _ _ hb
  | cancel =>
    obtain ⟨t, ht, rfl, -⟩ := hw.waiting _ _ ((s.cancelTask_sheds robot).waits_kept hb)
    rw [(FleetNode.cancelTask_clears ht (hw.placed t ht)).1] at hb
    cases hb
  | vacate _ jobless =>
    have hold := (s.releaseAll_sheds robot).waits_kept hb
    exact absurd hold (hw.jobless_waits jobless b)
  | stopClaim => exact hw.waiting _ _ (ReservationDeadlock.claim_waits hw.named hb)
  | dispatch _ _ _ known idle =>
    have hold := ReservationDeadlock.claim_waits hw.named hb
    exact absurd hold (hw.jobless_waits (hw.ledger.jobless known idle) b)
  | patrol _ _ _ jobless =>
    have hold := ReservationDeadlock.claim_waits hw.named hb
    exact absurd hold (hw.jobless_waits jobless b)
  | look head =>
    obtain ⟨u, hu, hr, hm, hne⟩ := hw.waiting _ _ hb
    rw [hw.ledger.eq_head head hu hr] at hm hne
    exact ⟨_, List.mem_cons_self, rfl, hm, hne⟩
  | pass head moving | lap _ head moving | drive head moving =>
    exact absurd hb (hw.not_waits (by simp [head]) moving b)
  | fail head stuck moving sheds =>
    have hold := sheds.waits_kept hb
    exact absurd hold (hw.not_waits (by simp [head]) moving b)
  | complete head moving =>
    have hold := (ReservationDeadlock.sheds_release ..).waits_kept hb
    exact absurd hold (hw.not_waits (by simp [head]) moving b)
  | grant _ _ _ granted =>
    rw [departed_waits hw.named granted] at hb
    cases hb
  | @reroute _ t rest path events cause _ head still _ found long =>
    obtain ⟨-, -, hne, -⟩ := detour_spec found long cause
    exact ⟨_, List.mem_concat_self, ActiveTask.detoured_robot ..,
      ActiveTask.detoured_moving .., hne⟩
  | @hold _ t rest events stuck waited _ head still =>
    refine ⟨_, List.mem_concat_self, rfl, still, ?_⟩
    obtain ⟨-, ⟨-, hold⟩ | ⟨hne, -⟩⟩ := ReservationDeadlock.requestMove_waits_self hw.named hb
    · obtain ⟨u, hu, hr, -, hne⟩ := hw.waiting _ _ hold
      rwa [hw.ledger.eq_head head hu hr] at hne
    · exact hne
  | swap _ _ _ _ called => exact (steady.not_swap called).elim

theorem waiting (h : Effect c a robot s s') (hw : Wellformed s) (steady : a.With Callback.Steady)
    {r b : String} (hb : s'.traffic.waits r = some b) :
    ∃ t ∈ s'.tasks, t.robot = r ∧ t.moving = false ∧ t.cur ≠ t.next := by
  by_cases hr : r = robot
  · subst hr
    exact h.waiting_self hw steady hb
  · rw [h.waits_other steady hr] at hb
    obtain ⟨t, ht, rfl, hs⟩ := hw.waiting r b hb
    exact ⟨t, (h.tasks_other hw.ledger hr).mpr ht, rfl, hs⟩

/-- The robot of an effect has a name, or releases nodes at most. -/
theorem named_or_sheds (h : Effect c a robot s s') (hm : Manned s)
    (steady : a.With Callback.Steady) : robot ≠ "" ∨ Sheds robot s.traffic s'.traffic := by
  cases h with
  | sighting | battery | mode | reload | publish => exact .inr (.refl ..)
  | cancel => exact .inr (s.cancelTask_sheds robot)
  | vacate => exact .inr (s.releaseAll_sheds robot)
  | touch chosen => exact .inl (hm.named_of_mem (hm.ledger.chosen chosen).1)
  | stopClaim _ _ known =>
    have hmem : robot ∈ s.robots := ExtTreeMap.mem_iff_isSome_getElem?.mpr (by rw [known]; rfl)
    exact .inl (hm.named_of_mem hmem)
  | dispatch _ _ _ known => exact .inl (hm.named_of_mem known)
  | patrol _ known =>
    rw [(hm.ledger.entry known).1]
    exact .inl (hm.named_of_mem known)
  | look head | pass head | lap _ head | drive head | grant _ head | reroute _ _ _ head
  | hold _ _ _ _ head | fail head | complete head =>
    exact .inl (hm.named_of_mem (hm.ledger.known _ (by simp [head])))
  | swap _ _ _ _ called => exact (steady.not_swap called).elim

/-- Without a change of the plugins the driving keeps what it rests on. -/
theorem manned (h : Effect c a robot s s') (hm : Manned s) (hc : Ledger c.node)
    (named : a.With Callback.Named) (steady : a.With Callback.Steady) : Manned s' where
  ledger := h.ledger (steady.mono fun _ => Callback.Steady.offers) hm.ledger
  nameless := by
    intro hk
    rcases h.newcomer hm.ledger hk with hold | ⟨msg, rfl, hname⟩ | ⟨req, rfl, hname⟩
    · exact hm.nameless hold
    · exact named hname
    · exact named hname
  unstopped := h.unstopped hm.ledger hc hm.unstopped
  named := by
    rcases h.named_or_sheds hm steady with hr | hsheds
    · exact h.named steady hm.named hr
    · exact hsheds.named hm.named

theorem agrees (h : Effect c a robot s s') (hw : Wellformed s) (hm : Manned s') :
    ∀ k r, s'.robots[k]? = some r → Agrees s'.tasks k r := by
  intro k r hr
  obtain ⟨hn, hb⟩ := h.entries hw.ledger k r hr
  have hk : k ∈ s'.robots := ExtTreeMap.mem_iff_isSome_getElem?.mpr (by rw [hr]; rfl)
  exact ⟨hn, hm.named_of_mem hk, hb⟩

theorem wellformed (h : Effect c a robot s s') (hw : Wellformed s) (hc : Wellformed c.node)
    (plain : a.With Callback.Plain) : Wellformed s' := by
  have steady := plain.steady
  have hfits := h.fits fun t ht => ⟨hw.placed t ht, hw.laps t ht⟩
  have hm := h.manned hw.manned hc.ledger plain.named steady
  constructor
  case once => exact hm.ledger.once
  case placed =>
    intro t ht
    exact (hfits t ht).1
  case laps =>
    intro t ht
    rw [h.patrolRoute_eq]
    exact (hfits t ht).2
  case known => exact hm.ledger.known
  case entries => exact h.agrees hw hm
  case unstopped => exact hm.unstopped
  case waiting =>
    intro r b hb
    exact h.waiting hw steady hb
  case named => exact hm.named
  case auction =>
    rw [h.auction steady, hw.auction]

end Effect

theorem patrolStep_keeps {s s' : FleetNode R} {key : String} (h : s.patrolStep key = some s') :
    s'.patrolRoute = s.patrolRoute ∧ ∀ k ∈ s.robots, k ∈ s'.robots := by
  unfold FleetNode.patrolStep at h
  dsimp only at h
  split at h
  · obtain rfl := Option.some.inj h
    exact ⟨rfl, fun _ hk => hk⟩
  · split at h
    · obtain rfl := Option.some.inj h
      exact ⟨rfl, fun _ hk => hk⟩
    · obtain ⟨path, -, h⟩ := Option.bind_eq_some_iff.mp h
      obtain rfl := Option.some.inj h
      exact ⟨rfl, fun k hk => ExtTreeMap.mem_insert.mpr (.inr hk)⟩

theorem sound_next {c c' : Conf R} (hc : c.Sound) (h : c.next = some c') : c'.Sound := by
  cases c with
  | idle s => cases h
  | patrols s keys =>
    cases keys with
    | nil =>
      obtain rfl := Option.some.inj h
      trivial
    | cons key keys =>
      obtain ⟨s', hs', rfl⟩ := Option.map_eq_some_iff.mp h
      obtain ⟨hroute, hmem⟩ := patrolStep_keeps hs'
      intro k hk
      obtain ⟨hknown, hlong⟩ := hc k (List.mem_cons_of_mem _ hk)
      exact ⟨hmem k hknown, hroute ▸ hlong⟩
  | looping s kept todo =>
    cases todo with
    | nil =>
      obtain ⟨s', -, rfl⟩ := Option.map_eq_some_iff.mp h
      trivial
    | cons t todo =>
      obtain ⟨⟨s', t'⟩, -, rfl⟩ := Option.map_eq_some_iff.mp h
      cases t' with
      | none => trivial
      | some t' =>
        dsimp only
        split
        · trivial
        · rename_i still
          exact Bool.eq_false_of_not_eq_true still
  | asking s kept t todo =>
    obtain ⟨⟨s', t'⟩, -, rfl⟩ := Option.map_eq_some_iff.mp h
    trivial

theorem sound_step {c c' : Conf R} {a : Action R} (hc : c.Sound) (h : c.step a = some c') :
    c'.Sound := by
  rcases step_cases h with ⟨rfl, hnext⟩ | ⟨s, rfl, rfl, rfl⟩ | ⟨s, s', cb, rfl, rfl, hcb, hs', rfl⟩
  · exact sound_next hc hnext
  · intro key hkey
    unfold FleetNode.patrolKeys at hkey
    split at hkey
    · rename_i hlong
      exact ⟨ExtTreeMap.mem_keys.mp hkey, hlong⟩
    · cases hkey
  · trivial

theorem reach_sound {p : Setup R} {ok : Conf R → Action R → Prop} {c : Conf R}
    (hc : (ticks p).Reach ok c) : c.Sound := by
  induction hc with
  | start => trivial
  | step _ _ hstep ih => exact sound_step ih hstep

theorem wellformed_step {c c' : Conf R} {a : Action R} (plain : a.With Callback.Plain)
    (h : c.step a = some c') (hs : c.Sound) (hw : Wellformed c.node) : Wellformed c'.node :=
  (step_effects hs h).keeps (fun _ _ _ he ht => he.wellformed ht hw plain) hw

theorem reach_wellformed {p : Setup R} {ok : Conf R → Action R → Prop}
    (plain : ∀ c a, ok c a → a.With Callback.Plain) {c : Conf R} (hc : (ticks p).Reach ok c) :
    Wellformed c.node := by
  refine (hc.assuming fun _ => reach_sound).invariant (P := fun c => Wellformed c.node)
    (wellformed_start p) ?_
  exact fun c a c' hok hstep hw => wellformed_step (plain c a hok.1) hstep hok.2 hw

/-- What every effect keeps, in runs whose steps meet `ok`, holds in every state of these runs. -/
theorem reach_keeps {p : Setup R} {ok : Conf R → Action R → Prop}
    (plain : ∀ c a, ok c a → a.With Callback.Plain) {P : FleetNode R → Prop}
    (start : P (FleetNode.start p))
    (keeps : ∀ c a robot s s', ok c a → Effect c a robot s s' → Wellformed s → Wellformed s' →
      P s → P s') {c : Conf R} (hc : (ticks p).Reach ok c) : P c.node := by
  have hsw (c : Conf R) (hc : (ticks p).Reach ok c) : c.Sound ∧ Wellformed c.node :=
    ⟨reach_sound hc, reach_wellformed plain hc⟩
  refine (hc.assuming hsw).invariant (P := fun c => P c.node) start ?_
  intro c a c' hok hstep hP
  have hboth : Wellformed c'.node ∧ P c'.node := by
    refine (step_effects hok.2.1 hstep).keeps (P := fun s => Wellformed s ∧ P s) ?_ ⟨hok.2.2, hP⟩
    intro robot s s' he hs
    have hw' := he.wellformed hs.1 hok.2.2 (plain c a hok.1)
    exact ⟨hw', keeps c a robot s s' hok.1 he hs.1 hw' hs.2⟩
  exact hboth.2

end LibiFleet
