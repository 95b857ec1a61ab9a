import LibiFleet.Bookkeeping

/-!
# Driving as a discipline

The node seen through `Discipline`: a robot is outside without a task, moves with a
task that moves, and with a task that stands still it stays where the task is.
-/

namespace LibiFleet

open Std (ExtTreeMap)

variable {R : Type} [Double R]

namespace FleetNode

/-- The task of a robot. -/
def taskOf (s : FleetNode R) (robot : String) : Option (ActiveTask R) :=
  s.tasks.find? (·.robot = robot)

/-- The robots as `f` sees their tasks. -/
def view (f : ActiveTask R → Phase Int) (s : FleetNode R) (robot : String) : Phase Int :=
  match s.taskOf robot with
  | some t => f t
  | none => .outside

end FleetNode

namespace ActiveTask

/-- A task that stands still asks for nothing. -/
def driven (t : ActiveTask R) : Phase Int := if t.moving then .move t.cur t.next else .outside

/-- A task that stands still asks for the vertex it is at. -/
def phase (t : ActiveTask R) : Phase Int := if t.moving then .move t.cur t.next else .stay t.cur

end ActiveTask

section Views

variable {s s' : FleetNode R} {c : Conf R} {a : Action R} {robot q : String} {t : ActiveTask R}
  {f : ActiveTask R → Phase Int}

omit [Double R] in
theorem Ledger.taskOf_iff (hl : Ledger s) :
    s.taskOf q = some t ↔ t ∈ s.tasks ∧ t.robot = q := by
  constructor
  · intro h
    exact ⟨List.mem_of_find?_eq_some h, by simpa using List.find?_some h⟩
  · rintro ⟨ht, rfl⟩
    cases h : s.taskOf t.robot with
    | none => exact absurd (List.find?_eq_none.mp h t ht) (by simp)
    | some u =>
      have hu := List.mem_of_find?_eq_some h
      have hr : u.robot = t.robot := by simpa using List.find?_some h
      rw [hl.eq_of_robot hu ht hr]

omit [Double R] in
theorem Ledger.view_eq (hl : Ledger s) (ht : t ∈ s.tasks) : s.view f t.robot = f t := by
  rw [FleetNode.view, hl.taskOf_iff.mpr ⟨ht, rfl⟩]

theorem Effect.taskOf_other (h : Effect c a robot s s') (hl : Ledger s) (hl' : Ledger s')
    (hq : q ≠ robot) : s'.taskOf q = s.taskOf q := by
  apply Option.ext
  intro t
  rw [hl.taskOf_iff, hl'.taskOf_iff]
  apply and_congr_left
  intro hr
  exact h.tasks_other hl (hr ▸ hq)

/-- The robots that an effect is not about look as before. -/
theorem Effect.view_other (h : Effect c a robot s s') (hl : Ledger s) (hl' : Ledger s')
    (q : String) (hq : q ≠ robot) : s'.view f q = s.view f q := by
  rw [FleetNode.view, h.taskOf_other hl hl' hq, FleetNode.view]

omit [Double R] in
/-- The robot an effect is about holds what its view asks for, if it does for each task. -/
theorem Ledger.holds_view (hl : Ledger s)
    (h : ∀ t ∈ s.tasks, t.robot = q → Holds s.traffic.owner q (f t)) :
    Holds s.traffic.owner q (s.view f q) := by
  unfold FleetNode.view
  cases ht : s.taskOf q with
  | none => trivial
  | some t =>
    obtain ⟨hmem, hr⟩ := hl.taskOf_iff.mp ht
    exact h t hmem hr

end Views

section Owned

variable {s s' : FleetNode R} {c : Conf R} {a : Action R} {robot : String}

/-- Every moving task has its target reserved for its robot. -/
def Owned (s : FleetNode R) : Prop :=
  ∀ t ∈ s.tasks, t.moving = true → s.traffic.owner t.next = some t.robot

theorem granted_owner {s : FleetCore R} {t : ActiveTask R} (hn : s.traffic.Named)
    (granted : (s.ask t).1 = .grant) : (s.ask t).2.traffic.owner t.next = some t.robot :=
  ReservationDeadlock.requestMove_owner_grant hn granted

/-- The release at a departure spares the target. -/
theorem departed_owner {s : FleetCore R} {t : ActiveTask R} (hn : s.traffic.Named)
    (granted : (s.ask t).1 = .grant) :
    (if t.cur ≠ t.next then (s.ask t).2.traffic.release t.robot t.cur
      else (s.ask t).2.traffic).owner t.next = some t.robot := by
  split
  · rename_i hne
    rw [ReservationDeadlock.release_owner, if_neg fun h => hne h.1.symm]
    exact granted_owner hn granted
  · exact granted_owner hn granted

/-- A task of the robot that is moving after an effect was moving before, and the reservations are
the same; or it has just departed. -/
theorem Effect.moving_self (h : Effect c a robot s s') (hm : Manned s) (hm' : Manned s')
    (steady : a.With Callback.Steady) {t : ActiveTask R} (ht : t ∈ s'.tasks)
    (hr : t.robot = robot) (moving : t.moving = true) :
    ∃ u ∈ s.tasks, u.robot = robot ∧ u.cur = t.cur ∧ u.next = t.next ∧
      (u.moving = true ∧ s'.traffic.owner = s.traffic.owner ∨
        u.moving = false ∧ s'.traffic.owner t.next = some robot) := by
  have self {u : ActiveTask R} (hu : u ∈ s'.tasks) (hur : u.robot = robot) : t = u :=
    hm'.ledger.eq_of_robot ht hu (hr.trans hur.symm)
  cases h with
  | sighting | battery | touch | mode | reload | publish =>
    exact ⟨t, ht, hr, rfl, rfl, .inl ⟨moving, rfl⟩⟩
  | cancel => exact absurd hr (FleetNode.mem_cancelTask.mp ht).2
  | vacate _ jobless => exact absurd hr (jobless t ht)
  | stopClaim _ stopped => exact absurd stopped (hr ▸ hm.unstopped t ht)
  | dispatch _ _ _ known idle =>
    rcases FleetNode.mem_enlist.mp ht with ht | rfl
    · exact absurd hr (hm.ledger.jobless known idle t ht)
    · cases moving
  | patrol _ _ _ jobless =>
    rcases FleetNode.mem_enlist.mp ht with ht | rfl
    · exact absurd hr (jobless t ht)
    · cases moving
  | fail head | complete head => exact absurd hr (hm.ledger.robot_ne_head head ht)
  | @look _ u _ head =>
    rw [self List.mem_cons_self rfl] at moving ⊢
    exact ⟨u, by simp [head], rfl, rfl, rfl, .inl ⟨moving, rfl⟩⟩
  | pass | lap =>
    rw [self List.mem_cons_self rfl] at moving
    cases moving
  | drive head =>
    have hold : t ∈ s.tasks := by
      rw [head]
      exact (List.perm_append_singleton _ _).mem_iff.mp ht
    exact ⟨t, hold, hr, rfl, rfl, .inl ⟨moving, rfl⟩⟩
  | @grant _ u _ _ _ head still granted =>
    rw [self List.mem_concat_self rfl]
    exact ⟨u, by simp [head], rfl, rfl, rfl, .inr ⟨still, departed_owner hm.named granted⟩⟩
  | reroute _ cause =>
    rw [self List.mem_concat_self (ActiveTask.detoured_robot ..),
      ActiveTask.detoured_moving] at moving
    cases moving
  | hold _ _ _ _ head still =>
    rw [self List.mem_concat_self rfl] at moving
    exact absurd moving (by simp [still])
  | swap _ _ _ _ called => exact (steady.not_swap called).elim

/-- What an effect leaves its own robot with. -/
theorem Effect.owned_self (h : Effect c a robot s s') (hm : Manned s) (hm' : Manned s')
    (steady : a.With Callback.Steady) (hs : Owned s) {t : ActiveTask R} (ht : t ∈ s'.tasks)
    (hr : t.robot = robot) (moving : t.moving = true) : s'.traffic.owner t.next = some robot := by
  obtain ⟨u, hu, rfl, -, hnext, ⟨hmoving, hkept⟩ | ⟨-, howner⟩⟩ :=
    h.moving_self hm hm' steady ht hr moving
  · rw [hkept, ← hnext]
    exact hs u hu hmoving
  · exact howner

omit [Double R] in
theorem Ledger.owned_iff (hl : Ledger s) :
    Owned s ↔ Held s.traffic.owner (s.view ActiveTask.driven) := by
  constructor
  · intro h q
    apply hl.holds_view
    intro t ht hr
    unfold ActiveTask.driven
    split
    · exact hr ▸ h t ht ‹_›
    · trivial
  · intro h t ht moving
    have := h t.robot
    rwa [hl.view_eq ht, ActiveTask.driven, if_pos moving] at this

/-- An effect is an act of its robot in the discipline, as far as the moving robots go. -/
theorem Effect.drives (h : Effect c a robot s s') (hm : Manned s) (hm' : Manned s')
    (steady : a.With Callback.Steady) (hs : Owned s) :
    Act robot s.traffic.owner s'.traffic.owner (s.view ActiveTask.driven)
      (s'.view ActiveTask.driven) where
  alone := h.alone steady hm.named
  others := h.view_other hm.ledger hm'.ledger
  holds := by
    apply hm'.ledger.holds_view
    intro t ht hr
    unfold ActiveTask.driven
    split
    · exact h.owned_self hm hm' steady hs ht hr ‹_›
    · trivial

theorem Effect.owned (h : Effect c a robot s s') (hm : Manned s) (hm' : Manned s')
    (steady : a.With Callback.Steady) (hs : Owned s) : Owned s' :=
  hm'.ledger.owned_iff.mpr ((h.drives hm hm' steady hs).held (hm.ledger.owned_iff.mp hs))

theorem reach_owned {p : Setup R} {ok : Conf R → Action R → Prop}
    (plain : ∀ c a, ok c a → a.With Callback.Plain) {c : Conf R} (hc : (ticks p).Reach ok c) :
    Owned c.node := by
  refine reach_keeps plain (P := Owned) ?_ ?_ hc
  · intro t ht
    cases ht
  · exact fun c a robot s s' hok he hw hw' => he.owned hw.manned hw'.manned (plain c a hok).steady

omit [Double R] in
/-- No two tasks are moving to a vertex that only one of them can own. -/
theorem Owned.apart (hown : Owned s) (hl : Ledger s) :
    s.tasks.Pairwise fun t u => t.moving = true → u.moving = true → t.next ≠ u.next := by
  refine List.Pairwise.imp_of_mem ?_ (List.pairwise_map.mp hl.once)
  intro t u ht hu hne hmt hmu hnext
  have howner := hown t ht hmt
  rw [hnext, hown u hu hmu] at howner
  exact hne (Option.some.inj howner).symm

/-- In every run every moving task owns its target, so no two of them have the same. -/
theorem moving_task_owns_target {p : Setup R} {s : FleetNode R}
    (hs : (fleet p).Reach (fun _ cb => cb.Plain) s) :
    Owned s ∧ s.tasks.Pairwise fun t u => t.moving = true → u.moving = true → t.next ≠ u.next := by
  have hc := reach_ticks hs
  have hown := reach_owned (fun _ _ h => h) hc
  exact ⟨hown, hown.apart (reach_wellformed (fun _ _ h => h) hc).ledger⟩

/-- Two robots on the move at once. -/
theorem moving_task_owns_target_two : ∃ s : FleetNode ℚ,
    (fleet (Yard.setup false [])).Reach (fun _ cb => cb.Plain) s ∧
    (s.tasks.map fun t => (t.robot, t.moving, t.next)) = [("r1", true, 1), ("r2", true, 4)] ∧
    Owned s := by
  obtain ⟨s, hs, hp⟩ := (fleet (Yard.setup false [])).exists_reach (fun _ cb => cb.Plain)
    (fun s => decide ((s.tasks.map fun t => (t.robot, t.moving, t.next)) =
      [("r1", true, 1), ("r2", true, 4)]))
    [Yard.seen "r1" 0 0, Yard.seen "r2" 20 0, Yard.send "r1" "1", Yard.send "r2" "3", .timer]
    (by decide +kernel)
  exact ⟨s, hs, of_decide_eq_true hp, (moving_task_owns_target hs).1⟩

end Owned

/-! ## No head-on traffic -/

section HeadOn

variable {s s' : FleetNode R} {c : Conf R} {a : Action R} {robot : String}

/-- No two moving tasks travel the same lane in opposite directions. -/
def NoHeadOn (s : FleetNode R) : Prop :=
  ∀ t ∈ s.tasks, ∀ u ∈ s.tasks, t.moving = true → u.moving = true →
    t.cur = u.next → t.next = u.cur → t.cur = t.next

instance (s : FleetNode R) : Decidable (NoHeadOn s) :=
  inferInstanceAs (Decidable (∀ t ∈ s.tasks, ∀ u ∈ s.tasks, _))

/-- A new task starts at a vertex that no other robot holds, and a new lap at one that its robot
holds. -/
structure StartsOwned (c : Conf R) (a : Action R) : Prop where
  plain : a.With Callback.Plain
  starts : ∀ e ∈ c.enlists a, c.node.traffic.FreeFor (e.2.getD 0 0) e.1
  laps : ∀ l ∈ c.laps a, c.node.traffic.owner (l.2.2.getD 0 0) = some l.1

instance (c : Conf R) (a : Action R) : Decidable (StartsOwned c a) :=
  decidable_of_iff (a.With Callback.Plain ∧
    (∀ e ∈ c.enlists a, c.node.traffic.FreeFor (e.2.getD 0 0) e.1) ∧
    (∀ l ∈ c.laps a, c.node.traffic.owner (l.2.2.getD 0 0) = some l.1))
    ⟨fun h => ⟨h.1, h.2.1, h.2.2⟩, fun h => ⟨h.plain, h.starts, h.laps⟩⟩

/-- A refused request takes no node from anybody. -/
theorem refused_owner {s : FleetCore R} {t : ActiveTask R} (hn : s.traffic.Named)
    (refused : (s.ask t).1 ≠ .grant) (v : Int) :
    (s.ask t).2.traffic.owner v = s.traffic.owner v := by
  have := @ReservationDeadlock.requestMove_owner s.traffic t.robot t.cur t.next
    (s.computePriority t.robot t) hn v
  rwa [if_neg fun h => refused h.1] at this

/-- A new task that may have the vertex it starts from gets it. -/
theorem enlist_owner {key label : String} {t : ActiveTask R} (hn : s.traffic.Named)
    (free : s.traffic.FreeFor t.cur t.robot) :
    (s.enlist key t label).traffic.owner t.cur = some t.robot := by
  obtain ⟨p, he, -⟩ := s.enlist_traffic key label t
  rw [he]
  exact ReservationDeadlock.requestMove_owner_grant hn ((ReservationDeadlock.grant_iff hn).mpr free)

theorem Effect.stays_self (h : Effect c a robot s s') (hw : Wellformed s) (hw' : Wellformed s')
    (ok : StartsOwned c a) (hs : Held s.traffic.owner (s.view ActiveTask.phase))
    {t : ActiveTask R} (ht : t ∈ s'.tasks) (hr : t.robot = robot) :
    Holds s'.traffic.owner robot t.phase := by
  have self {u : ActiveTask R} (hu : u ∈ s'.tasks) (hur : u.robot = robot) : t = u :=
    hw'.ledger.eq_of_robot ht hu (hr.trans hur.symm)
  have old {u : ActiveTask R} (hu : u ∈ s.tasks) : Holds s.traffic.owner u.robot u.phase := by
    have := hs u.robot
    rwa [hw.ledger.view_eq hu] at this
  cases h with
  | sighting | battery | touch | mode | reload | publish => exact hr ▸ old ht
  | cancel => exact absurd hr (FleetNode.mem_cancelTask.mp ht).2
  | vacate _ jobless => exact absurd hr (jobless t ht)
  | stopClaim _ stopped => exact absurd stopped (hr ▸ hw.unstopped t ht)
  | dispatch _ _ _ known idle others start =>
    rcases FleetNode.mem_enlist.mp ht with ht | rfl
    · exact absurd hr (hw.ledger.jobless known idle t ht)
    · refine enlist_owner hw.named ?_
      intro o ho
      by_contra hne
      exact hne (ok.starts _ start o ((others o hne _).mp ho))
  | patrol here _ _ jobless _ _ _ start =>
    rcases FleetNode.mem_enlist.mp ht with ht | rfl
    · exact absurd hr (jobless t ht)
    · exact enlist_owner hw.named fun o ho => ok.starts _ start o (here ▸ ho)
  | fail head | complete head => exact absurd hr (hw.ledger.robot_ne_head head ht)
  | @look _ u _ head =>
    rw [self List.mem_cons_self rfl]
    exact old (u := u) (by simp [head])
  | @pass _ u _ head moving =>
    rw [self List.mem_cons_self rfl]
    have hold := old (u := u) (by simp [head])
    rwa [ActiveTask.phase, if_pos moving] at hold
  | lap here _ _ _ _ _ start =>
    rw [self List.mem_cons_self rfl]
    exact here ▸ ok.laps _ start
  | drive head =>
    refine hr ▸ old ?_
    rw [head]
    exact (List.perm_append_singleton _ _).mem_iff.mp ht
  | grant _ head _ granted =>
    rw [self List.mem_concat_self rfl]
    exact departed_owner hw.named granted
  | @reroute _ u _ path _ cause _ head still refused found long =>
    rw [self List.mem_concat_self (ActiveTask.detoured_robot ..)]
    have hold := old (u := u) (by simp [head])
    rw [ActiveTask.phase, still, if_neg Bool.false_ne_true] at hold
    have hcur := (detour_spec found long cause).1
    rw [ActiveTask.phase, hcur, ActiveTask.detoured_moving, if_neg Bool.false_ne_true]
    exact (refused_owner hw.named (Detour.refused refused) _).trans hold
  | @hold _ u _ _ _ _ _ head still refused =>
    rw [self List.mem_concat_self rfl]
    have hold := old (u := u) (by simp [head])
    rw [ActiveTask.phase, still, if_neg Bool.false_ne_true] at hold
    rw [ActiveTask.phase, if_neg (by simp [still])]
    exact (refused_owner hw.named refused _).trans hold
  | swap _ _ _ _ called => exact (ok.plain.steady.not_swap called).elim

/-- A robot that starts to move does so from where its task stood. -/
theorem Effect.lane_self (h : Effect c a robot s s') (hw : Wellformed s) (hw' : Wellformed s')
    (steady : a.With Callback.Steady) {t : ActiveTask R} (ht : t ∈ s'.tasks) (hr : t.robot = robot)
    (moving : t.moving = true) :
    s.view ActiveTask.phase robot = .move t.cur t.next ∨
      s.view ActiveTask.phase robot = .stay t.cur := by
  obtain ⟨u, hu, rfl, hcur, hnext, hcases⟩ := h.moving_self hw.manned hw'.manned steady ht hr moving
  rw [hw.ledger.view_eq hu, ActiveTask.phase, hcur, hnext]
  rcases hcases with ⟨hmoving, -⟩ | ⟨still, -⟩
  · rw [if_pos hmoving]
    exact .inl rfl
  · rw [still, if_neg Bool.false_ne_true]
    exact .inr rfl

/-- An effect is an act of its robot in the discipline, where tasks and laps start owned. -/
theorem Effect.departs (h : Effect c a robot s s') (hw : Wellformed s) (hw' : Wellformed s')
    (ok : StartsOwned c a) (hs : Held s.traffic.owner (s.view ActiveTask.phase)) :
    Departs robot s.traffic.owner s'.traffic.owner (s.view ActiveTask.phase)
      (s'.view ActiveTask.phase) where
  alone := h.alone ok.plain.steady hw.named
  others := h.view_other hw.ledger hw'.ledger
  holds := hw'.ledger.holds_view fun t ht hr => h.stays_self hw hw' ok hs ht hr
  lane := by
    intro u v hm
    unfold FleetNode.view at hm
    split at hm
    · rename_i t ht
      obtain ⟨hmem, hr⟩ := hw'.ledger.taskOf_iff.mp ht
      unfold ActiveTask.phase at hm
      split at hm
      · rename_i moving
        cases hm
        exact h.lane_self hw hw' ok.plain.steady hmem hr moving
      · cases hm
    · cases hm

theorem reach_safe {p : Setup R} {c : Conf R} (hc : (ticks p).Reach StartsOwned c) :
    Safe c.node.traffic.owner (c.node.view ActiveTask.phase) := by
  refine reach_keeps (fun _ _ h => h.plain)
    (P := fun s => Safe s.traffic.owner (s.view ActiveTask.phase)) ?_ ?_ hc
  · exact ⟨fun _ => trivial, by rintro r q - ⟨u, v, h, -⟩; cases h⟩
  · exact fun c a robot s s' ok he hw hw' hs => (he.departs hw hw' ok hs.held).safe hs

theorem Wellformed.noHeadOn (hw : Wellformed s)
    (hs : Safe s.traffic.owner (s.view ActiveTask.phase)) : NoHeadOn s := by
  intro t ht u hu hmt hmu hcur hnext
  by_cases hr : t.robot = u.robot
  · rw [hw.ledger.eq_of_robot ht hu hr] at hcur ⊢
    exact hcur
  · refine absurd ⟨t.cur, t.next, ?_, ?_⟩ (hs.apart t.robot u.robot hr)
    · rw [hw.ledger.view_eq ht, ActiveTask.phase, if_pos hmt]
    · rw [hw.ledger.view_eq hu, ActiveTask.phase, if_pos hmu, hcur, hnext]

/-- In runs whose tasks and laps all start at a vertex that their robot gets or has, there is no
head-on traffic. -/
theorem no_head_on {p : Setup R} {c : Conf R} (hc : (ticks p).Reach StartsOwned c) :
    NoHeadOn c.node :=
  (reach_wellformed (fun _ _ h => h.plain) hc).noHeadOn (reach_safe hc)

/-- A run that keeps to the condition, with two robots on the move. -/
theorem no_head_on_two : ∃ c : Conf ℚ, (ticks (Yard.setup false [])).Reach StartsOwned c ∧
    (c.node.tasks.map fun t => (t.robot, t.moving, t.next)) = [("r1", true, 1), ("r2", true, 4)] ∧
    NoHeadOn c.node := by
  obtain ⟨c, hc, hp⟩ := (ticks (Yard.setup false [])).exists_reach StartsOwned
    (fun c => decide ((c.node.tasks.map fun t => (t.robot, t.moving, t.next)) =
      [("r1", true, 1), ("r2", true, 4)]))
    ([.call (Yard.seen "r1" 0 0), .call (Yard.seen "r2" 20 0), .call (Yard.send "r1" "1"),
      .call (Yard.send "r2" "3")] ++ Yard.taken .timer 6)
    (by decide +kernel)
  exact ⟨c, hc, of_decide_eq_true hp, no_head_on hc⟩

/-- The first robot drives from 0 to 1, where the second stands without a task. The second is then
sent from 1 to 0: its claim of 1 is refused, and it is granted 0 all the same. -/
theorem head_on : ¬ ∀ (p : Setup ℚ) (s : FleetNode ℚ),
    (fleet p).Reach (fun _ cb => cb.Plain) s → NoHeadOn s := by
  intro h
  obtain ⟨s, hs, hp⟩ := (fleet (Yard.setup false [])).exists_reach (fun _ cb => cb.Plain)
    (fun s => decide (¬ NoHeadOn s))
    [Yard.seen "r1" 0 0, Yard.seen "r2" 10 0, Yard.send "r1" "1", .timer, Yard.send "r2" "0",
      .timer]
    (by decide +kernel)
  exact of_decide_eq_true hp (h _ s hs)

end HeadOn

end LibiFleet
