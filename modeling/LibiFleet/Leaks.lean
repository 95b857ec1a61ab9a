import LibiFleet.Driving

/-!
# Reservations that nobody uses

Every reservation belongs to the task of its robot or to a robot that is stopped, in
runs that leave out two things: CHARGE for a stopped robot that holds a vertex, and a
new lap that neither starts at the vertex just reached nor goes there first.
-/

namespace LibiFleet

open Std (ExtTreeMap)

variable {R : Type} [Double R]

/-- Each reserved vertex is where the task of its robot is or goes, or the robot is stopped. -/
def Justified (s : FleetNode R) : Prop := ∀ v r, s.traffic.owner v = some r →
  (∃ t ∈ s.tasks, t.robot = r ∧ (t.cur = v ∨ t.next = v)) ∨ s.modeOf r = .stop

namespace Conf

/-- The step sets a robot to CHARGE that is stopped and holds a vertex. -/
def ChargesHolder : Conf R → Action R → Prop
  | idle s, .call (.setMode req) =>
    Mode.ofString? req.mode = some .charge ∧ s.modeOf req.robot = .stop ∧
      ∃ no ∈ s.traffic.occupancy, no.2 = req.robot
  | _, _ => False

instance (c : Conf R) (a : Action R) : Decidable (c.ChargesHolder a) :=
  match c, a with
  | idle s, .call (.setMode req) =>
    inferInstanceAs (Decidable (Mode.ofString? req.mode = some .charge ∧
      s.modeOf req.robot = .stop ∧ ∃ no ∈ s.traffic.occupancy, no.2 = req.robot))
  | idle _, .call (.robotState _) | idle _, .call (.submit _) | idle _, .call .timer
  | idle _, .call (.setPlugins ..) | idle _, .call (.reload _) | idle _, .call (.setBattery _)
  | idle _, .go | patrols .., _ | looping .., _ | asking .., _ => inferInstanceAs (Decidable False)

end Conf

/-- The runs of this module. -/
structure ClaimsKept (c : Conf R) (a : Action R) : Prop where
  plain : a.With Callback.Plain
  charges : ¬ c.ChargesHolder a
  laps : ∀ l ∈ c.laps a, l.2.1 = l.2.2.getD 0 0 ∨ l.2.1 = l.2.2.getD 1 0

instance (c : Conf R) (a : Action R) : Decidable (ClaimsKept c a) :=
  decidable_of_iff (a.With Callback.Plain ∧ ¬ c.ChargesHolder a ∧
    ∀ l ∈ c.laps a, l.2.1 = l.2.2.getD 0 0 ∨ l.2.1 = l.2.2.getD 1 0)
    ⟨fun h => ⟨h.1, h.2.1, h.2.2⟩, fun h => ⟨h.plain, h.charges, h.laps⟩⟩

/-- What is kept from step to step: a robot that moves holds its target only. -/
def Reserved (s : FleetNode R) : Prop := ∀ v r, s.traffic.owner v = some r →
  s.modeOf r = .stop ∨
    ∃ t ∈ s.tasks, t.robot = r ∧ (t.next = v ∨ t.moving = false ∧ t.cur = v)

section

variable {s s' : FleetNode R} {c : Conf R} {a : Action R} {robot : String} {t : ActiveTask R}

omit [Double R] in
/-- At the end of its path the next vertex is the last. -/
theorem back_eq_next (hp : t.Placed) (last : t.path.length ≤ t.idx + 1) : t.back = t.next := by
  obtain ⟨-, hlt⟩ := hp
  rw [ActiveTask.back, ActiveTask.next, List.getLastD_eq_getLast?, List.getLast?_eq_getElem?,
    List.getD_eq_getElem?_getD, show t.path.length - 1 = t.idx by omega]

/-- The next vertex of a task that is refused is not its own. -/
theorem refused_not_own {s : FleetCore R} (hn : s.traffic.Named) (refused : (s.ask t).1 ≠ .grant) :
    s.traffic.owner t.next ≠ some t.robot := by
  intro ho
  apply refused
  apply (ReservationDeadlock.grant_iff hn).mpr
  intro o ho'
  rw [ho] at ho'
  exact (Option.some.inj ho').symm

/-- A robot that comes to a task holds no vertex before, and at most the first one after. -/
theorem enlisted (s : FleetNode R) {key label : String} {t : ActiveTask R} (hn : s.traffic.Named)
    (unstopped : s.modeOf t.robot ≠ .stop) (jobless : ∀ u ∈ s.tasks, u.robot ≠ t.robot)
    (hs : Reserved s) (still : t.moving = false) {v : Int}
    (hv : (s.enlist key t label).traffic.owner v = some t.robot) :
    ∃ u ∈ (s.enlist key t label).tasks, u.robot = t.robot ∧
      (u.next = v ∨ u.moving = false ∧ u.cur = v) := by
  refine ⟨t, by simp, rfl, .inr ⟨still, ?_⟩⟩
  obtain ⟨p, he, -⟩ := s.enlist_traffic key label t
  rw [he, ReservationDeadlock.requestMove_owner hn] at hv
  split at hv
  · rename_i h
    exact h.2.symm
  · rcases hs v _ hv with hstop | ⟨u, hu, hr, -⟩
    · exact absurd hstop unstopped
    · exact absurd hr (jobless u hu)

/-- After its departure a robot holds the vertex it goes to, and no other. -/
theorem departed_only {s : FleetCore R} (hn : s.traffic.Named) {v : Int}
    (held : s.traffic.owner v = some t.robot → t.next = v ∨ t.moving = false ∧ t.cur = v)
    (hv : (if t.cur ≠ t.next then (s.ask t).2.traffic.release t.robot t.cur
      else (s.ask t).2.traffic).owner v = some t.robot) : t.next = v := by
  have asked (hv : (s.ask t).2.traffic.owner v = some t.robot) : t.next = v ∨ t.cur = v := by
    have hv' : (s.traffic.requestMove t.robot t.cur t.next _).2.owner v = some t.robot := hv
    rw [ReservationDeadlock.requestMove_owner hn] at hv'
    split at hv'
    · rename_i h
      exact .inl h.2.symm
    · exact (held hv').imp_right And.right
  split at hv
  · rcases asked ((ReservationDeadlock.sheds_release ..).kept hv) with hnext | rfl
    · exact hnext
    · exact absurd hv (ReservationDeadlock.release_gone _ _ _)
  · rename_i heq
    rcases asked hv with hnext | hcur
    · exact hnext
    · exact (not_not.mp heq) ▸ hcur

theorem Effect.reserved_self (h : Effect c a robot s s') (hw : Wellformed s) (hw' : Wellformed s')
    (ok : ClaimsKept c a) (hs : Reserved s) {v : Int} (hv : s'.traffic.owner v = some robot) :
    s'.modeOf robot = .stop ∨
      ∃ t ∈ s'.tasks, t.robot = robot ∧ (t.next = v ∨ t.moving = false ∧ t.cur = v) := by
  -- what the robot of the task `t` at the head of the queue holds
  have held {t : ActiveTask R} {rest : List (ActiveTask R)} (head : s.tasks = t :: rest)
      (hv : s.traffic.owner v = some t.robot) : t.next = v ∨ t.moving = false ∧ t.cur = v := by
    have ht : t ∈ s.tasks := by simp [head]
    rcases hs v _ hv with hstop | ⟨u, hu, hr, hheld⟩
    · exact absurd hstop (hw.unstopped t ht)
    · exact hw.ledger.eq_of_robot hu ht hr ▸ hheld
  have driven {t : ActiveTask R} {rest : List (ActiveTask R)} (head : s.tasks = t :: rest)
      (moving : t.moving = true) (hv : s.traffic.owner v = some t.robot) : t.next = v :=
    (held head hv).resolve_right fun h => by simp [moving] at h
  cases h with
  | sighting msg =>
    rcases hs v _ hv with hstop | htask
    · rcases s.onRobotState_modeOf msg msg.name with he | ⟨-, hidle, -⟩
      · exact .inl (he.trans hstop)
      · rw [hstop] at hidle
        cases hidle
    · exact .inr htask
  | battery | touch | reload | publish => exact hs v _ hv
  | cancel =>
    rcases hs v _ ((s.cancelTask_sheds robot).kept hv) with hstop | ⟨t, ht, rfl, hheld⟩
    · exact .inl hstop
    · obtain ⟨-, hcur, hnext⟩ := FleetNode.cancelTask_clears ht (hw.placed t ht)
      rcases hheld with rfl | ⟨-, rfl⟩
      · exact absurd hv hnext
      · exact absurd hv hcur
  | vacate => exact absurd hv (FleetNode.releaseAll_owner v)
  | @mode _ _ name m called known charge away =>
    by_cases hm : m = .charge
    · rcases hs v _ hv with hstop | htask
      · refine absurd ?_ ok.charges
        rw [charge hm, called]
        have howned := ExtTreeMap.mem_toList_iff_getElem?_eq_some.mpr hv
        exact ⟨hm ▸ known, hstop, (v, robot), howned, rfl⟩
      · exact .inr htask
    · exact absurd hv ((away hm).2 v)
  | stopClaim _ stopped => exact .inl stopped
  | @dispatch _ _ counter _ _ _ _ _ _ _ _ _ _ _ _ _ known idle =>
    have unstopped := hw'.unstopped _ List.mem_concat_self
    exact .inr (enlisted { s with taskCounter := counter } hw.named unstopped
      (hw.ledger.jobless known idle) hs rfl hv)
  | patrol _ _ _ jobless =>
    have unstopped := hw'.unstopped _ List.mem_concat_self
    exact .inr (enlisted s hw.named unstopped jobless hs rfl hv)
  | @look _ u _ head =>
    have hheld := held (t := u) head hv
    exact .inr ⟨_, List.mem_cons_self, rfl, hheld⟩
  | fail head _ moving sheds freed =>
    have hv' : ReservationDeadlock.owner _ v = some _ := hv
    rw [freed (hw.placed _ (by simp [head]))] at hv'
    have hnext := driven head moving (sheds.kept hv)
    subst hnext
    exact absurd ((ReservationDeadlock.sheds_release ..).kept hv')
      (ReservationDeadlock.release_gone _ _ _)
  | @complete _ t _ head moving last =>
    have hv' : (s.traffic.release t.robot t.back).owner v = some t.robot := hv
    have hnext := driven head moving ((ReservationDeadlock.sheds_release ..).kept hv')
    rw [← hnext, ← back_eq_next (hw.placed _ (by simp [head])) last] at hv'
    exact absurd hv' (ReservationDeadlock.release_gone _ _ _)
  | pass head moving =>
    exact .inr ⟨_, List.mem_cons_self, rfl, .inr ⟨rfl, driven head moving hv⟩⟩
  | lap _ head moving _ _ _ start =>
    rcases driven head moving hv ▸ ok.laps _ start with hfirst | hsecond
    · exact .inr ⟨_, List.mem_cons_self, rfl, .inr ⟨rfl, hfirst.symm⟩⟩
    · exact .inr ⟨_, List.mem_cons_self, rfl, .inl hsecond.symm⟩
  | drive head =>
    exact .inr ⟨_, List.mem_concat_self, rfl, held head hv⟩
  | @grant _ t _ _ _ head still granted =>
    refine .inr ⟨_, List.mem_concat_self, rfl, .inl ?_⟩
    exact departed_only (t := t) hw.named (fun ho => held head ho) hv
  | @reroute _ t _ path _ cause _ head still refused found long =>
    have hrefused := Detour.refused refused
    rw [show (_ : FleetNode R).traffic = (s.ask t).2.traffic from rfl,
      refused_owner hw.named hrefused] at hv
    have hcur := (detour_spec found long cause).1
    rcases held head hv with rfl | ⟨-, rfl⟩
    · exact absurd hv (refused_not_own hw.named hrefused)
    · exact .inr ⟨_, List.mem_concat_self,
        ActiveTask.detoured_robot .., .inr ⟨ActiveTask.detoured_moving .., hcur⟩⟩
  | @hold _ t _ _ _ _ _ head still refused =>
    rw [show (_ : FleetNode R).traffic = (s.ask t).2.traffic from rfl,
      refused_owner hw.named refused] at hv
    exact .inr ⟨_, List.mem_concat_self, rfl, held (t := t) head hv⟩
  | swap _ _ _ _ called => exact (ok.plain.steady.not_swap called).elim

theorem Effect.reserved (h : Effect c a robot s s') (hw : Wellformed s) (hw' : Wellformed s')
    (ok : ClaimsKept c a) (hs : Reserved s) : Reserved s' := by
  intro v r hr
  by_cases hne : r = robot
  · subst hne
    exact h.reserved_self hw hw' ok hs hr
  rcases hs v r ((h.alone ok.plain.steady hw.named r hne v).mp hr) with hstop | ⟨t, ht, rfl, hheld⟩
  · exact .inl ((h.mode_other hne).trans hstop)
  · exact .inr ⟨t, (h.tasks_other hw.ledger hne).mpr ht, rfl, hheld⟩

theorem reach_reserved {p : Setup R} (hc : (ticks p).Reach ClaimsKept c) : Reserved c.node := by
  refine reach_keeps (fun _ _ h => h.plain) (P := Reserved) ?_ ?_ hc
  · intro v r hr
    simp [FleetNode.start, ReservationDeadlock.owner] at hr
  · exact fun c a robot s s' ok he hw hw' hs => he.reserved hw hw' ok hs

/-- No reservation is left behind in the runs that keep to `ClaimsKept`. -/
theorem reservations_justified {p : Setup R} (hc : (ticks p).Reach ClaimsKept c) :
    Justified c.node := by
  intro v r hr
  rcases reach_reserved hc v r hr with hstop | ⟨t, ht, hrobot, hheld⟩
  · exact .inr hstop
  · exact .inl ⟨t, ht, hrobot, hheld.symm.imp_left And.right⟩

end

/-- A robot that is stopped where it stands, and one on patrol that drives from 0 to 1. -/
theorem reservations_justified_two : ∃ c : Conf ℚ,
    (ticks (Yard.setup true [0, 1, 2])).Reach ClaimsKept c ∧
    c.node.traffic.occupancy = [(1, "r2"), (4, "r1")] ∧ Justified c.node := by
  obtain ⟨c, hc, hp⟩ := (ticks (Yard.setup true [0, 1, 2])).exists_reach ClaimsKept
    (fun c => decide (c.node.traffic.occupancy = [(1, "r2"), (4, "r1")]))
    ([.call (Yard.seen "r1" 20 (-10)), .call (Yard.seen "r2" 0 0), .call (Yard.mode "r1" "STOP")] ++
      Yard.taken .timer 6)
    (by decide +kernel)
  exact ⟨c, hc, of_decide_eq_true hp, reservations_justified hc⟩

/-- A stopped robot claims 0, and CHARGE does not release it. -/
theorem claim_left : ¬ ∀ (p : Setup ℚ) (s : FleetNode ℚ),
    (fleet p).Reach (fun _ cb => cb.Plain) s → Justified s := by
  intro h
  obtain ⟨s, hs, hp⟩ := (fleet (Yard.setup false [])).exists_reach (fun _ cb => cb.Plain)
    (fun s => decide (s.traffic.owner 0 = some "r1" ∧ s.tasks.length = 0 ∧ s.modeOf "r1" ≠ .stop))
    [Yard.seen "r1" 0 0, Yard.mode "r1" "STOP", Yard.mode "r1" "CHARGE"]
    (by decide +kernel)
  obtain ⟨howner, hnone, hmode⟩ := of_decide_eq_true hp
  rcases h _ s hs 0 "r1" howner with ⟨t, ht, -⟩ | hstop
  · rw [List.length_eq_zero_iff.mp hnone] at ht
    cases ht
  · exact hmode hstop

end LibiFleet
