import LibiFleet.Effects

/-!
# An effect leaves the other robots alone

The mode, the reservations, the waiting and the priority of every robot but the
one an effect is about stay as they are.
-/

namespace LibiFleet

open Std (ExtTreeMap)
open ReservationDeadlock (Sheds)

variable {R : Type} [Double R]

namespace Effect

variable {c : Conf R} {a : Action R} {robot : String} {s s' : FleetNode R}

/-- Everything that happens to the plugin: at most one request of the robot, and releases. -/
theorem traffic_path (h : Effect c a robot s s') (steady : a.With Callback.Steady) : ∃ σ,
    (σ = s.traffic ∨ ∃ src dst p, σ = (s.traffic.requestMove robot src dst p).2) ∧
      Sheds robot σ s'.traffic := by
  cases h with
  | sighting | battery | touch | mode | reload | look | pass | lap | drive | publish =>
    exact ⟨_, .inl rfl, .refl ..⟩
  | cancel => exact ⟨_, .inl rfl, s.cancelTask_sheds robot⟩
  | vacate => exact ⟨_, .inl rfl, s.releaseAll_sheds robot⟩
  | stopClaim | dispatch | patrol | reroute | hold => exact ⟨_, .inr ⟨_, _, _, rfl⟩, .refl ..⟩
  | fail _ _ _ sheds => exact ⟨_, .inl rfl, sheds⟩
  | complete => exact ⟨_, .inl rfl, ReservationDeadlock.sheds_release ..⟩
  | @grant _ t =>
    refine ⟨(s.ask t).2.traffic, .inr ⟨_, _, _, rfl⟩, ?_⟩
    dsimp only
    split
    · exact ReservationDeadlock.sheds_release ..
    · exact .refl ..
  | swap _ _ _ _ called => exact (steady.not_swap called).elim

theorem named (h : Effect c a robot s s') (steady : a.With Callback.Steady)
    (hn : s.traffic.Named) (hr : robot ≠ "") : s'.traffic.Named := by
  obtain ⟨σ, rfl | ⟨src, dst, p, rfl⟩, hsheds⟩ := h.traffic_path steady
  · exact hsheds.named hn
  · exact hsheds.named (ReservationDeadlock.requestMove_named hn hr src dst p)

theorem alone (h : Effect c a robot s s') (steady : a.With Callback.Steady)
    (hn : s.traffic.Named) : Alone robot s.traffic.owner s'.traffic.owner := by
  obtain ⟨σ, rfl | ⟨src, dst, p, rfl⟩, hsheds⟩ := h.traffic_path steady
  · exact hsheds.alone
  · exact (ReservationDeadlock.requestMove_alone hn robot src dst p).trans hsheds.alone

theorem waits_other (h : Effect c a robot s s') (steady : a.With Callback.Steady) {q : String}
    (hq : q ≠ robot) : s'.traffic.waits q = s.traffic.waits q := by
  obtain ⟨σ, rfl | ⟨src, dst, p, rfl⟩, hsheds⟩ := h.traffic_path steady
  · exact hsheds.waits_other hq
  · rw [hsheds.waits_other hq, ReservationDeadlock.requestMove_waits_other hq]

theorem prio_other (h : Effect c a robot s s') (steady : a.With Callback.Steady) {q : String}
    (hq : q ≠ robot) : prioOf s'.traffic.prio q = prioOf s.traffic.prio q := by
  obtain ⟨σ, rfl | ⟨src, dst, p, rfl⟩, hsheds⟩ := h.traffic_path steady
  · rw [hsheds.prio]
  · rw [hsheds.prio, ReservationDeadlock.requestMove_prio, if_neg hq]

/-- A mode is only set by `on_set_mode` or, for a robot that is seen for the first time, from IDLE
to PATROL. -/
theorem modes (h : Effect c a robot s s') :
    (∃ name m, a = .call (.setMode ⟨robot, name⟩) ∧ Mode.ofString? name = some m ∧
      (m = .charge → c = .idle s) ∧ s' = { s with robotMode := s.robotMode.insert robot m } ∧
      (m ≠ .charge → (∀ t ∈ s.tasks, t.robot ≠ robot) ∧ ∀ v, s.traffic.owner v ≠ some robot)) ∨
    ∀ q, s'.modeOf q = s.modeOf q ∨ q = robot ∧ s.modeOf q = .idle ∧ s'.modeOf q = .patrol := by
  cases h with
  | sighting msg => exact .inr (s.onRobotState_modeOf msg)
  | mode called known charge away => exact .inl ⟨_, _, called, known, charge, rfl, away⟩
  | _ => exact .inr fun q => .inl rfl

theorem mode_other (h : Effect c a robot s s') {q : String} (hq : q ≠ robot) :
    s'.modeOf q = s.modeOf q := by
  rcases h.modes with ⟨name, m, -, -, -, rfl, -⟩ | hmodes
  · simp [FleetCore.modeOf, ExtTreeMap.getD_insert, Ne.symm hq]
  · exact (hmodes q).resolve_right fun hseen => hq hseen.1

/-- A robot that has a task stays in its mode, is set to CHARGE or is new on patrol. -/
theorem mode_tasked (h : Effect c a robot s s') {t : ActiveTask R} (ht : t ∈ s.tasks) :
    s'.modeOf t.robot = s.modeOf t.robot ∨ s'.modeOf t.robot = .charge ∨
      s.modeOf t.robot = .idle ∧ s'.modeOf t.robot = .patrol := by
  by_cases hr : t.robot = robot
  · rcases h.modes with ⟨name, m, -, -, -, rfl, away⟩ | hmodes
    · by_cases hm : m = .charge
      · right
        left
        simp [FleetCore.modeOf, hr, hm]
      · exact absurd hr ((away hm).1 t ht)
    · rcases hmodes t.robot with hsame | ⟨-, hseen⟩
      · exact .inl hsame
      · exact .inr (.inr hseen)
  · exact .inl (h.mode_other hr)

/-- Only a state message moves a robot, and only `on_set_battery` changes its battery: it clamps
what it gets. -/
theorem readings (h : Effect c a robot s s') (k : String) :
    (∃ msg, a = .call (.robotState msg) ∧ msg.name = k ∧
      (s'.robot k).battery = (s.robot k).battery) ∨
    (s'.robot k).x = (s.robot k).x ∧ (s'.robot k).y = (s.robot k).y ∧
      ((s'.robot k).battery = (s.robot k).battery ∨
        0 ≤ (s'.robot k).battery ∧ (s'.robot k).battery ≤ 100) := by
  have written (q : String) (r : RobotInfo R) (hx : r.x = (s.robot q).x)
      (hy : r.y = (s.robot q).y)
      (hb : r.battery = (s.robot q).battery ∨ 0 ≤ r.battery ∧ r.battery ≤ 100) :
      ((s.robots.insert q r).getD k .new).x = (s.robot k).x ∧
        ((s.robots.insert q r).getD k .new).y = (s.robot k).y ∧
        (((s.robots.insert q r).getD k .new).battery = (s.robot k).battery ∨
          0 ≤ ((s.robots.insert q r).getD k .new).battery ∧
            ((s.robots.insert q r).getD k .new).battery ≤ 100) := by
    rw [ExtTreeMap.getD_insert]
    split
    · rename_i heq
      obtain rfl := compare_eq_iff_eq.mp heq
      exact ⟨hx, hy, hb⟩
    · exact ⟨rfl, rfl, .inl rfl⟩
  cases h with
  | sighting msg called =>
    by_cases hk : msg.name = k
    · refine .inl ⟨msg, called, hk, ?_⟩
      simp [FleetNode.onRobotState, FleetCore.robot, hk]
    · right
      simp [FleetNode.onRobotState, FleetCore.robot, ExtTreeMap.getD_insert, hk]
  | battery req =>
    refine .inr (written _ _ rfl rfl (.inr ?_))
    dsimp only
    split_ifs with hlow hhigh
    · exact ⟨le_refl 0, by norm_num⟩
    · exact ⟨by norm_num, le_refl 100⟩
    · exact ⟨not_lt.mp hlow, not_lt.mp hhigh⟩
  | touch | look =>
    have hsame (q : String) := FleetNode.robot_touch s.toFleetCore q k
    exact .inr ⟨congrArg RobotInfo.x (hsame _), congrArg RobotInfo.y (hsame _),
      .inl (congrArg RobotInfo.battery (hsame _))⟩
  | cancel =>
    right
    simp only [FleetCore.robot, ExtTreeMap.getD_eq_getD_getElem?, FleetNode.cancelTask_robots]
    split
    · cases s.robots[k]? <;> exact ⟨rfl, rfl, .inl rfl⟩
    · exact ⟨rfl, rfl, .inl rfl⟩
  | dispatch | patrol | fail | complete => exact .inr (written _ _ rfl rfl (.inl rfl))
  | mode | reload | vacate | stopClaim | publish | swap | pass | lap | drive | grant | hold
  | reroute => exact .inr ⟨rfl, rfl, .inl rfl⟩

end Effect

/-- The call is about the mode or the battery of the robot. -/
def Action.sets (robot : String) : Action R → Bool
  | .call (.setMode req) => req.robot = robot
  | .call (.setBattery req) => req.robot = robot
  | _ => false

/-- The step cancels the task of the robot, or sets its mode or its battery. -/
def Conf.Disturbs (robot : String) (c : Conf R) (a : Action R) : Prop :=
  c.cancels a = some robot ∨ a.sets robot = true

instance (robot : String) (c : Conf R) (a : Action R) : Decidable (c.Disturbs robot a) :=
  inferInstanceAs (Decidable (_ ∨ _))

end LibiFleet
