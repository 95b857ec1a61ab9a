import LibiFleet.Deadlock

/-!
# The priority ladder

The plugin decides by the priorities of the last requests. A robot that waits has a
task, and its rung has not come down since its last request: what takes a robot
down also takes its edge out of the wait-for graph.
-/

namespace LibiFleet

open Std (ExtTreeMap)

/-- The priority of a tier, an age and a battery term. -/
def priorityOf (tier age batt : Int) : Int := tier * kTierStep + age * kAgeStep + batt

/-- The rung of a priority: its tier, then its age. -/
def rung (tier age : Int) : Int ×ₗ Int := toLex (tier, age)

/-- The steps are wide enough: a higher priority is never on a lower rung. -/
theorem rung_le_of_priority_le {tier tier' age age' batt batt' : Int} (hage : 0 ≤ age)
    (hage' : age' ≤ kSeqMax) (hbatt : 0 ≤ batt) (hbatt' : batt' ≤ 100)
    (h : priorityOf tier age batt ≤ priorityOf tier' age' batt') :
    rung tier age ≤ rung tier' age' := by
  simp only [priorityOf, kTierStep, kAgeStep, kSeqMax] at h hage'
  refine Prod.Lex.toLex_le_toLex.mpr ?_
  rcases lt_trichotomy tier tier' with hlt | heq | hgt
  · exact .inl hlt
  · subst heq
    exact .inr ⟨rfl, by dsimp only; omega⟩
  · omega

theorem rung_mono {tier tier' : Int} (age : Int) (h : tier ≤ tier') :
    rung tier age ≤ rung tier' age := by
  refine Prod.Lex.toLex_le_toLex.mpr ?_
  rcases lt_or_eq_of_le h with hlt | heq
  · exact .inl hlt
  · exact .inr ⟨heq, le_refl age⟩

variable {R : Type}

namespace FleetCore

theorem age_nonneg (t : ActiveTask R) : 0 ≤ age t := by
  unfold age
  split <;> omega

theorem age_le (t : ActiveTask R) : age t ≤ kSeqMax := by
  unfold age
  split <;> simp [kSeqMax]

theorem age_eq (t : ActiveTask R) : age t = kSeqMax - min (t.startSeq : Int) kSeqMax := by
  unfold age
  split <;> omega

/-- Where a task stands on the ladder: escalated above charging, above dispatched, above on patrol,
and the older of two tasks above the younger. -/
def standing (s : FleetCore R) (t : ActiveTask R) : Int ×ₗ Int :=
  toLex (if t.stuck then 3 else if s.modeOf t.robot = .charge then 2 else if t.patrol then 0 else 1,
    kSeqMax - min (t.startSeq : Int) kSeqMax)

theorem standing_eq (s : FleetCore R) (t : ActiveTask R) :
    s.standing t = rung (s.tier t.robot t) (age t) := by
  rw [age_eq]
  rfl

/-- CHARGE is above the modes of a robot that drives. -/
theorem tier_le {s s' : FleetCore R} {robot : String} {t t' : ActiveTask R}
    (stuck : t'.stuck = t.stuck) (patrol : t'.patrol = t.patrol)
    (mode : s.modeOf robot = .charge → s'.modeOf robot = .charge) :
    s.tier robot t ≤ s'.tier robot t' := by
  unfold tier
  rw [stuck, patrol]
  by_cases hs : t.stuck = true
  · simp [hs]
  · by_cases hm : s.modeOf robot = .charge
    · simp [hs, hm, mode hm]
    · by_cases hm' : s'.modeOf robot = .charge
      · simp only [hs, hm, hm', if_true, if_false, Bool.false_eq_true]
        split <;> omega
      · simp [hs, hm, hm']

variable [Double R]

theorem batteryTerm_nonneg (s : FleetCore R) (robot : String) : 0 ≤ s.batteryTerm robot := by
  unfold batteryTerm
  dsimp only
  split_ifs <;> omega

theorem batteryTerm_le (s : FleetCore R) (robot : String) : s.batteryTerm robot ≤ 100 := by
  unfold batteryTerm
  dsimp only
  split_ifs <;> omega

theorem computePriority_eq (s : FleetCore R) (robot : String) (t : ActiveTask R) :
    s.computePriority robot t = priorityOf (s.tier robot t) (age t) (s.batteryTerm robot) := rfl

end FleetCore

variable [Double R]

/-- The plugin has the priority of a waiting robot from a tier that is not above the present one. -/
def Ranked (s : FleetNode R) : Prop := ∀ q b, s.traffic.waits q = some b →
  ∃ t ∈ s.tasks, t.robot = q ∧ ∃ tier batt, tier ≤ s.tier q t ∧ 0 ≤ batt ∧ batt ≤ 100 ∧
    prioOf s.traffic.prio q = priorityOf tier (FleetCore.age t) batt

section

variable {s s' : FleetNode R} {c : Conf R} {a : Action R} {robot : String}

namespace Effect

/-- No robot that has a task leaves CHARGE. -/
theorem keeps_charge (h : Effect c a robot s s') {t : ActiveTask R} (ht : t ∈ s.tasks)
    (hmode : s.modeOf t.robot = .charge) : s'.modeOf t.robot = .charge := by
  rcases h.mode_tasked ht with hsame | hcharge | ⟨hidle, -⟩
  · exact hsame.trans hmode
  · exact hcharge
  · rw [hmode] at hidle
    cases hidle

theorem ranked_self (h : Effect c a robot s s') (hw : Wellformed s) (hw' : Wellformed s')
    (steady : a.With Callback.Steady) (hs : Ranked s) {b : String}
    (hb : s'.traffic.waits robot = some b) :
    ∃ t ∈ s'.tasks, t.robot = robot ∧ ∃ tier batt, tier ≤ s'.tier robot t ∧ 0 ≤ batt ∧ batt ≤ 100 ∧
      prioOf s'.traffic.prio robot = priorityOf tier (FleetCore.age t) batt := by
  have hage {t t' : ActiveTask R} (h : t.Alike t') : FleetCore.age t' = FleetCore.age t := by
    rw [FleetCore.age, FleetCore.age, h.startSeq]
  cases h.waited hw hw' steady hb with
  | before traffic tasks =>
    obtain ⟨t, ht, rfl, tier, batt, htier, hbatt, hbatt', hprio⟩ := hs _ _ (traffic ▸ hb)
    obtain ⟨t', ht', alike, -⟩ := tasks t ht rfl
    refine ⟨t', ht', alike.robot, tier, batt, htier.trans ?_, hbatt, hbatt', ?_⟩
    · exact FleetCore.tier_le alike.stuck alike.patrol (h.keeps_charge ht)
    · rw [traffic, hage alike, hprio]
  | @now t t' rest own head _ _ _ traffic modes tasks alike =>
    subst own
    refine ⟨t', by simp [tasks], alike.robot, s.tier t.robot t, s.batteryTerm t.robot, ?_,
      s.batteryTerm_nonneg _, s.batteryTerm_le _, ?_⟩
    · exact FleetCore.tier_le alike.stuck alike.patrol fun hm => by
        rwa [FleetCore.modeOf, modes]
    · rw [traffic, hage alike, ← FleetCore.computePriority_eq]
      exact (ReservationDeadlock.requestMove_prio _).trans (if_pos rfl)

theorem ranked (h : Effect c a robot s s') (hw : Wellformed s) (hw' : Wellformed s')
    (steady : a.With Callback.Steady) (hs : Ranked s) : Ranked s' := by
  intro q b hb
  by_cases hq : q = robot
  · subst hq
    exact h.ranked_self hw hw' steady hs hb
  rw [h.waits_other steady hq] at hb
  obtain ⟨t, ht, rfl, tier, batt, htier, hbatt, hbatt', hprio⟩ := hs q b hb
  refine ⟨t, (h.tasks_other hw.ledger hq).mpr ht, rfl, tier, batt, htier.trans ?_, hbatt, hbatt',
    ?_⟩
  · exact FleetCore.tier_le rfl rfl (h.keeps_charge ht)
  · rw [h.prio_other steady hq, hprio]

end Effect

theorem reach_ranked {p : Setup R} (hc : (ticks p).Reach (fun _ a => a.With Callback.Plain) c) :
    Ranked c.node := by
  refine reach_keeps (fun _ _ h => h) (P := Ranked) ?_ ?_ hc
  · intro q b hb
    simp [FleetNode.start, ReservationDeadlock.waits] at hb
  · exact fun c a robot s s' ok he hw hw' hs => he.ranked hw hw' ok.steady hs

/-- The robot that is told to yield stands lowest of its cycle. -/
theorem yields_on_lowest_rung {p : Setup R} {s : FleetCore R} {kept todo : List (ActiveTask R)}
    {t : ActiveTask R}
    (hc : (ticks p).Reach (fun _ a => a.With Callback.Plain) (.asking s kept t todo))
    (dead : (s.ask t).1 = .deadlock) : ∀ q ∈ s.cycle t, q ≠ t.robot →
      ∃ u ∈ t :: (todo ++ kept), u.robot = q ∧ s.standing t ≤ s.standing u := by
  have hw := reach_wellformed (fun _ _ h => h) hc
  obtain ⟨o, -, ring, lowest⟩ := FleetCore.cycle_spec (s := s) (t := t) hw.named dead
  intro q hq hne
  obtain ⟨b, -, hb⟩ := ring.image hq
  rw [if_neg hne] at hb
  obtain ⟨u, hu, hr, tier, batt, htier, -, hbatt, hprio⟩ := reach_ranked hc q b hb
  refine ⟨u, hu, hr, ?_⟩
  rw [FleetCore.standing_eq, FleetCore.standing_eq, hr]
  refine le_trans ?_ (rung_mono _ htier)
  have hlower := (lowestPriority_eq_iff ring.mem).mp lowest q hq hne
  have hle : s.computePriority t.robot t ≤ prioOf s.traffic.prio q := by
    rcases hlower with hlt | ⟨heq, -⟩
    · simpa [prioOf, ExtTreeMap.getD_insert, Ne.symm hne] using hlt.le
    · simpa [prioOf, ExtTreeMap.getD_insert, Ne.symm hne] using heq.le
  rw [show prioOf s.traffic.prio q = _ from hprio, FleetCore.computePriority_eq] at hle
  exact rung_le_of_priority_le (FleetCore.age_nonneg t) (FleetCore.age_le u)
    (s.batteryTerm_nonneg _) hbatt hle

end

/-- Two robots that face each other, one of them on CHARGE: the other has to yield. -/
theorem yields_on_lowest_rung_charge : ∃ (s : FleetCore ℚ) (kept : _) (t : _) (todo : _),
    (ticks (Yard.setup false [])).Reach (fun _ a => a.With Callback.Plain) (.asking s kept t todo) ∧
    (s.ask t).1 = .deadlock ∧ t.robot = "r1" ∧ s.modeOf "r2" = .charge ∧
    ∃ u ∈ t :: (todo ++ kept), u.robot = "r2" ∧ s.standing t ≤ s.standing u := by
  obtain ⟨s, kept, t, todo, hc, hp⟩ := exists_asking (Yard.setup false [])
    (fun _ a => a.With Callback.Plain)
    (fun s _ t _ => decide ((s.ask t).1 = .deadlock ∧ t.robot = "r1" ∧
      s.modeOf "r2" = .charge ∧ "r2" ∈ s.cycle t))
    ([.call (Yard.seen "r1" 0 0), .call (Yard.seen "r2" 10 0), .call (Yard.send "r1" "1"),
      .call (Yard.send "r2" "0"), .call (Yard.mode "r2" "CHARGE")] ++ Yard.taken .timer 6 ++
      Yard.taken .timer 2)
    (by decide +kernel)
  obtain ⟨dead, hrobot, hmode, hmem⟩ := of_decide_eq_true hp
  exact ⟨s, kept, t, todo, hc, dead, hrobot, hmode,
    yields_on_lowest_rung hc dead "r2" hmem (by rw [hrobot]; decide)⟩

end LibiFleet
