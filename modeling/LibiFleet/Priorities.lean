import LibiFleet.Ladder

/-!
# The encoding of priorities

`compute_priority` packs a tier, an age and a battery term into one `int`. The steps are wide
enough for the numbers to be in the order of their three parts, and narrow enough for an `int`.
-/

namespace LibiFleet

open Std (ExtTreeMap)

/-- An age and a battery term as they occur. -/
structure InSteps (age batt : Int) : Prop where
  age_nonneg : 0 ≤ age
  age_le : age ≤ kSeqMax
  batt_nonneg : 0 ≤ batt
  batt_le : batt ≤ 100

/-- The two lower parts stay below the step of the tiers. -/
theorem InSteps.low {age batt : Int} (h : InSteps age batt) :
    0 ≤ age * kAgeStep + batt ∧ age * kAgeStep + batt < kTierStep := by
  obtain ⟨hage, hage', hbatt, hbatt'⟩ := h
  simp only [kAgeStep, kTierStep, kSeqMax] at hage' ⊢
  omega

/-- The tier decides, then the age, then the battery. -/
theorem priorityOf_lt_iff {tier tier' age age' batt batt' : Int} (h : InSteps age batt)
    (h' : InSteps age' batt') : priorityOf tier age batt < priorityOf tier' age' batt' ↔
      toLex (tier, toLex (age, batt)) < toLex (tier', toLex (age', batt')) := by
  have hstep : (100 : Int) < kAgeStep := by decide
  have hlow : age * kAgeStep + batt < age' * kAgeStep + batt' ↔
      toLex (age, batt) < toLex (age', batt') :=
    packed_lt_iff h.batt_nonneg (h.batt_le.trans_lt hstep) h'.batt_nonneg
      (h'.batt_le.trans_lt hstep)
  have hpacked : tier * kTierStep + (age * kAgeStep + batt) <
      tier' * kTierStep + (age' * kAgeStep + batt') ↔
      toLex (tier, age * kAgeStep + batt) < toLex (tier', age' * kAgeStep + batt') :=
    packed_lt_iff h.low.1 h.low.2 h'.low.1 h'.low.2
  rw [priorityOf, priorityOf, Int.add_assoc, Int.add_assoc, hpacked, Prod.Lex.toLex_lt_toLex,
    Prod.Lex.toLex_lt_toLex, hlow]

variable {R : Type}

namespace FleetCore

theorem tier_nonneg (s : FleetCore R) (robot : String) (t : ActiveTask R) :
    0 ≤ s.tier robot t := by
  unfold tier
  split_ifs <;> omega

theorem tier_le_three (s : FleetCore R) (robot : String) (t : ActiveTask R) :
    s.tier robot t ≤ 3 := by
  unfold tier
  split_ifs <;> omega

variable [Double R]

/-- The battery of the robot is what `on_set_battery` makes of a number. -/
def Charged (s : FleetCore R) (robot : String) : Prop :=
  0 ≤ s.batteryOf robot ∧ s.batteryOf robot ≤ 100

theorem inSteps (s : FleetCore R) (robot : String) (t : ActiveTask R) :
    InSteps (age t) (s.batteryTerm robot) :=
  ⟨age_nonneg t, age_le t, s.batteryTerm_nonneg robot, s.batteryTerm_le robot⟩

/-- The parts of the priority, the one that decides first. -/
def parts (s : FleetCore R) (robot : String) (t : ActiveTask R) : Int ×ₗ Int ×ₗ Int :=
  toLex (s.tier robot t, toLex (kSeqMax - min (t.startSeq : Int) kSeqMax,
    100 - lround (s.batteryOf robot)))

/-- What `compute_priority` computes, one number after the other. -/
def priorityValues (s : FleetCore R) (robot : String) (t : ActiveTask R) : List Int :=
  let tier := s.tier robot t
  let seq := if (t.startSeq : Int) < kSeqMax then (t.startSeq : Int) else kSeqMax
  let age := kSeqMax - seq
  let rounded := lround (s.batteryOf robot)
  let bi := if rounded < 0 then 0 else if 100 < rounded then 100 else rounded
  let batt := 100 - bi
  [tier, seq, age, rounded, bi, batt, tier * kTierStep, age * kAgeStep,
    tier * kTierStep + age * kAgeStep, tier * kTierStep + age * kAgeStep + batt]

section

variable {s : FleetCore R} {robot : String}

theorem Charged.rounded (h : s.Charged robot) :
    0 ≤ lround (s.batteryOf robot) ∧ lround (s.batteryOf robot) ≤ 100 := by
  refine ⟨lround_nonneg h.1, lround_le h.1 ?_⟩
  rw [Int.cast_ofNat]
  exact h.2

theorem Charged.batteryTerm (h : s.Charged robot) :
    s.batteryTerm robot = 100 - lround (s.batteryOf robot) := by
  obtain ⟨hlow, hhigh⟩ := h.rounded
  unfold FleetCore.batteryTerm
  dsimp only
  split_ifs <;> omega

theorem Charged.parts_eq (h : s.Charged robot) (t : ActiveTask R) :
    s.parts robot t = toLex (s.tier robot t, toLex (age t, s.batteryTerm robot)) := by
  rw [parts, age_eq, h.batteryTerm]

/-- No number on the way to the priority leaves the range of the priorities. -/
theorem Charged.values (h : s.Charged robot) (t : ActiveTask R) :
    ∀ v ∈ s.priorityValues robot t, 0 ≤ v ∧ v < kStopPrio := by
  have htier := s.tier_nonneg robot t
  have htier' := s.tier_le_three robot t
  obtain ⟨hlow, hhigh⟩ := h.rounded
  unfold priorityValues
  generalize s.tier robot t = tier at *
  generalize lround (s.batteryOf robot) = rounded at *
  simp only [kTierStep, kAgeStep, kSeqMax, kStopPrio, List.forall_mem_cons, List.not_mem_nil,
    false_implies, implies_true, and_true]
  split_ifs <;> omega

end

theorem batteryOf_eq (s : FleetCore R) (robot : String) :
    s.batteryOf robot = (s.robot robot).battery := by
  rw [FleetCore.robot, ExtTreeMap.getD_eq_getD_getElem?]
  unfold batteryOf
  cases s.robots[robot]? <;> rfl

theorem charged_iff {s : FleetCore R} {robot : String} :
    s.Charged robot ↔ 0 ≤ (s.robot robot).battery ∧ (s.robot robot).battery ≤ 100 := by
  rw [Charged, batteryOf_eq]

end FleetCore

variable [Double R] {p : Setup R} {c : Conf R} {a : Action R} {robot : String}
  {s s' : FleetNode R}

theorem Effect.charged (h : Effect c a robot s s') {k : String} (hs : s.Charged k) :
    s'.Charged k := by
  rw [FleetCore.charged_iff] at hs ⊢
  rcases h.readings k with ⟨-, -, -, hsame⟩ | ⟨-, -, hsame | clamped⟩
  · rwa [hsame]
  · rwa [hsame]
  · exact clamped

/-- In every run all batteries are between 0 and 100. -/
theorem reach_charged {ok : Conf R → Action R → Prop} (hc : (ticks p).Reach ok c) (k : String) :
    c.node.Charged k := by
  refine (hc.assuming fun _ => reach_sound).invariant (P := fun c => c.node.Charged k) ?_ ?_
  · rw [FleetCore.charged_iff]
    simp [ticks, Conf.node, FleetNode.start, FleetCore.robot, RobotInfo.new]
  · intro c a c' ok hstep hs
    exact (step_effects ok.2 hstep).keeps (P := fun s => s.Charged k)
      (fun _ _ _ he hs => he.charged hs) hs

/-- For robots with batteries as they occur, a priority is lower than another exactly if its parts
come before those of the other. It fits into an `int`, with every number on the way to it, and is
below the priority of an obstacle. -/
theorem priority_exact {s s' : FleetCore R} {robot robot' : String} (charged : s.Charged robot)
    (charged' : s'.Charged robot') (t t' : ActiveTask R) :
    (s.computePriority robot t < s'.computePriority robot' t' ↔
      s.parts robot t < s'.parts robot' t') ∧
    (s.priorityValues robot t).getLast? = some (s.computePriority robot t) ∧
    (∀ v ∈ s.priorityValues robot t, 0 ≤ v ∧ v < kStopPrio) ∧ kStopPrio < 2 ^ 31 := by
  refine ⟨?_, rfl, charged.values t, by decide⟩
  rw [charged.parts_eq, charged'.parts_eq, FleetCore.computePriority_eq,
    FleetCore.computePriority_eq]
  exact priorityOf_lt_iff (s.inSteps robot t) (s'.inSteps robot' t')

/-- An older task comes first, even where the robot of the younger one has an empty battery. -/
theorem priority_exact_age : ∃ s : FleetNode ℚ, (fleet (Yard.setup false [])).Reach
    (fun _ _ => True) s ∧ ∃ t ∈ s.tasks, ∃ t' ∈ s.tasks, t.startSeq < t'.startSeq ∧
      s.batteryOf t.robot = 100 ∧ s.batteryOf t'.robot = 0 ∧
      s.computePriority t'.robot t' < s.computePriority t.robot t := by
  obtain ⟨s, hs, hp⟩ := (fleet (Yard.setup false [])).exists_reach (fun _ _ => True)
    (fun s => decide (∃ t ∈ s.tasks, ∃ t' ∈ s.tasks, t.startSeq = 1 ∧ t'.startSeq = 2 ∧
      s.tier t'.robot t' = s.tier t.robot t ∧ s.batteryOf t.robot = 100 ∧
      s.batteryOf t'.robot = 0))
    [Yard.seen "r1" 0 0, Yard.seen "r2" 20 0, Yard.send "r1" "1", Yard.send "r2" "1",
      .setBattery ⟨"r1", 120⟩, .setBattery ⟨"r2", -1⟩] (by decide +kernel)
  obtain ⟨t, ht, t', ht', first, second, tiers, full, empty⟩ := of_decide_eq_true hp
  have charged := reach_charged (reach_ticks hs)
  have hparts : s.parts t'.robot t' < s.parts t.robot t := by
    rw [FleetCore.parts, FleetCore.parts, tiers, first, second, Prod.Lex.toLex_lt_toLex,
      Prod.Lex.toLex_lt_toLex]
    have younger : kSeqMax - min 2 kSeqMax < kSeqMax - min 1 kSeqMax := by decide
    exact .inr ⟨rfl, .inl younger⟩
  refine ⟨s, hs, t, ht, t', ht', by omega, full, empty, ?_⟩
  exact (priority_exact (charged t'.robot) (charged t.robot) t' t).1.mpr hparts

end LibiFleet
