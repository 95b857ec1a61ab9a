import LibiFleet.Driving

/-!
# Only real deadlocks

A robot that is told to yield is on a cycle of robots that stand still, each before
a node of the next, in the runs in which nobody takes a detour after a long WAIT.
Such a detour leaves an edge of the wait-for graph behind.
-/

namespace LibiFleet

open Std (ExtTreeMap)

variable {R : Type}

/-- The robots of the queue before `robot`. -/
def ahead (tasks : List (ActiveTask R)) (robot : String) : List String :=
  (tasks.map (·.robot)).takeWhile (· ≠ robot)

section Ahead

variable {tasks tasks' : List (ActiveTask R)} {t : ActiveTask R} {robot r b : String}

@[simp] theorem ahead_cons_self : ahead (t :: tasks) t.robot = [] := by simp [ahead]

theorem not_ahead_head (h : t.robot = r) : b ∉ ahead (t :: tasks) r := by
  subst h
  simp

theorem ahead_cons (h : t.robot ≠ r) : ahead (t :: tasks) r = t.robot :: ahead tasks r := by
  simp [ahead, h]

theorem mem_of_ahead (h : b ∈ ahead tasks r) : ∃ t ∈ tasks, t.robot = b :=
  List.mem_map.mp ((List.takeWhile_prefix _).subset h)

/-- Who joins the queue comes after those who are in it. -/
theorem ahead_append (h : ∃ t ∈ tasks, t.robot = r) :
    ahead (tasks ++ tasks') r = ahead tasks r := by
  induction tasks with
  | nil =>
    obtain ⟨t, ht, -⟩ := h
    cases ht
  | cons u tasks ih =>
    by_cases hu : u.robot = r
    · subst hu
      simp
    · rw [List.cons_append, ahead_cons hu, ahead_cons hu, ih]
      obtain ⟨t, ht, hr⟩ := h
      exact ⟨t, (List.mem_cons.mp ht).resolve_left fun he => hu (he ▸ hr), hr⟩

theorem ahead_filter (hr : r ≠ robot) (hb : b ∈ ahead (tasks.filter (·.robot ≠ robot)) r) :
    b ∈ ahead tasks r := by
  induction tasks with
  | nil => exact hb
  | cons u tasks ih =>
    by_cases hu : u.robot = r
    · subst hu
      simp [hr] at hb
    · rw [ahead_cons hu]
      by_cases hq : u.robot = robot
      · exact List.mem_cons_of_mem _ (ih (by simpa [hq] using hb))
      · rw [List.filter_cons_of_pos (by simpa using hq), ahead_cons hu] at hb
        exact (List.mem_cons.mp hb).elim (fun h => h ▸ List.mem_cons_self)
          fun h => List.mem_cons_of_mem _ (ih h)

/-- Two robots that do nothing keep their order. -/
theorem Queued.ahead (h : Queued robot tasks tasks') (hr : r ≠ robot)
    (hmem : ∃ t ∈ tasks, t.robot = r) (hb : b ≠ robot) (hahead : b ∈ ahead tasks' r) :
    b ∈ LibiFleet.ahead tasks r := by
  -- the robot at the head comes before `r`
  have rest {t : ActiveTask R} {l : List (ActiveTask R)} (ht : t.robot = robot)
      (hmem : ∃ u ∈ t :: l, u.robot = r) : ∃ u ∈ l, u.robot = r := by
    obtain ⟨u, hu, hur⟩ := hmem
    exact ⟨u, (List.mem_cons.mp hu).resolve_left fun he => hr (by rw [← hur, he, ht]), hur⟩
  cases h with
  | same => exact hahead
  | quit => exact ahead_filter hr hahead
  | join => rwa [ahead_append hmem] at hahead
  | leave ht =>
    rw [ahead_cons (by rwa [ht, ne_comm])]
    exact List.mem_cons_of_mem _ hahead
  | change ht ht' =>
    rw [ahead_cons (by rwa [ht', ne_comm])] at hahead
    rw [ahead_cons (by rwa [ht, ne_comm])]
    exact List.mem_cons_of_mem _ ((List.mem_cons.mp hahead).resolve_left fun he => hb (he ▸ ht'))
  | turn ht ht' =>
    rw [ahead_append (rest ht hmem)] at hahead
    rw [ahead_cons (by rwa [ht, ne_comm])]
    exact List.mem_cons_of_mem _ hahead

end Ahead

variable [Double R]

/-- `b` waits for nobody and comes after `r` in the queue. -/
def Behind (s : FleetNode R) (b r : String) : Prop :=
  s.traffic.waits b = none ∧ b ∉ ahead s.tasks r

/-- A robot that waits stands before a node of the robot it waits for, or before one that this robot
has left, which then makes no request before the waiting robot does. -/
def Honest (s : FleetNode R) : Prop := ∀ r b, s.traffic.waits r = some b →
  ∃ t ∈ s.tasks, t.robot = r ∧ t.moving = false ∧
    (s.traffic.owner t.next = some b ∨ Behind s b r)

/-- What the timer keeps of a task whose robot waits. -/
structure ActiveTask.Alike (t t' : ActiveTask R) : Prop where
  robot : t'.robot = t.robot
  moving : t'.moving = t.moving
  patrol : t'.patrol = t.patrol
  stuck : t'.stuck = t.stuck
  startSeq : t'.startSeq = t.startSeq

/-- How `robot` comes to wait for `b` in an effect of its own: it did before, or has just asked. -/
inductive Waited (c : Conf R) (robot b : String) (s s' : FleetNode R) : Prop
  | before (traffic : s'.traffic = s.traffic)
      (tasks : ∀ t ∈ s.tasks, t.robot = robot → ∃ t' ∈ s'.tasks, t.Alike t' ∧ t'.next = t.next)
      (order : b ∉ ahead s.tasks robot → b ∉ ahead s'.tasks robot)
  | now {t t' rest} (own : t.robot = robot) (head : s.tasks = t :: rest) (still : t.moving = false)
      (told : (s.ask t).1 = .wait) (owned : s.traffic.owner t.next = some b)
      (traffic : s'.traffic = (s.ask t).2.traffic) (modes : s'.robotMode = s.robotMode)
      (tasks : s'.tasks = rest ++ [t']) (alike : t.Alike t')
      (way : t'.next = t.next ∨ (s.ask t).2.blockedByStopped t.next = true ∨ c.TimedReroute)

/-- The runs in which no WAIT lasts until a detour is taken. -/
structure Untimed (c : Conf R) (a : Action R) : Prop where
  plain : a.With Callback.Plain
  untimed : ¬ c.TimedReroute

instance (c : Conf R) (a : Action R) : Decidable (Untimed c a) :=
  decidable_of_iff (a.With Callback.Plain ∧ ¬ c.TimedReroute)
    ⟨fun h => ⟨h.1, h.2⟩, fun h => ⟨h.plain, h.untimed⟩⟩

section

variable {s s' : FleetNode R} {c : Conf R} {a : Action R} {robot r b : String}

omit [Double R] in
theorem FleetCore.blockedByStopped_iff {s : FleetCore R} {v : Int} :
    s.blockedByStopped v = true ↔ ∃ o, s.traffic.owner v = some o ∧ s.modeOf o = .stop := by
  simp [blockedByStopped, ReservationDeadlock.occupancy, ReservationDeadlock.owner,
    ExtTreeMap.mem_toList_iff_getElem?_eq_some]

theorem Wellformed.behind (hw : Wellformed s) (jobless : ∀ t ∈ s.tasks, t.robot ≠ b) (r : String) :
    Behind s b r := by
  constructor
  · cases hb : s.traffic.waits b with
    | none => rfl
    | some d => exact absurd hb (hw.jobless_waits jobless d)
  · intro h
    obtain ⟨t, ht, hr⟩ := mem_of_ahead h
    exact absurd hr (jobless t ht)

omit [Double R] in
/-- After a turn of `b` the others come before it. -/
theorem not_ahead_turn {t t' : ActiveTask R} {rest : List (ActiveTask R)}
    (once : ((t :: rest).map (·.robot)).Nodup) (hr : r ≠ t.robot)
    (hmem : ∃ u ∈ t :: rest, u.robot = r) : t.robot ∉ ahead (rest ++ [t']) r := by
  obtain ⟨u, hu, hur⟩ := hmem
  rw [ahead_append ⟨u, (List.mem_cons.mp hu).resolve_left fun he => hr (by rw [← hur, he]), hur⟩]
  intro h
  obtain ⟨v, hv, hvr⟩ := mem_of_ahead h
  rw [List.map_cons, List.nodup_cons] at once
  exact once.1 (hvr ▸ List.mem_map_of_mem hv)

namespace Effect

/-- A robot keeps its nodes, or it makes no request before the others do. -/
theorem keeps_or_behind (h : Effect c a b s s') (hw : Wellformed s) (hw' : Wellformed s')
    (steady : a.With Callback.Steady) (hr : r ≠ b) (hmem : ∃ t ∈ s.tasks, t.robot = r) {v : Int}
    (hv : s.traffic.owner v = some b) (hb : b ≠ "") :
    s'.traffic.owner v = some b ∨ Behind s' b r := by
  -- a robot whose task has left the queue
  have gone {t : ActiveTask R} {rest : List (ActiveTask R)} (head : s.tasks = t :: rest)
      (htasks : s'.tasks = rest) : Behind s' t.robot r := by
    apply hw'.behind
    intro u hu
    exact hw.ledger.robot_ne_head head (htasks ▸ hu)
  cases h with
  | sighting | battery | touch | mode | reload | look | pass | lap | drive | publish =>
    exact .inl hv
  | cancel => exact .inr (hw'.behind (fun t ht => (FleetNode.mem_cancelTask.mp ht).2) r)
  | vacate _ jobless => exact .inr (hw'.behind jobless r)
  | stopClaim | dispatch | patrol | reroute | hold =>
    exact .inl (ReservationDeadlock.requestMove_kept hv hb ..)
  | fail head => exact .inr (gone head rfl)
  | complete head => exact .inr (gone head rfl)
  | @grant _ t rest _ _ head _ granted =>
    right
    constructor
    · exact departed_waits hw.named granted
    · exact not_ahead_turn (head ▸ hw.once) hr (head ▸ hmem)
  | swap _ _ _ _ called => exact (steady.not_swap called).elim

/-- A robot that waits for nobody and comes later stays so. -/
theorem behind_self (h : Effect c a b s s') (hw : Wellformed s) (hw' : Wellformed s')
    (steady : a.With Callback.Steady) (hr : r ≠ b) (hmem : ∃ t ∈ s.tasks, t.robot = r)
    (hb : Behind s b r) : Behind s' b r := by
  obtain ⟨hwaits, hahead⟩ := hb
  -- it is not its turn
  have turn {t : ActiveTask R} {rest : List (ActiveTask R)} (head : s.tasks = t :: rest)
      (ht : t.robot = b) : False := by
    rw [head, ahead_cons (by rwa [ht, ne_comm]), ht] at hahead
    exact hahead List.mem_cons_self
  have claim {v p : Int} : (s.traffic.requestMove b v v p).2.waits b = none := by
    cases hd : (s.traffic.requestMove b v v p).2.waits b with
    | none => rfl
    | some d =>
      rw [ReservationDeadlock.claim_waits hw.named hd] at hwaits
      cases hwaits
  cases h with
  | sighting | battery | touch | mode | reload | publish => exact ⟨hwaits, hahead⟩
  | cancel => exact hw'.behind (fun t ht => (FleetNode.mem_cancelTask.mp ht).2) r
  | vacate _ jobless => exact hw'.behind jobless r
  | stopClaim => exact ⟨claim, hahead⟩
  | dispatch | patrol =>
    refine ⟨claim, ?_⟩
    rwa [FleetNode.enlist_tasks, ahead_append hmem]
  | look head | pass head | lap _ head | drive head | grant _ head | reroute _ _ _ head
  | hold _ _ _ _ head | fail head | complete head => exact (turn head rfl).elim
  | swap _ _ _ _ called => exact (steady.not_swap called).elim

theorem waited (h : Effect c a robot s s') (hw : Wellformed s) (hw' : Wellformed s')
    (steady : a.With Callback.Steady) (hb : s'.traffic.waits robot = some b) :
    Waited c robot b s s' := by
  have hwait := hw'.waiting robot b hb
  have claim {v p : Int} (jobless : ∀ t ∈ s.tasks, t.robot ≠ robot)
      (hb : (s.traffic.requestMove robot v v p).2.waits robot = some b) : False :=
    hw.jobless_waits jobless b (ReservationDeadlock.claim_waits hw.named hb)
  -- a robot that has asked waits for the owner of its next node
  have asked {t : ActiveTask R} {rest : List (ActiveTask R)} (head : s.tasks = t :: rest)
      (hb : (s.ask t).2.traffic.waits t.robot = some b) :
      (s.ask t).1 = .wait ∧ s.traffic.owner t.next = some b := by
    obtain ⟨hwait, ⟨hclaim, hb⟩ | ⟨-, howner, -⟩⟩ :=
      ReservationDeadlock.requestMove_waits_self hw.named hb
    · obtain ⟨u, hu, hr, -, hne⟩ := hw.waiting _ _ hb
      rw [hw.ledger.eq_head head hu hr] at hne
      exact absurd hclaim hne
    · exact ⟨hwait, howner⟩
  cases h with
  | sighting | battery | touch | mode | reload | publish =>
    exact .before rfl (fun t ht _ => ⟨t, ht, ⟨rfl, rfl, rfl, rfl, rfl⟩, rfl⟩) id
  | cancel =>
    obtain ⟨t, ht, hr, -⟩ := hwait
    exact absurd hr (FleetNode.mem_cancelTask.mp ht).2
  | vacate _ jobless =>
    obtain ⟨t, ht, hr, -⟩ := hwait
    exact absurd hr (jobless t ht)
  | stopClaim _ stopped => exact (claim (fun t ht hr => hw.unstopped t ht (hr ▸ stopped)) hb).elim
  | dispatch _ _ _ known idle => exact (claim (hw.ledger.jobless known idle) hb).elim
  | patrol _ _ _ jobless => exact (claim jobless hb).elim
  | @look _ t rest head =>
    refine .before rfl ?_ (fun _ => not_ahead_head rfl)
    intro u hu hr
    obtain rfl := hw.ledger.eq_head head hu hr
    exact ⟨_, List.mem_cons_self, ⟨rfl, rfl, rfl, rfl, rfl⟩, rfl⟩
  | pass head moving | lap _ head moving | drive head moving =>
    exact absurd hb (hw.not_waits (by simp [head]) moving b)
  | fail head stuck moving sheds =>
    have hold := sheds.waits_kept hb
    exact absurd hold (hw.not_waits (by simp [head]) moving b)
  | complete head moving =>
    have hold := (ReservationDeadlock.sheds_release ..).waits_kept hb
    exact absurd hold (hw.not_waits (by simp [head]) moving b)
  | grant _ _ _ granted =>
    rw [departed_waits hw.named granted] at hb
    cases hb
  | @reroute _ t _ path _ cause _ head still refused found long stopped timed =>
    obtain ⟨told, owned⟩ := asked head hb
    cases cause with
    | deadlock =>
      rw [told] at refused
      cases refused
    | stopped =>
      exact .now rfl head still told owned rfl rfl rfl ⟨rfl, still.symm, rfl, rfl, rfl⟩
        (.inr (.inl (stopped rfl)))
    | timed =>
      exact .now rfl head still told owned rfl rfl rfl ⟨rfl, still.symm, rfl, rfl, rfl⟩
        (.inr (.inr (timed rfl)))
  | @hold _ t _ _ stuck _ _ head still refused escalated =>
    obtain ⟨told, owned⟩ := asked head hb
    exact .now rfl head still told owned rfl rfl rfl
      ⟨rfl, rfl, rfl, by simp [escalated, told], rfl⟩ (.inl rfl)
  | swap _ _ _ _ called => exact (steady.not_swap called).elim

/-- The robot of the effect, if it waits after it. -/
theorem honest_self (h : Effect c a robot s s') (hw : Wellformed s) (hw' : Wellformed s')
    (ok : Untimed c a) (hs : Honest s) (hb : s'.traffic.waits robot = some b) :
    ∃ t ∈ s'.tasks, t.robot = robot ∧ t.moving = false ∧
      (s'.traffic.owner t.next = some b ∨ Behind s' b robot) := by
  cases h.waited hw hw' ok.plain.steady hb with
  | before traffic tasks order =>
    obtain ⟨t, ht, rfl, still, howner⟩ := hs _ _ (traffic ▸ hb)
    obtain ⟨t', ht', alike, hnext⟩ := tasks t ht rfl
    rw [← hnext, ← traffic] at howner
    refine ⟨t', ht', alike.robot, alike.moving.trans still, ?_⟩
    rcases howner with howner | ⟨hwaits, hahead⟩
    · exact .inl howner
    · rw [← traffic] at hwaits
      exact .inr ⟨hwaits, order hahead⟩
  | @now t t' rest own head still told owned traffic modes tasks alike way =>
    have hkept (v : Int) : s'.traffic.owner v = s.traffic.owner v := by
      rw [traffic]
      exact refused_owner hw.named (by simp [told]) v
    refine ⟨t', by simp [tasks], alike.robot.trans own, alike.moving.trans still, ?_⟩
    rcases way with hnext | stopped | timed
    · exact .inl (by rw [hkept, hnext, owned])
    · -- the owner of the node is stopped and has no task
      obtain ⟨o, ho, hmode⟩ := FleetCore.blockedByStopped_iff.mp stopped
      rw [← traffic, hkept, owned] at ho
      right
      apply hw'.behind
      intro u hu he
      apply hw'.unstopped u hu
      rw [he, Option.some.inj ho, FleetCore.modeOf, modes]
      exact hmode
    · exact absurd timed ok.untimed

theorem honest (h : Effect c a robot s s') (hw : Wellformed s) (hw' : Wellformed s')
    (ok : Untimed c a) (hs : Honest s) : Honest s' := by
  have steady := ok.plain.steady
  intro r b hb
  by_cases hr : r = robot
  · subst hr
    exact h.honest_self hw hw' ok hs hb
  rw [h.waits_other steady hr] at hb
  obtain ⟨t, ht, rfl, still, howner⟩ := hs r b hb
  have hmem : ∃ u ∈ s.tasks, u.robot = t.robot := ⟨t, ht, rfl⟩
  refine ⟨t, (h.tasks_other hw.ledger hr).mpr ht, rfl, still, ?_⟩
  by_cases hbr : b = robot
  · subst hbr
    rcases howner with howner | hbehind
    · exact h.keeps_or_behind hw hw' steady hr hmem howner (hw.named _ _ howner)
    · exact .inr (h.behind_self hw hw' steady hr hmem hbehind)
  · rcases howner with howner | ⟨hwaits, hahead⟩
    · left
      exact (h.alone steady hw.named b hbr _).mpr howner
    · right
      constructor
      · exact (h.waits_other steady hbr).trans hwaits
      · intro hb'
        exact hahead ((h.queued hw.ledger).ahead hr hmem hbr hb')

end Effect

theorem reach_honest {p : Setup R} (hc : (ticks p).Reach Untimed c) : Honest c.node := by
  refine reach_keeps (fun _ _ h => h.plain) (P := Honest) ?_ ?_ hc
  · intro r b hb
    simp [FleetNode.start, ReservationDeadlock.waits] at hb
  · exact fun c a robot s s' ok he hw hw' hs => he.honest hw hw' ok hs

end

/-! ## The cycle of a DEADLOCK -/

namespace FleetCore

variable {s : FleetCore R} {t : ActiveTask R}

/-- The cycle that the request of a task finds. -/
def cycle (s : FleetCore R) (t : ActiveTask R) : List String :=
  (findCycle (s.traffic.waitfor.insert t.robot (s.traffic.ownerOfNode t.next t.robot)) t.robot).2

/-- Each robot of the cycle has a task of `tasks` that stands before a node of the next robot. -/
def Blocked (s : FleetCore R) (tasks : List (ActiveTask R)) (cyc : List String) : Prop :=
  ∀ i < cyc.length, ∃ u ∈ tasks, cyc[i]? = some u.robot ∧ u.moving = false ∧
    s.traffic.owner u.next = cyc[(i + 1) % cyc.length]?

omit [Double R] in
instance (s : FleetCore R) (tasks : List (ActiveTask R)) (cyc : List String) :
    Decidable (s.Blocked tasks cyc) := inferInstanceAs (Decidable (∀ i < _, _))

/-- What a DEADLOCK says about the state it is found in. -/
theorem cycle_spec (hn : s.traffic.Named) (dead : (s.ask t).1 = .deadlock) : ∃ o,
    s.traffic.owner t.next = some o ∧
    IsRing (fun r => if r = t.robot then some o else s.traffic.waits r) t.robot (s.cycle t) ∧
    lowestPriority (s.traffic.prio.insert t.robot (s.computePriority t.robot t)) (s.cycle t) =
      t.robot := by
  have hans := ReservationDeadlock.requestMove_answer hn t.robot t.cur t.next
    (s.computePriority t.robot t)
  have hdead : (s.traffic.requestMove t.robot t.cur t.next (s.computePriority t.robot t)).1 =
    .deadlock := dead
  generalize s.traffic.requestMove t.robot t.cur t.next _ = out at hans hdead
  cases hans with
  | granted | refused | waiting => cases hdead
  | @yielding o cyc _ owned other found lowest =>
    have ho : s.traffic.ownerOfNode t.next t.robot = o := by
      have hnode : s.traffic.nodeOwner[t.next]? = some o := owned
      simp [ReservationDeadlock.ownerOfNode, hnode, other]
    have hcyc : s.cycle t = cyc := by rw [cycle, ho, found]
    rw [hcyc]
    refine ⟨o, owned, ?_, lowest⟩
    apply (findCycle_ring found).congr
    intro r _
    rw [ExtTreeMap.getElem?_insert]
    simp [@eq_comm _ r, ReservationDeadlock.waits]

end FleetCore

/-- In runs without a timed detour a DEADLOCK is a real one. -/
theorem deadlock_blocked {p : Setup R} {s : FleetCore R} {kept todo : List (ActiveTask R)}
    {t : ActiveTask R} (hc : (ticks p).Reach Untimed (.asking s kept t todo))
    (dead : (s.ask t).1 = .deadlock) : s.Blocked (t :: (todo ++ kept)) (s.cycle t) := by
  have hw := reach_wellformed (fun _ _ h => h.plain) hc
  have honest := reach_honest hc
  have still : t.moving = false := reach_sound hc
  obtain ⟨o, howner, ring, -⟩ := FleetCore.cycle_spec (s := s) (t := t) hw.named dead
  intro i hi
  have hnext := ring.getElem hi
  by_cases hself : (s.cycle t)[i] = t.robot
  · refine ⟨t, List.mem_cons_self, by rw [List.getElem?_eq_getElem hi, hself], still, ?_⟩
    rw [if_pos hself] at hnext
    rw [howner, hnext]
  · obtain ⟨b, hb, hib⟩ := ring.image (List.getElem_mem hi)
    rw [if_neg hself] at hnext hib
    obtain ⟨u, hu, hr, hm, hblocked⟩ := honest _ b hib
    refine ⟨u, hu, by rw [List.getElem?_eq_getElem hi, hr], hm, ?_⟩
    rw [← hnext, hib]
    -- a robot that is left behind waits for nobody, so it is `t.robot`; but it is not its turn
    apply hblocked.resolve_right
    intro hbehind
    obtain ⟨d, -, hbd⟩ := ring.image hb
    have hbt : b = t.robot := by
      by_contra hne
      rw [if_neg hne, show s.traffic.waits b = none from hbehind.1] at hbd
      cases hbd
    apply hbehind.2
    rw [hbt]
    show t.robot ∈ ahead (t :: (todo ++ kept)) _
    rw [ahead_cons (Ne.symm hself)]
    exact List.mem_cons_self

/-- Two robots that face each other; the younger task is told to yield. -/
theorem deadlock_blocked_two : ∃ (s : FleetCore ℚ) (kept : _) (t : _) (todo : _),
    (ticks (Yard.setup false [])).Reach Untimed (.asking s kept t todo) ∧
    (s.ask t).1 = .deadlock ∧ s.cycle t = ["r2", "r1"] ∧
    s.Blocked (t :: (todo ++ kept)) (s.cycle t) := by
  obtain ⟨s, kept, t, todo, hc, hp⟩ := exists_asking (Yard.setup false []) Untimed
    (fun s _ t _ => decide ((s.ask t).1 = .deadlock ∧ s.cycle t = ["r2", "r1"]))
    ([.call (Yard.seen "r1" 0 0), .call (Yard.seen "r2" 10 0), .call (Yard.send "r1" "1"),
      .call (Yard.send "r2" "0")] ++ Yard.taken .timer 4)
    (by decide +kernel)
  obtain ⟨dead, hcyc⟩ := of_decide_eq_true hp
  exact ⟨s, kept, t, todo, hc, dead, hcyc, deadlock_blocked hc dead⟩

/-- The robot `r` waits at 0 for 1, where `b` drives to, until it takes the detour by 3. Before it
has asked for 3, `b` comes to 1 and asks for 0: a DEADLOCK, although `r` wants 1 no more. -/
theorem detour_blocked : ¬ ∀ (p : Setup ℚ) (s : FleetCore ℚ) (kept todo : List (ActiveTask ℚ))
    (t : ActiveTask ℚ), (ticks p).Reach (fun _ a => a.With Callback.Plain) (.asking s kept t todo) →
      (s.ask t).1 = .deadlock → s.Blocked (t :: (todo ++ kept)) (s.cycle t) := by
  intro h
  obtain ⟨s, kept, t, todo, hc, hp⟩ := exists_asking (Yard.setup false [])
    (fun _ a => a.With Callback.Plain)
    (fun s kept t todo =>
      decide ((s.ask t).1 = .deadlock ∧ ¬ s.Blocked (t :: (todo ++ kept)) (s.cycle t)))
    ([.call (Yard.seen "b" 10 10), .call (Yard.seen "r" 0 0), .call (Yard.send "b" "0"),
      .call (Yard.send "r" "2"), .call (Yard.mode "r" "CHARGE")] ++
      Yard.taken .timer 6 ++ (List.replicate 32 (Yard.taken .timer 5)).flatten ++
      [.call (Yard.seen "b" 10 0)] ++ Yard.taken .timer 2)
    (by decide +kernel)
  obtain ⟨dead, hblocked⟩ := of_decide_eq_true hp
  exact hblocked (h _ s kept todo t hc dead)

end LibiFleet
