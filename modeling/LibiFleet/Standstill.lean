import LibiFleet.Jam
import LibiFleet.Priorities
import LibiFleet.Assignment

/-!
# A standstill comes to a head

A circle of robots, each with a task and before a node of the next, while the rest of
the fleet goes on. The plugin picks one of them to yield, which takes a detour or, if
there is none, is raised to the highest tier. Then the next one is picked.
-/

namespace LibiFleet

open Std (ExtTreeMap)

variable {R : Type} {m : Nat}

namespace Jam

variable {J : Jam m} {σ σ' : ReservationDeadlock} {c : Call} {i : Fin (m + 2)} {n : Nat}

/-- What a call of `robot i` in round `n + 1` has brought about. -/
structure Gained (J : Jam m) (n : Nat) (σ : ReservationDeadlock) (i : Fin (m + 2)) : Prop where
  known : J.Known σ i
  waits : 1 ≤ n → ¬ J.Lowest i → J.Waits σ i

theorem After.take (h : J.After n σ) (hc : J.Admits c) : J.After n (σ.take c) := by
  have hrun : J.After n (σ.run [c]) := h.run (List.forall_mem_singleton.mpr hc)
  exact hrun

theorem Gained.take (h : J.Gained n σ i) (ha : J.After n σ) (hc : J.Admits c) :
    J.Gained n (σ.take c) i where
  known := h.known.take hc ha.stuck
  waits := by
    intro hn hi
    exact (h.waits hn hi).take hc ha.stuck (ha.known hn) hi

theorem After.gains (h : J.After n σ) (hc : J.Asks i c) : J.Gained n (σ.take c) i := by
  obtain ⟨src, hsrc, rfl⟩ := hc.request
  refine ⟨(h.stuck.asked hsrc).1, ?_⟩
  intro hn hi
  exact (h.stuck.waits_of (h.known hn) hsrc hi).2

/-- A round is over when every robot of the circle has called. -/
theorem After.succ (h : J.After n σ) (all : ∀ i, J.Gained n σ i) : J.After (n + 1) σ where
  stuck := h.stuck
  known := fun _ i => (all i).known
  waits := by
    intro hn i hi
    exact (all i).waits (by omega) hi

/-- Nothing that the circle is made of differs. -/
structure Same (J : Jam m) (σ σ' : ReservationDeadlock) : Prop where
  stuck : J.Stuck σ → J.Stuck σ'
  waits : ∀ i, σ'.waits (J.robot i) = σ.waits (J.robot i)
  prio : ∀ i, prioOf σ'.prio (J.robot i) = prioOf σ.prio (J.robot i)

theorem Same.known (h : J.Same σ σ') (hk : J.Known σ i) : J.Known σ' i := by
  refine ⟨(h.prio i).trans hk.1, ?_⟩
  intro b hb
  exact hk.2 b ((h.waits i).symm.trans hb)

theorem Same.gained (h : J.Same σ σ') (hg : J.Gained n σ i) : J.Gained n σ' i :=
  ⟨h.known hg.known, fun hn hi => (h.waits i).trans (hg.waits hn hi)⟩

theorem Same.after (h : J.Same σ σ') (ha : J.After n σ) : J.After n σ' where
  stuck := h.stuck ha.stuck
  known := fun hn i => h.known (ha.known hn i)
  waits := fun hn i hi => (h.waits i).trans (ha.waits hn i hi)

/-- The same circle with other priorities. -/
def priced (J : Jam m) (priority : Fin (m + 2) → Int) : Jam m := { J with priority }

/-- `t` is the task of `robot i`, which stands before its node and is not there yet. -/
structure Stands (J : Jam m) (i : Fin (m + 2)) (t : ActiveTask R) : Prop where
  robot : t.robot = J.robot i
  still : t.moving = false
  next : t.next = J.node i
  away : t.cur ≠ t.next

/-- Between the two records a robot of the circle takes a detour. -/
def Detoured (J : Jam m) (log log' : List (Event R)) : Prop :=
  ∃ i cause older, log <:+ older ∧ .reroute (J.robot i) cause :: older <:+ log'

theorem Detoured.mono {J : Jam m} {log log' log'' : List (Event R)} (h : J.Detoured log log')
    (hlog : log' <:+ log'') : J.Detoured log log'' := by
  obtain ⟨i, cause, older, hbase, hmem⟩ := h
  exact ⟨i, cause, older, hbase, hmem.trans hlog⟩

theorem Detoured.before {J : Jam m} {log log' log'' : List (Event R)} (h : J.Detoured log' log'')
    (hlog : log <:+ log') : J.Detoured log log'' := by
  obtain ⟨i, cause, older, hbase, hmem⟩ := h
  exact ⟨i, cause, older, hlog.trans hbase, hmem⟩

variable [Double R]

/-- `robot i` stands before its node, stuck or not, and would ask with the priority `p`. -/
def At (J : Jam m) (s : FleetNode R) (i : Fin (m + 2)) (stuck : Bool) (p : Int) : Prop :=
  ∃ t ∈ s.tasks, J.Stands i t ∧ t.stuck = stuck ∧ s.computePriority t.robot t = p

/-- The robots of the circle stand where they do, which of them are stuck, and the priorities they
would ask with. -/
structure Jammed (J : Jam m) (s : FleetNode R) (stuck : Fin (m + 2) → Bool)
    (priority : Fin (m + 2) → Int) : Prop where
  stands : ∀ i, J.At s i (stuck i) (priority i)
  ring : J.Stuck s.traffic

/-- What may happen to a circle: a robot of it takes a detour or becomes stuck, or the circle is as
it was and the rounds go on. -/
inductive Moves (J : Jam m) (stuck : Fin (m + 2) → Bool) (priority : Fin (m + 2) → Int)
    (s s' : FleetNode R) : Prop
  | detoured (h : J.Detoured s.log s'.log)
  | escalated (stuck' priority') (l : Fin (m + 2)) (jammed : J.Jammed s' stuck' priority')
      (keeps : ∀ i, stuck i = true → stuck' i = true) (calm : stuck l = false)
      (raised : stuck' l = true)
  | same (jammed : J.Jammed s' stuck priority)
      (after : ∀ n, (J.priced priority).After n s.traffic →
        (J.priced priority).After n s'.traffic ∧ ∀ i,
          (J.priced priority).Gained n s.traffic i → (J.priced priority).Gained n s'.traffic i)

end Jam

variable [Double R]

theorem FleetCore.computePriority_congr {s s' : FleetCore R} {robot : String} {t t' : ActiveTask R}
    (stuck : t'.stuck = t.stuck) (patrol : t'.patrol = t.patrol)
    (startSeq : t'.startSeq = t.startSeq)
    (mode : s'.modeOf robot = .charge ↔ s.modeOf robot = .charge)
    (battery : s'.batteryOf robot = s.batteryOf robot) :
    s'.computePriority robot t' = s.computePriority robot t := by
  simp only [computePriority, tier, age, batteryTerm, stuck, patrol, startSeq, mode, battery]

section Effects

variable {J : Jam m} {c : Conf R} {a : Action R} {robot : String} {s s' : FleetNode R}
  {stuck : Fin (m + 2) → Bool} {priority : Fin (m + 2) → Int}

open Jam

/-- A task of the circle that is there as it was. -/
theorem Jam.At.keep {i : Fin (m + 2)} {b : Bool} {p : Int} (h : J.At s i b p)
    (tasks : ∀ t ∈ s.tasks, t.robot = J.robot i → ∃ t' ∈ s'.tasks, t'.robot = t.robot ∧
      t'.moving = t.moving ∧ t'.next = t.next ∧ t'.cur = t.cur ∧ t'.stuck = t.stuck ∧
      t'.patrol = t.patrol ∧ t'.startSeq = t.startSeq)
    (mode : s'.modeOf (J.robot i) = .charge ↔ s.modeOf (J.robot i) = .charge)
    (battery : s'.batteryOf (J.robot i) = s.batteryOf (J.robot i)) : J.At s' i b p := by
  obtain ⟨t, ht, stands, rfl, rfl⟩ := h
  obtain ⟨t', ht', hr, hm, hn, hc, hs, hp, hq⟩ := tasks t ht stands.robot
  refine ⟨t', ht', ⟨hr.trans stands.robot, hm.trans stands.still, hn.trans stands.next, ?_⟩, hs, ?_⟩
  · rw [hn, hc]
    exact stands.away
  · rw [hr, stands.robot]
    exact FleetCore.computePriority_congr hs hp hq mode battery

/-- The effects of the robots that are not in the circle leave it alone. -/
theorem Effect.jam_other (h : Effect c a robot s s') (hw : Wellformed s)
    (steady : a.With Callback.Steady) (outside : ∀ i, J.robot i ≠ robot)
    (hj : J.Jammed s stuck priority) : J.Moves stuck priority s s' := by
  have hsame (pr : Fin (m + 2) → Int) : (J.priced pr).Same s.traffic s'.traffic := by
    refine ⟨?_, fun i => h.waits_other steady (outside i), fun i => h.prio_other steady (outside i)⟩
    intro ring i
    exact (h.alone steady hw.named _ (outside _) _).mpr (ring i)
  refine .same ⟨?_, (hsame priority).stuck hj.ring⟩ ?_
  · intro i
    refine (hj.stands i).keep ?_ ?_ ?_
    · intro t ht hr
      have hne : t.robot ≠ robot := hr ▸ outside i
      exact ⟨t, (h.tasks_other hw.ledger hne).mpr ht, rfl, rfl, rfl, rfl, rfl, rfl, rfl⟩
    · rw [h.mode_other (outside i)]
    · rw [FleetCore.batteryOf, FleetCore.batteryOf, h.robots_other hw.ledger (outside i)]
  · intro n ha
    exact ⟨(hsame priority).after ha, fun i hg => (hsame priority).gained hg⟩

/-- A robot of the circle has no task but the one it stands with. -/
theorem Jam.At.head {i : Fin (m + 2)} {b : Bool} {p : Int} (h : J.At s i b p) (hl : Ledger s)
    {t : ActiveTask R} {rest : List (ActiveTask R)} (head : s.tasks = t :: rest)
    (hr : t.robot = J.robot i) :
    J.Stands i t ∧ t.stuck = b ∧ s.computePriority t.robot t = p := by
  obtain ⟨u, hu, stands, hstuck, hprio⟩ := h
  obtain rfl := hl.eq_head head hu (stands.robot.trans hr.symm)
  exact ⟨stands, hstuck, hprio⟩

/-- The request of a robot of the circle that is not granted. -/
theorem Jam.Jammed.asked {i : Fin (m + 2)} (hj : J.Jammed s stuck priority) (hl : Ledger s)
    {t t' : ActiveTask R} {rest : List (ActiveTask R)} (head : s.tasks = t :: rest)
    (hr : t.robot = J.robot i) (traffic : s'.traffic = (s.ask t).2.traffic)
    (modes : s'.robotMode = s.robotMode) (robots : s'.robots = s.robots)
    (tasks : s'.tasks = rest ++ [t']) (stands : J.Stands i t')
    (patrol : t'.patrol = t.patrol) (startSeq : t'.startSeq = t.startSeq)
    (raised : t.stuck = true → t'.stuck = true) : J.Moves stuck priority s s' := by
  obtain ⟨stood, hstuck, hprio⟩ := (hj.stands i).head hl head hr
  -- the request is the call of `robot i` in the present round
  have hcall : (J.priced priority).Asks i (.request t.robot t.cur t.next (priority i)) :=
    ⟨hr, stood.next ▸ stood.away, stood.next, rfl⟩
  have admits : (J.priced priority).Admits (.request t.robot t.cur t.next (priority i)) := by
    intro j hj
    have hij : i = j := J.distinct (hr.symm.trans hj)
    exact hij ▸ hcall
  have htake : s'.traffic = s.traffic.take (.request t.robot t.cur t.next (priority i)) := by
    rw [traffic, ← hprio]
    rfl
  have hring : (J.priced priority).Stuck s.traffic := hj.ring
  have ring : (J.priced priority).Stuck s'.traffic := htake ▸ hring.take admits
  have others (j : Fin (m + 2)) (hji : j ≠ i) : J.At s' j (stuck j) (priority j) := by
    obtain ⟨u, hu, hstand, hstuck, hprio⟩ := hj.stands j
    have hne : u ≠ t := fun he => hji (J.distinct (hstand.robot.symm.trans (he ▸ hr)))
    have hmem : u ∈ rest := (List.mem_cons.mp (head ▸ hu)).resolve_left hne
    refine ⟨u, tasks ▸ List.mem_append_left _ hmem, hstand, hstuck, hprio.symm ▸ ?_⟩
    apply FleetCore.computePriority_congr rfl rfl rfl
    · rw [FleetCore.modeOf, FleetCore.modeOf, modes]
    · rw [FleetCore.batteryOf, FleetCore.batteryOf, robots]
  have hmem : t' ∈ s'.tasks := tasks ▸ List.mem_concat_self
  by_cases hsame : t'.stuck = t.stuck
  · refine .same ⟨?_, ring⟩ ?_
    · intro j
      by_cases hji : j = i
      · subst hji
        refine ⟨t', hmem, stands, hsame.trans hstuck, ?_⟩
        rw [← hprio, stands.robot, hr]
        apply FleetCore.computePriority_congr hsame patrol startSeq
        · rw [FleetCore.modeOf, FleetCore.modeOf, modes]
        · rw [FleetCore.batteryOf, FleetCore.batteryOf, robots]
      · exact others j hji
    · intro n ha
      rw [htake]
      exact ⟨ha.take admits, fun j hg => hg.take ha admits⟩
  · have calm : t.stuck = false := Bool.eq_false_of_not_eq_true fun h =>
      hsame ((raised h).trans h.symm)
    have up : t'.stuck = true := by
      by_contra hdown
      exact hsame ((Bool.eq_false_of_not_eq_true hdown).trans calm.symm)
    refine .escalated (Function.update stuck i true)
      (Function.update priority i (s'.computePriority t'.robot t')) i ⟨?_, ring⟩ ?_
      (hstuck.symm.trans calm) (Function.update_self ..)
    · intro j
      by_cases hji : j = i
      · subst hji
        rw [Function.update_self, Function.update_self]
        exact ⟨t', hmem, stands, up, rfl⟩
      · rw [Function.update_of_ne hji, Function.update_of_ne hji]
        exact others j hji
    · intro j hjs
      by_cases hji : j = i
      · rw [hji, Function.update_self]
      · rwa [Function.update_of_ne hji]

/-- The effects of a robot of the circle that nobody disturbs. -/
theorem Effect.jam_own {i : Fin (m + 2)} (h : Effect c a robot s s') (hl : Ledger s)
    (steady : a.With Callback.Steady) (free : ¬ c.Disturbs (J.robot i) a) (hr : robot = J.robot i)
    (hj : J.Jammed s stuck priority) : J.Moves stuck priority s s' := by
  have named : robot ≠ "" := hr ▸ J.named i
  have undisturbed : c.cancels a ≠ some robot := fun hc => free (.inl (hr ▸ hc))
  have unset : a.sets robot ≠ true := fun hset => free (.inr (hr ▸ hset))
  have calm (traffic : s'.traffic = s.traffic)
      (tasks : ∀ t ∈ s.tasks, ∃ t' ∈ s'.tasks, t'.robot = t.robot ∧
        t'.moving = t.moving ∧ t'.next = t.next ∧ t'.cur = t.cur ∧ t'.stuck = t.stuck ∧
        t'.patrol = t.patrol ∧ t'.startSeq = t.startSeq)
      (mode : ∀ q, s'.modeOf q = .charge ↔ s.modeOf q = .charge)
      (battery : ∀ q, s'.batteryOf q = s.batteryOf q) : J.Moves stuck priority s s' := by
    refine .same
      ⟨fun j => (hj.stands j).keep (fun t ht _ => tasks t ht) (mode _) (battery _), ?_⟩ ?_
    · rw [traffic]
      exact hj.ring
    · intro n ha
      rw [traffic]
      exact ⟨ha, fun _ hg => hg⟩
  have kept (t : ActiveTask R) (ht : t ∈ s.tasks) : ∃ t' ∈ s.tasks, t'.robot = t.robot ∧
      t'.moving = t.moving ∧ t'.next = t.next ∧ t'.cur = t.cur ∧ t'.stuck = t.stuck ∧
      t'.patrol = t.patrol ∧ t'.startSeq = t.startSeq :=
    ⟨t, ht, rfl, rfl, rfl, rfl, rfl, rfl, rfl⟩
  -- the first task is the one of the circle, and it does not move
  have still {t : ActiveTask R} {rest : List (ActiveTask R)} (head : s.tasks = t :: rest)
      (hown : t.robot = J.robot i) (moving : t.moving = true) : False := by
    have stands := ((hj.stands i).head hl head hown).1
    rw [stands.still] at moving
    cases moving
  cases h with
  | sighting msg called =>
    have hbattery (q : String) : (s.onRobotState msg).batteryOf q = s.batteryOf q := by
      rw [FleetCore.batteryOf_eq, FleetCore.batteryOf_eq]
      by_cases hq : msg.name = q
      · simp [FleetNode.onRobotState, FleetCore.robot, hq]
      · simp [FleetNode.onRobotState, FleetCore.robot, ExtTreeMap.getD_insert, hq]
    refine calm rfl kept ?_ hbattery
    intro q
    rcases s.onRobotState_modeOf msg q with hsame | ⟨-, hidle, hpatrol⟩
    · rw [hsame]
    · rw [hidle, hpatrol]
      decide
  | touch chosen =>
    rw [Ledger.touch_eq (hl.chosen chosen).1]
    exact .same hj fun _ ha => ⟨ha, fun _ hg => hg⟩
  | battery req called | mode called | stopClaim called =>
    rw [called] at unset
    simp [Action.sets] at unset
  | cancel _ called | vacate _ _ called => exact absurd called undisturbed
  | dispatch here _ _ _ _ _ start _ _ _ _ called =>
    subst here called
    exact absurd (congrArg (Option.map Prod.fst) start) undisturbed
  | patrol _ _ _ jobless =>
    obtain ⟨t, ht, stands, -⟩ := hj.stands i
    exact absurd (stands.robot.trans hr.symm) (jobless t ht)
  | fail head _ moving | pass head moving | lap _ head moving | complete head moving
  | drive head moving => exact (still head hr moving).elim
  | @look _ t rest head =>
    have known : t.robot ∈ s.robots := hl.known t (by simp [head])
    refine calm rfl ?_ (fun _ => .rfl) ?_
    · intro u hu
      rcases List.mem_cons.mp (head ▸ hu) with rfl | hu
      · exact ⟨_, List.mem_cons_self, rfl, rfl, rfl, rfl, rfl, rfl, rfl⟩
      · exact ⟨u, List.mem_cons_of_mem _ hu, rfl, rfl, rfl, rfl, rfl, rfl, rfl⟩
    · intro q
      rw [Ledger.touch_eq known]
  | @grant _ t _ _ _ head _ granted =>
    have stands := ((hj.stands i).head hl head hr).1
    have refused := hj.ring.refused i t.cur (s.computePriority t.robot t)
    rw [← stands.next, ← hr] at refused
    exact absurd granted refused
  | @reroute _ t _ _ events cause =>
    have older : s.log <:+ events ++ (s.ask t).2.log :=
      (List.suffix_cons ..).trans (List.suffix_append ..)
    exact .detoured ⟨i, cause, _, older, hr ▸ List.suffix_refl _⟩
  | @hold _ t rest events stuck' waited _ head _ _ escalated =>
    have stands := ((hj.stands i).head hl head hr).1
    refine hj.asked hl head hr rfl rfl rfl rfl
      ⟨stands.robot, stands.still, stands.next, stands.away⟩ rfl rfl ?_
    intro up
    rw [up] at escalated
    exact escalated
  | publish | reload | swap => exact absurd rfl named

/-- Whatever happens while nobody disturbs the robots of the circle. -/
theorem Effect.jam (h : Effect c a robot s s') (hw : Wellformed s)
    (steady : a.With Callback.Steady) (free : ∀ i, ¬ c.Disturbs (J.robot i) a)
    (hj : J.Jammed s stuck priority) : J.Moves stuck priority s s' := by
  by_cases hr : ∃ i, robot = J.robot i
  · obtain ⟨i, hr⟩ := hr
    exact h.jam_own hw.ledger steady (free i) hr hj
  · exact h.jam_other hw steady (fun i he => hr ⟨i, he.symm⟩) hj

end Effects

/-! ## What a step does to the circle -/

section Steps

open Jam

variable {J : Jam m} {c c' : Conf R} {a : Action R} {s s' s'' : FleetNode R}
  {stuck : Fin (m + 2) → Bool} {priority : Fin (m + 2) → Int}

theorem Jam.Moves.trans (h : J.Moves stuck priority s s') (grows : s.log <:+ s'.log)
    (grows' : s'.log <:+ s''.log)
    (next : ∀ stuck' priority', J.Jammed s' stuck' priority' → J.Moves stuck' priority' s' s'') :
    J.Moves stuck priority s s'' := by
  cases h with
  | detoured h => exact .detoured (h.mono grows')
  | escalated stuck' priority' l jammed keeps calm raised =>
    cases next stuck' priority' jammed with
    | detoured h => exact .detoured (h.before grows)
    | escalated stuck'' priority'' _ jammed' keeps' =>
      exact .escalated stuck'' priority'' l jammed' (fun i hi => keeps' i (keeps i hi)) calm
        (keeps' l raised)
    | same jammed' => exact .escalated stuck' priority' l jammed' keeps calm raised
  | same jammed after =>
    cases next stuck priority jammed with
    | detoured h => exact .detoured (h.before grows)
    | escalated stuck' priority' l jammed' keeps calm raised =>
      exact .escalated stuck' priority' l jammed' keeps calm raised
    | same jammed' after' =>
      refine .same jammed' ?_
      intro n ha
      obtain ⟨hb, hgain⟩ := after n ha
      obtain ⟨hc, hgain'⟩ := after' n hb
      exact ⟨hc, fun i hg => hgain' i (hgain i hg)⟩

theorem Effects.jam (h : Effects c a s s') (hw : Wellformed s) (hc : Wellformed c.node)
    (plain : a.With Callback.Plain) (free : ∀ i, ¬ c.Disturbs (J.robot i) a)
    (hj : J.Jammed s stuck priority) : J.Moves stuck priority s s' := by
  induction h with
  | refl => exact .same hj fun _ ha => ⟨ha, fun _ hg => hg⟩
  | @tail t u _ heffects heffect ih =>
    have hwt : Wellformed t := heffects.keeps (fun _ _ _ he hw => he.wellformed hw hc plain) hw
    have grows : s.log <:+ t.log := ⟨_, heffects.grows.symm⟩
    have grows' : t.log <:+ u.log := ⟨_, heffect.grows.symm⟩
    exact ih.trans grows grows' fun _ _ => heffect.jam hwt plain.steady free

/-- The tasks that have been passed in the loop over `tasks_`. -/
def Conf.passed : Conf R → List (ActiveTask R)
  | looping _ kept _ | asking _ kept _ _ => kept
  | idle _ | patrols .. => []

/-- `n` rounds are over, and the present one has come to where it is. The lowest of the circle is
stuck when it has been asked in the third round. -/
structure Jam.Rounds (J : Jam m) (n : Nat) (stuck : Fin (m + 2) → Bool)
    (priority : Fin (m + 2) → Int) (c : Conf R) : Prop where
  jammed : J.Jammed c.node stuck priority
  after : (J.priced priority).After n c.node.traffic
  passed : ∀ i, (∃ t ∈ c.passed, t.robot = J.robot i) →
    (J.priced priority).Gained n c.node.traffic i ∧
      (2 ≤ n → (J.priced priority).Lowest i → stuck i = true)

/-- The tiers: when the lowest is stuck, all are. -/
theorem Jam.Jammed.all_stuck (hj : J.Jammed s stuck priority) {l : Fin (m + 2)}
    (lowest : (J.priced priority).Lowest l) (hl : stuck l = true) : ∀ i, stuck i = true := by
  intro i
  by_cases hi : i = l
  · exact hi ▸ hl
  obtain ⟨t, -, -, hstuck, hprio⟩ := hj.stands l
  obtain ⟨u, -, -, hstuck', hprio'⟩ := hj.stands i
  have hle : priority l ≤ priority i := by
    rcases lowest i hi with hlt | ⟨heq, -⟩
    · exact hlt.le
    · exact heq.le
  rw [← hprio, ← hprio', FleetCore.computePriority_eq, FleetCore.computePriority_eq] at hle
  have hrung := rung_le_of_priority_le (FleetCore.age_nonneg t) (FleetCore.age_le u)
    (s.batteryTerm_nonneg _) (s.batteryTerm_le _) hle
  have htop : s.tier t.robot t = 3 := if_pos (hstuck.trans hl)
  by_contra hdown
  have hlow : s.tier u.robot u ≤ 2 := by
    unfold FleetCore.tier
    rw [hstuck', if_neg hdown]
    split_ifs <;> omega
  rw [htop] at hrung
  rcases Prod.Lex.toLex_le_toLex.mp hrung with hlt | ⟨heq, -⟩
  · dsimp only at hlt
    omega
  · dsimp only at heq
    omega

/-- A request that is refused, as far as the circle is concerned. -/
theorem refused_request {s s' : FleetCore R} {t t' : ActiveTask R}
    (h : s.request t = some (s', t')) (refused : (s.ask t).1 ≠ .grant) :
    s'.traffic = (s.ask t).2.traffic ∧ (s.ask t).2.log <:+ s'.log ∧
      ((∃ cause, s'.log = .reroute t.robot cause :: (s.ask t).2.log) ∨
        ((s.ask t).1 = .deadlock → t'.stuck = true)) := by
  rcases request_cases h with ⟨granted, -⟩ | ⟨-, h⟩ | ⟨wait, h⟩
  · exact absurd granted refused
  · unfold FleetCore.onDeadlock at h
    dsimp only at h
    split at h
    · obtain ⟨rfl, rfl⟩ := Prod.mk.inj h
      exact ⟨rfl, List.suffix_cons .., .inl ⟨.deadlock, rfl⟩⟩
    · obtain ⟨events, announced, -⟩ := announceWait_eq (s.ask t).2 t
      obtain ⟨rfl, rfl⟩ := Prod.mk.inj h
      rw [announced]
      exact ⟨rfl, List.suffix_append .., .inr fun _ => rfl⟩
  · have calm : (s.ask t).1 = .deadlock → t'.stuck = true := by simp [wait]
    unfold FleetCore.onWait at h
    obtain ⟨events, announced, -⟩ := announceWait_eq (s.ask t).2 t
    dsimp only at h
    rw [announced] at h
    split at h <;> split at h <;> obtain ⟨rfl, -⟩ := Prod.mk.inj h
    · exact ⟨rfl, List.suffix_cons .., .inr calm⟩
    · exact ⟨rfl, List.suffix_refl _, .inr calm⟩
    · exact ⟨rfl, (List.suffix_append events _).trans (List.suffix_cons ..), .inr calm⟩
    · exact ⟨rfl, List.suffix_append .., .inr calm⟩

theorem request_continues {s s' : FleetCore R} {t t' : ActiveTask R}
    (h : s.request t = some (s', t')) : t.Continues t' := by
  rcases request_cases h with ⟨-, h⟩ | ⟨-, h⟩ | ⟨-, h⟩
  · obtain ⟨-, -, rfl, -⟩ := onGrant_eq h
    exact ⟨rfl, rfl, rfl, rfl⟩
  · unfold FleetCore.onDeadlock at h
    dsimp only at h
    split at h <;> rw [← (Prod.mk.inj h).2] <;> exact ⟨rfl, rfl, rfl, rfl⟩
  · unfold FleetCore.onWait at h
    dsimp only at h
    split at h <;> split at h <;> rw [← (Prod.mk.inj h).2] <;> exact ⟨rfl, rfl, rfl, rfl⟩

/-- The request of a robot of the circle in the round after the first `n`. -/
theorem Jam.Rounds.request {n : Nat} {i : Fin (m + 2)} {s s' : FleetCore R}
    {kept todo : List (ActiveTask R)} {t t' : ActiveTask R} {log : List (Event R)}
    (hr : J.Rounds n stuck priority (.asking s kept t todo))
    (hl : Ledger (Conf.asking s kept t todo).node) (hlog : log <:+ s.log)
    (hrobot : t.robot = J.robot i) (h : s.request t = some (s', t')) :
    J.Detoured log s'.log ∨ (J.priced priority).Gained n s'.traffic i ∧
      (2 ≤ n → (J.priced priority).Lowest i → t'.stuck = true) := by
  obtain ⟨stands, -, hprio⟩ := (hr.jammed.stands i).head hl rfl hrobot
  have hprio : s.computePriority t.robot t = priority i := hprio
  have ha : (J.priced priority).After n s.traffic := hr.after
  have away : t.cur ≠ (J.priced priority).node i := stands.next ▸ stands.away
  have hask : (s.ask t).1 =
      (s.traffic.requestMove (J.robot i) t.cur (J.node i) (priority i)).1 := by
    rw [← hprio, ← hrobot, ← stands.next]
    rfl
  have refused : (s.ask t).1 ≠ .grant := hask ▸ ha.stuck.refused i t.cur (priority i)
  obtain ⟨traffic, -, ⟨cause, hcause⟩ | raised⟩ := refused_request h refused
  · refine .inl ⟨i, cause, (s.ask t).2.log, hlog.trans (List.suffix_cons ..), ?_⟩
    rw [hcause, hrobot]
  have hcall : (J.priced priority).Asks i (.request t.robot t.cur t.next (priority i)) :=
    ⟨hrobot, away, stands.next, rfl⟩
  have htake : s'.traffic = s.traffic.take (.request t.robot t.cur t.next (priority i)) := by
    rw [traffic, ← hprio]
    rfl
  refine .inr ⟨htake ▸ ha.gains hcall, ?_⟩
  intro hn lowest
  have waits (j : Fin (m + 2)) (hj : j ≠ i) : (J.priced priority).Waits s.traffic j :=
    ha.waits hn j fun hlow => hj (hlow.unique lowest)
  exact raised (hask.trans (ha.stuck.yields (ha.known (by omega)) away waits lowest))

/-- A tick has begun and is not over. -/
def Conf.begun : Conf R → Nat
  | idle _ => 0
  | patrols .. | looping .. | asking .. => 1

/-- How many robots of the circle are stuck. -/
def Jam.raised (stuck : Fin (m + 2) → Bool) : Nat :=
  (Finset.univ.filter fun i => stuck i = true).card

/-- How far the circle has come after so many ticks: every robot that is stuck has cost three rounds
at most. After one has become stuck in the middle of a round, the rounds begin again. -/
inductive Jam.Course (J : Jam m) (log : List (Event R)) (ticks : Nat) (c : Conf R) : Prop
  | detoured (h : J.Detoured log c.node.log)
  | full (up prio) (jammed : J.Jammed c.node up prio) (all : ∀ i, up i = true)
  | rounds (up prio n) (rounds : J.Rounds n up prio c) (few : n ≤ 2)
      (count : ticks ≤ 3 * raised up + n + c.begun)
  | restarted (up prio) (jammed : J.Jammed c.node up prio) (busy : c.begun = 1)
      (count : ticks ≤ 3 * raised up)

theorem Jam.raised_lt {stuck stuck' : Fin (m + 2) → Bool} {l : Fin (m + 2)}
    (keeps : ∀ i, stuck i = true → stuck' i = true) (calm : stuck l = false)
    (raised : stuck' l = true) : Jam.raised stuck < Jam.raised stuck' := by
  apply Finset.card_lt_card
  rw [Finset.ssubset_iff_of_subset]
  · exact ⟨l, by simp [raised], by simp [calm]⟩
  · intro i hi
    simpa using keeps i (by simpa using hi)

/-- A circle of which no more is known. -/
theorem Jam.Jammed.course {log : List (Event R)} {ticks : Nat}
    (hj : J.Jammed c.node stuck priority) (count : ticks ≤ 3 * raised stuck) :
    J.Course log ticks c := by
  have busy (hb : c.begun = 1) : J.Course log ticks c := .restarted stuck priority hj hb count
  cases c with
  | idle s =>
    refine .rounds stuck priority 0 ⟨hj, ⟨hj.ring, by simp, by simp⟩, ?_⟩ (by omega) count
    rintro i ⟨t, ht, -⟩
    cases ht
  | patrols | looping | asking => exact busy rfl

/-- The rounds go on in the loop over `tasks_`. -/
theorem Jam.Rounds.next {n : Nat} {log : List (Event R)} (hr : J.Rounds n stuck priority c)
    (hl : Ledger c.node) (hl' : Ledger c'.node) (hlog : log <:+ c.node.log)
    (jammed : J.Jammed c'.node stuck priority)
    (after : (J.priced priority).After n c'.node.traffic ∧ ∀ i,
      (J.priced priority).Gained n c.node.traffic i →
        (J.priced priority).Gained n c'.node.traffic i)
    (h : c.next = some c') : J.Detoured log c'.node.log ∨
      (c'.begun = 1 ∧ J.Rounds n stuck priority c') ∨
      c'.begun = 0 ∧ ∀ i, (J.priced priority).Gained n c'.node.traffic i ∧
        (2 ≤ n → (J.priced priority).Lowest i → stuck i = true) := by
  have passed (i : Fin (m + 2)) (hi : ∃ t ∈ c.passed, t.robot = J.robot i) :
      (J.priced priority).Gained n c'.node.traffic i ∧
        (2 ≤ n → (J.priced priority).Lowest i → stuck i = true) :=
    ⟨after.2 i (hr.passed i hi).1, (hr.passed i hi).2⟩
  have goes (hb : c'.begun = 1) (hp : ∀ t ∈ c'.passed, t ∈ c.passed) : J.Detoured log c'.node.log ∨
      (c'.begun = 1 ∧ J.Rounds n stuck priority c') ∨
      c'.begun = 0 ∧ ∀ i, (J.priced priority).Gained n c'.node.traffic i ∧
        (2 ≤ n → (J.priced priority).Lowest i → stuck i = true) := by
    refine .inr (.inl ⟨hb, jammed, after.1, ?_⟩)
    rintro i ⟨t, ht, hi⟩
    exact passed i ⟨t, hp t ht, hi⟩
  cases c with
  | idle s => cases h
  | patrols s keys =>
    cases keys with
    | nil =>
      obtain rfl := Option.some.inj h
      exact goes rfl (by simp [Conf.passed])
    | cons key keys =>
      obtain ⟨s', -, rfl⟩ := Option.map_eq_some_iff.mp h
      exact goes rfl (by simp [Conf.passed])
  | looping s kept todo =>
    cases todo with
    | nil =>
      obtain ⟨s', -, rfl⟩ := Option.map_eq_some_iff.mp h
      refine .inr (.inr ⟨rfl, ?_⟩)
      intro i
      obtain ⟨t, ht, stands, -⟩ := hr.jammed.stands i
      exact passed i ⟨t, ht, stands.robot⟩
    | cons t todo =>
      obtain ⟨⟨s', t'⟩, -, rfl⟩ := Option.map_eq_some_iff.mp h
      cases t' with
      | none => exact goes rfl fun _ ht => ht
      | some t' =>
        by_cases moving : t'.moving = true
        · simp only [moving, if_true] at jammed after hl' passed ⊢
          refine .inr (.inl ⟨rfl, jammed, after.1, ?_⟩)
          rintro i ⟨u, hu, hi⟩
          rcases List.mem_append.mp hu with hu | hu
          · exact passed i ⟨u, hu, hi⟩
          · -- no robot of the circle moves
            obtain rfl := List.mem_singleton.mp hu
            obtain ⟨v, hv, stands, -⟩ := jammed.stands i
            have hmem : u ∈ (Conf.looping s' (kept ++ [u]) todo).node.tasks := by simp [Conf.node]
            obtain rfl := hl'.eq_of_robot hv hmem (stands.robot.trans hi.symm)
            rw [stands.still] at moving
            cases moving
        · simp only [moving, Bool.false_eq_true, if_false] at jammed after passed ⊢
          refine .inr (.inl ⟨rfl, jammed, after.1, passed⟩)
  | asking s kept t todo =>
    obtain ⟨⟨s', t'⟩, hrequest, rfl⟩ := Option.map_eq_some_iff.mp h
    have asked (i : Fin (m + 2)) (hi : t'.robot = J.robot i) : J.Detoured log s'.log ∨
        (J.priced priority).Gained n s'.traffic i ∧
          (2 ≤ n → (J.priced priority).Lowest i → stuck i = true) := by
      have hrobot : t.robot = J.robot i := (request_continues hrequest).robot.symm.trans hi
      rcases hr.request hl hlog hrobot hrequest with hd | ⟨gained, raised⟩
      · exact .inl hd
      refine .inr ⟨gained, ?_⟩
      intro hn lowest
      obtain ⟨u, hu, stands, hstuck, -⟩ := jammed.stands i
      have hmem : t' ∈ (Conf.looping s' (kept ++ [t']) todo).node.tasks := by simp [Conf.node]
      obtain rfl := hl'.eq_of_robot hu hmem (stands.robot.trans hi.symm)
      exact hstuck.symm.trans (raised hn lowest)
    by_cases hd : J.Detoured log s'.log
    · exact .inl hd
    refine .inr (.inl ⟨rfl, jammed, after.1, ?_⟩)
    rintro i ⟨u, hu, hi⟩
    rcases List.mem_append.mp hu with hu | hu
    · exact passed i ⟨u, hu, hi⟩
    · obtain rfl := List.mem_singleton.mp hu
      exact (asked i hi).resolve_left hd

/-- The rounds go on, and three of them are over in the end. -/
theorem Jam.Rounds.step {n ticks : Nat} {log : List (Event R)}
    (hr : J.Rounds n stuck priority c) (few : n ≤ 2)
    (count : ticks ≤ 3 * raised stuck + n + c.begun) (hl : Ledger c.node) (hl' : Ledger c'.node)
    (hlog : log <:+ c.node.log) (jammed : J.Jammed c'.node stuck priority)
    (after : (J.priced priority).After n c'.node.traffic ∧ ∀ i,
      (J.priced priority).Gained n c.node.traffic i →
        (J.priced priority).Gained n c'.node.traffic i)
    (h : c.step a = some c') : J.Course log (ticks + a.timers) c' := by
  -- between ticks no robot has been passed
  have fresh {k : Nat} (ha : (J.priced priority).After k c'.node.traffic) (hp : c'.passed = []) :
      J.Rounds k stuck priority c' := by
    refine ⟨jammed, ha, ?_⟩
    rintro i ⟨t, ht, -⟩
    rw [hp] at ht
    cases ht
  rcases step_cases h with ⟨rfl, hnext⟩ | ⟨s, rfl, rfl, rfl⟩ | ⟨s, s', cb, rfl, rfl, hcb, -, rfl⟩
  · have begun : c.begun = 1 := by
      cases c with
      | idle => cases hnext
      | patrols | looping | asking => rfl
    rcases hr.next hl hl' hlog jammed after hnext with hd | ⟨busy, rounds⟩ | ⟨done, all⟩
    · exact .detoured hd
    · refine .rounds stuck priority n rounds few ?_
      rw [busy, ← begun]
      exact count
    · have hp : c'.passed = [] := by
        cases c' with
        | idle => rfl
        | patrols | looping | asking => cases done
      have hsucc := after.1.succ fun i => (all i).1
      by_cases hn : n + 1 ≤ 2
      · refine .rounds stuck priority (n + 1) (fresh hsucc hp) hn ?_
        rw [done]
        simp only [Action.timers]
        omega
      · obtain ⟨l, lowest⟩ := (J.priced priority).exists_lowest
        exact .full stuck priority jammed (jammed.all_stuck lowest ((all l).2 (by omega) lowest))
  · exact .rounds stuck priority n (fresh after.1 rfl) few (Nat.succ_le_succ count)
  · have calm : (Action.call cb).timers = 0 := by
      cases cb with
      | timer => exact absurd rfl hcb
      | _ => rfl
    exact .rounds stuck priority n (fresh after.1 rfl) few (calm ▸ count)

/-- One step brings the circle on its way, and every tick counts. -/
theorem Jam.Course.step {log : List (Event R)} {ticks : Nat} (hcourse : J.Course log ticks c)
    (hlog : log <:+ c.node.log) (hsound : c.Sound) (hw : Wellformed c.node)
    (hw' : Wellformed c'.node) (plain : a.With Callback.Plain)
    (free : ∀ i, ¬ c.Disturbs (J.robot i) a) (h : c.step a = some c') :
    J.Course log (ticks + a.timers) c' := by
  have heffects := step_effects hsound h
  have grows : c.node.log <:+ c'.node.log := ⟨_, heffects.grows.symm⟩
  have moves {up prio} (hj : J.Jammed c.node up prio) : J.Moves up prio c.node c'.node :=
    heffects.jam hw hw plain free hj
  -- the ticks that have begun, before and after
  have hcount : a.timers = 1 ∧ c.begun = 0 ∨ a.timers = 0 ∧ (c.begun = 0 ∨ c.begun = 1) := by
    rcases step_cases h with ⟨rfl, -⟩ | ⟨s, rfl, rfl, -⟩ | ⟨s, s', cb, rfl, rfl, hcb, -⟩
    · cases c <;> simp [Action.timers, Conf.begun]
    · exact .inl ⟨rfl, rfl⟩
    · cases cb <;> simp_all [Action.timers, Conf.begun]
  cases hcourse with
  | detoured hd => exact .detoured (hd.mono grows)
  | full up prio jammed all =>
    cases moves jammed with
    | detoured hd => exact .detoured (hd.before hlog)
    | escalated _ _ l _ _ calm =>
      rw [all l] at calm
      cases calm
    | same jammed' => exact .full up prio jammed' all
  | restarted up prio jammed busy count =>
    have hgo : a.timers = 0 := by omega
    rw [hgo]
    cases moves jammed with
    | detoured hd => exact .detoured (hd.before hlog)
    | escalated up' prio' l jammed' keeps calm raised =>
      have hlt := raised_lt keeps calm raised
      exact jammed'.course (by omega)
    | same jammed' => exact jammed'.course count
  | rounds up prio n rounds few count =>
    cases moves rounds.jammed with
    | detoured hd => exact .detoured (hd.before hlog)
    | escalated up' prio' l jammed' keeps calm raised =>
      have hlt := raised_lt keeps calm raised
      exact jammed'.course (by omega)
    | same jammed' after =>
      exact rounds.step few (by omega) hw.ledger hw'.ledger hlog jammed' (after n rounds.after) h

end Steps

/-! ## Over whole runs -/

variable {p : Setup R}

/-- The circle after any run in which nobody disturbs its robots. -/
theorem Jam.Jammed.run {J : Jam m} {s : FleetNode R} {c : Conf R} {way : Past R}
    {stuck : Fin (m + 2) → Bool} {priority : Fin (m + 2) → Int}
    (hs : (ticks p).Reach (fun _ a => a.With Callback.Plain) (.idle s))
    (hj : J.Jammed s stuck priority)
    (run : (ticks p).Run
      (fun c a => a.With Callback.Plain ∧ ∀ i, ¬ c.Disturbs (J.robot i) a) (.idle s) way c) :
    J.Course s.log (way.map (·.2.timers)).sum c := by
  have hj : J.Jammed (Conf.idle s).node stuck priority := hj
  refine (run.invariant (P := fun way c => s.log <:+ c.node.log ∧
    J.Course s.log (way.map (·.2.timers)).sum c) hs (fun _ _ h => h.1)
    ⟨List.suffix_refl _, hj.course (Nat.zero_le _)⟩ ?_).2
  rintro way c a c' hc ok hstep ⟨hlog, hcourse⟩
  have hsound : c.Sound := reach_sound hc
  have hw : Wellformed c.node := reach_wellformed (fun _ _ h => h) hc
  have hw' : Wellformed c'.node := wellformed_step ok.1 hstep hsound hw
  have grows : c.node.log <:+ c'.node.log := ⟨_, (step_effects hsound hstep).grows.symm⟩
  refine ⟨hlog.trans grows, ?_⟩
  rw [List.map_cons, List.sum_cons, Nat.add_comm]
  exact hcourse.step hlog hsound hw hw' ok.1 ok.2 hstep

/-- When robots stand in a circle, each before a node of the next, and nobody disturbs them, then
within three ticks for each of them one takes a detour, or all of them are stuck in the end. -/
theorem jam_escalates {J : Jam m} {s s' : FleetNode R} {way : Past R}
    (hs : (ticks p).Reach (fun _ a => a.With Callback.Plain) (.idle s))
    (stands : ∀ i, ∃ t ∈ s.tasks, J.Stands i t) (ring : J.Stuck s.traffic)
    (run : (ticks p).Run (fun c a => a.With Callback.Plain ∧ ∀ i, ¬ c.Disturbs (J.robot i) a)
      (.idle s) way (.idle s'))
    (long : 3 * (m + 2) ≤ (way.map (·.2.timers)).sum) :
    J.Detoured s.log s'.log ∨
      (∀ i, ∃ t ∈ s'.tasks, J.Stands i t ∧ t.stuck = true) ∧ J.Stuck s'.traffic := by
  choose task mem stand using stands
  have hj : J.Jammed s (fun i => (task i).stuck)
      (fun i => s.computePriority (task i).robot (task i)) :=
    ⟨fun i => ⟨task i, mem i, stand i, rfl, rfl⟩, ring⟩
  have all {up prio} (hj : J.Jammed s' up prio) (hup : ∀ i, up i = true) :
      (∀ i, ∃ t ∈ s'.tasks, J.Stands i t ∧ t.stuck = true) ∧ J.Stuck s'.traffic := by
    refine ⟨?_, hj.ring⟩
    intro i
    obtain ⟨t, ht, stands, hstuck, -⟩ := hj.stands i
    exact ⟨t, ht, stands, hstuck.trans (hup i)⟩
  cases hj.run hs run with
  | detoured hd => exact .inl hd
  | full up prio jammed hup => exact .inr (all jammed hup)
  | restarted _ _ _ busy => cases busy
  | rounds up prio n rounds few count =>
    refine .inr (all rounds.jammed ?_)
    have hcard : Finset.card (Finset.univ : Finset (Fin (m + 2))) ≤ Jam.raised up := by
      rw [Finset.card_univ, Fintype.card_fin]
      simp only [Conf.begun] at count
      omega
    have huniv := Finset.eq_univ_of_card _ (le_antisymm (Finset.card_le_univ _) hcard)
    intro i
    have hi := Finset.mem_univ i
    rw [← huniv] at hi
    simpa using hi

/-- Two robots face each other on a lane, and neither can get to its goal on another way. -/
theorem jam_escalates_faced : ∃ s' : FleetNode ℚ,
    (∀ i, ∃ t ∈ s'.tasks, Jam.pair.Stands i t ∧ t.stuck = true) ∧
      Jam.pair.Stuck s'.traffic := by
  let M := ticks (Yard.setup false [])
  let free (c : Conf ℚ) (a : Action ℚ) : Prop :=
    a.With Callback.Plain ∧ ∀ i, ¬ c.Disturbs (Jam.pair.robot i) a
  let timers := (List.replicate 6 (Yard.taken .timer 6)).flatten
  obtain ⟨s, hs, hcheck⟩ := exists_rests (Yard.setup false []) (fun _ a => a.With Callback.Plain)
    (fun s => decide (∀ i, (∃ t ∈ s.tasks, t.robot = Jam.pair.robot i ∧ t.moving = false ∧
      t.next = Jam.pair.node i ∧ t.cur ≠ t.next) ∧
      s.traffic.owner (Jam.pair.node i) = some (Jam.pair.robot (i + 1))) &&
      (M.runWhen free (.idle s) timers).any (Conf.rests fun s' => decide (∀ e ∈ s'.log,
        ∀ cause ∈ [Detour.deadlock, .stopped, .timed], ∀ i,
          e ≠ .reroute (Jam.pair.robot i) cause)))
    [.call (Yard.seen "r1" 0 0), .call (Yard.seen "r2" 10 0), .call (Yard.send "r1" "1"),
      .call (Yard.send "r2" "0")] (by decide +kernel)
  obtain ⟨hstand, hrun⟩ := Bool.and_eq_true_iff.mp hcheck
  have hstand := of_decide_eq_true hstand
  obtain ⟨s', way, run, hway, hlog⟩ := run_rests hrun
  have hlog := of_decide_eq_true hlog
  have stands (i : Fin 2) : ∃ t ∈ s.tasks, Jam.pair.Stands i t := by
    obtain ⟨⟨t, ht, hr, still, next, away⟩, -⟩ := hstand i
    exact ⟨t, ht, hr, still, next, away⟩
  have ring : Jam.pair.Stuck s.traffic := fun i => (hstand i).2
  have long : 3 * 2 ≤ (way.map (·.2.timers)).sum := by
    have hmap : way.map (·.2.timers) = (way.map (·.2)).map Action.timers := by simp
    rw [hmap, hway]
    decide +kernel
  refine ⟨s', (jam_escalates hs stands ring run long).resolve_left ?_⟩
  rintro ⟨i, cause, older, -, hmem⟩
  have hcause : cause ∈ [Detour.deadlock, .stopped, .timed] := by cases cause <;> simp
  exact hlog _ (hmem.subset List.mem_cons_self) cause hcause i rfl

end LibiFleet
