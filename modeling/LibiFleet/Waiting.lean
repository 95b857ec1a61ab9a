import LibiFleet.Turns

/-!
# Waiting for a detour

A WAIT of `kRerouteWaitTicks` ticks leads to a detour, and a detour begins a path. The counter
and the escalation of the old path should not outlive it.
-/

namespace LibiFleet

variable {R : Type}

/-- The task is at the start of its path, and neither waits nor is escalated. -/
structure ActiveTask.Cleared (t : ActiveTask R) : Prop where
  idx : t.idx = 1
  moving : t.moving = false
  waitLogged : t.waitLogged = false
  stuck : t.stuck = false
  waitTicks : t.waitTicks = 0

/-- The task has nothing that the branch of the detour does not reset. -/
def ActiveTask.Clean (t : ActiveTask R) : Detour → Prop
  | .deadlock => t.waitTicks = 0
  | .stopped => t.stuck = false ∧ t.waitTicks = 0
  | .timed => t.stuck = false

instance (t : ActiveTask R) : DecidablePred t.Clean
  | .deadlock => inferInstanceAs (Decidable (t.waitTicks = 0))
  | .stopped => inferInstanceAs (Decidable (t.stuck = false ∧ t.waitTicks = 0))
  | .timed => inferInstanceAs (Decidable (t.stuck = false))

/-- Each branch resets what it resets. -/
theorem detoured_cleared (t : ActiveTask R) (path : List Int) (cause : Detour) :
    (t.detoured path cause).Cleared ↔ t.Clean cause := by
  constructor
  · intro h
    cases cause with
    | deadlock => exact h.waitTicks
    | stopped => exact ⟨h.stuck, h.waitTicks⟩
    | timed => exact h.stuck
  · intro h
    cases cause with
    | deadlock => exact ⟨rfl, rfl, rfl, rfl, h⟩
    | stopped => exact ⟨rfl, rfl, rfl, h.1, h.2⟩
    | timed => exact ⟨rfl, rfl, rfl, h, rfl⟩

variable [Double R]

namespace Conf

/-- If the step takes a detour, the task has nothing that the branch does not reset. -/
def Clean : Conf R → Prop
  | asking s kept t todo => ∀ cause ∈ (asking s kept t todo).takes, t.Clean cause
  | _ => True

instance : DecidablePred (Clean (R := R))
  | asking s kept t todo =>
    inferInstanceAs (Decidable (∀ cause ∈ (asking s kept t todo).takes, t.Clean cause))
  | idle _ | patrols .. | looping .. => inferInstanceAs (Decidable True)

end Conf

/-- The WAIT ticks of the robot that count, since it has had its path. -/
def waitsSince (robot : String) : Past R → Nat
  | [] => 0
  | (c, a) :: past =>
    if c.installs a = some robot then 0
    else waitsSince robot past + if c.waits = some robot then 1 else 0

variable {p : Setup R} {c c' : Conf R} {a : Action R} {past : Past R}

theorem waitsSince_kept {robot : String} (old : c.installs a ≠ some robot) :
    waitsSince robot past ≤ waitsSince robot ((c, a) :: past) := by
  rw [waitsSince, if_neg old]
  omega

/-- The counters of the tasks are not ahead of their WAIT ticks. -/
def Metered (s : FleetNode R) (past : Past R) : Prop :=
  ∀ t ∈ s.tasks, t.waitTicks ≤ waitsSince t.robot past

theorem Looked.waitTicks {u t : ActiveTask R} (h : Looked c u t) : t.robot = u.robot ∧
    (t.waitTicks = 0 ∨ c.laps .go = none ∧ t.waitTicks = u.waitTicks) := by
  cases h with
  | same nolap => exact ⟨rfl, .inr ⟨nolap, rfl⟩⟩
  | passed | lapped => exact ⟨rfl, .inl rfl⟩

theorem Recruits.metered {s s' : FleetNode R} (h : Recruits s (c.enlists a) s')
    (installs : c.installs a = (c.enlists a).map (·.1)) (hl : Ledger s') (hs : Metered s past) :
    Metered s' ((c, a) :: past) := by
  intro t ht
  have reset {u : ActiveTask R} (fresh : u.Fresh) : u.waitTicks = 0 := by
    rw [fresh]
    rfl
  rcases h.tasks t ht with hold | fresh
  · by_cases hnew : c.installs a = some t.robot
    · -- the task of the robot is the one that has just been made
      rw [installs] at hnew
      obtain ⟨⟨robot, path⟩, hstart, hrobot⟩ := Option.map_eq_some_iff.mp hnew
      obtain ⟨u, hu, hr, fresh⟩ := h.started robot path hstart
      obtain rfl := hl.eq_of_robot hu ht (hr.trans hrobot)
      rw [reset fresh]
      exact Nat.zero_le _
    · exact (hs t hold).trans (waitsSince_kept hnew)
  · rw [reset fresh]
    exact Nat.zero_le _

/-- A step of the timer at the task `t` leaves the counters of the others. -/
theorem Metered.others {s : FleetNode R} {t : ActiveTask R} {rest : List (ActiveTask R)}
    (hs : Metered s past) (hl : Ledger s) (head : s.tasks = t :: rest)
    (own : ∀ robot, c.installs a = some robot → robot = t.robot) :
    ∀ u ∈ rest, u.waitTicks ≤ waitsSince u.robot ((c, a) :: past) := by
  intro u hu
  have hne := hl.robot_ne_head head hu
  have hmem : u ∈ s.tasks := by
    rw [head]
    exact List.mem_cons_of_mem _ hu
  exact (hs u hmem).trans (waitsSince_kept fun hown => hne (own _ hown))

/-- Back in the loop, with the task behind those that the tick has been at. -/
theorem Metered.kept {s : FleetCore R} {kept todo : List (ActiveTask R)} {t : ActiveTask R}
    (others : ∀ u ∈ todo ++ kept, u.waitTicks ≤ waitsSince u.robot past)
    (own : t.waitTicks ≤ waitsSince t.robot past) :
    Metered (Conf.looping s (kept ++ [t]) todo).node past := by
  intro u hu
  rw [Conf.node_kept] at hu
  rcases List.mem_append.mp hu with hu | hu
  · exact others u hu
  · exact List.mem_singleton.mp hu ▸ own

theorem Looked.metered {s : FleetCore R} {kept todo : List (ActiveTask R)} {t u : ActiveTask R}
    (hc : c = .looping s kept (t :: todo)) (h : Looked c (FleetCore.observe (s.robot t.robot) t) u)
    (hs : Metered c.node past) : u.waitTicks ≤ waitsSince u.robot ((c, .go) :: past) := by
  obtain ⟨hr, hzero | ⟨nolap, hsame⟩⟩ := h.waitTicks
  · rw [hzero]
    exact Nat.zero_le _
  · have hold : c.installs .go ≠ some u.robot := by
      subst hc
      simp [Conf.installs, nolap]
    have ht : t ∈ c.node.tasks := by
      simp [hc, Conf.node]
    rw [hsame, hr]
    exact (hs t ht).trans (waitsSince_kept (hr ▸ hold))

theorem Asked.metered {s : FleetCore R} {kept todo : List (ActiveTask R)} {t u : ActiveTask R}
    (hc : c = .asking s kept t todo) (h : Asked c t u) (clean : c.Clean)
    (hs : Metered c.node past) : u.waitTicks ≤ waitsSince u.robot ((c, .go) :: past) := by
  have ht : t ∈ c.node.tasks := by
    simp [hc, Conf.node]
  cases h with
  | grant => exact Nat.zero_le _
  | detour path cause takes =>
    subst hc
    have hcleared := (detoured_cleared t path cause).mpr (clean cause takes)
    rw [hcleared.waitTicks]
    exact Nat.zero_le _
  | hold stuck waited stays counted =>
    have hold : c.installs .go ≠ some t.robot := by
      subst hc
      simp [Conf.installs, stays]
    have hbefore := hs t ht
    rcases counted with hle | ⟨waits, hle⟩
    · have hlater : waitsSince t.robot past ≤ waitsSince t.robot ((c, .go) :: past) :=
        waitsSince_kept hold
      exact hle.trans (hbefore.trans hlater)
    · rw [waitsSince, if_neg hold, if_pos waits]
      exact hle.trans (Nat.add_le_add_right hbefore 1)

/-- In the loop over the tasks, only the task that is looked at gets a path. -/
theorem installs_looping {s : FleetCore R} {kept todo : List (ActiveTask R)} {t : ActiveTask R}
    {robot : String} (h : (Conf.looping s kept (t :: todo)).installs .go = some robot) :
    robot = t.robot := by
  obtain ⟨⟨_, v, path⟩, hlap, rfl⟩ := Option.map_eq_some_iff.mp h
  obtain ⟨tv, -, hlap⟩ := Option.bind_eq_some_iff.mp hlap
  split at hlap
  · cases hlap
  split at hlap
  · obtain ⟨path', -, heq⟩ := Option.map_eq_some_iff.mp hlap
    cases heq
    rfl
  · cases hlap

theorem installs_asking {s : FleetCore R} {kept todo : List (ActiveTask R)} {t : ActiveTask R}
    {robot : String} (h : (Conf.asking s kept t todo).installs .go = some robot) :
    robot = t.robot := by
  obtain ⟨cause, -, rfl⟩ := Option.map_eq_some_iff.mp h
  rfl

theorem Turn.metered (h : Turn c a c') (hl : Ledger c.node) (hl' : Ledger c'.node)
    (clean : c.Clean) (hs : Metered c.node past) : Metered c'.node ((c, a) :: past) := by
  -- where the step gives no path, the counters are where they were
  have same {s : FleetNode R} (none : c.installs a = none) (tasks : s.tasks = c.node.tasks) :
      Metered s ((c, a) :: past) := by
    intro t ht
    rw [tasks] at ht
    exact (hs t ht).trans (waitsSince_kept (by simp [none]))
  cases h with
  | call _ recruits | patrol recruits => exact recruits.metered rfl hl' hs
  | timer | begin => exact same rfl (by simp [Conf.node])
  | report _ tasks => exact same rfl (by simp [Conf.node, tasks])
  | @fail s s' kept t todo | @complete s s' kept t todo =>
    exact hs.others (c := .looping s kept (t :: todo)) hl rfl fun _ => installs_looping
  | @drive s s' kept t t' todo _ looked =>
    have hothers := hs.others (c := .looping s kept (t :: todo)) hl rfl fun _ => installs_looping
    exact .kept hothers (looked.metered rfl hs)
  | @stand s s' kept t t' todo _ looked =>
    have hothers := hs.others (c := .looping s kept (t :: todo)) hl rfl fun _ => installs_looping
    exact List.forall_mem_cons.mpr ⟨looked.metered rfl hs, hothers⟩
  | @ask s s' kept t t' todo _ asked =>
    have hothers := hs.others (c := .asking s kept t todo) hl rfl fun _ => installs_asking
    exact .kept hothers (asked.metered rfl clean hs)

/-- As long as every detour is taken by a task with nothing left to reset, the counters count the
WAIT ticks since the path was installed. -/
theorem reach_metered {m : Conf R × Past R}
    (hm : (ticks p).traced.Reach (fun m a => a.With Callback.Offers ∧ m.1.Clean) m) :
    Metered m.1.node m.2 := by
  have ledger (m : Conf R × Past R)
      (hm : (ticks p).traced.Reach (fun m a => a.With Callback.Offers ∧ m.1.Clean) m) :
      m.1.Sound ∧ Ledger m.1.node :=
    ⟨traced_sound hm, traced_ledger (fun _ _ h => h.1) hm⟩
  refine (hm.assuming ledger).invariant (P := fun m => Metered m.1.node m.2) ?_ ?_
  · intro t ht
    simp [ticks, Machine.traced, Conf.node, FleetNode.start] at ht
  · rintro ⟨c, past⟩ a ⟨c', past'⟩ ⟨⟨offers, clean⟩, hsound, hl⟩ hstep hP
    obtain ⟨hstep, rfl⟩ := Machine.traced_step hstep
    have hl' := ledger_step offers hstep hsound hl
    exact (step_turn hstep).metered hl hl' clean hP

theorem Asked.due {t u : ActiveTask R} (h : Asked c t u) (takes : c.takes = some .timed) :
    kRerouteWaitTicks ≤ t.waitTicks + 1 := by
  cases h with
  | grant stays | hold _ _ stays =>
    rw [stays] at takes
    cases takes
  | detour path cause takes' timed => exact timed (Option.some.inj (takes'.symm.trans takes))

section Request

variable {s : FleetCore R} {t : ActiveTask R}

/-- Without a grant no vertex is looked up, and the request returns. -/
theorem request_returns (refused : (s.ask t).1 ≠ .grant) :
    ∃ s' t', s.request t = some (s', t') := by
  unfold FleetCore.request
  unfold FleetCore.ask at refused
  generalize s.requestMove t.robot t.cur t.next (s.computePriority t.robot t) = out at refused ⊢
  obtain ⟨decision, s₁⟩ := out
  cases decision with
  | grant => exact absurd rfl refused
  | deadlock | wait => exact ⟨_, _, rfl⟩

/-- The request that leads to a detour. -/
theorem takes_request {kept todo : List (ActiveTask R)} {cause : Detour}
    (takes : (Conf.asking s kept t todo).takes = some cause) :
    ∃ s' path, s.request t = some (s', t.detoured path cause) := by
  have refused : (s.ask t).1 ≠ .grant := by
    intro granted
    simp [Conf.takes, granted] at takes
  obtain ⟨s', t', hrequest⟩ := request_returns refused
  obtain ⟨-, asked⟩ := request_asked kept todo hrequest
  cases asked with
  | grant stays | hold _ _ stays =>
    rw [takes] at stays
    cases stays
  | detour path cause' takes' =>
    obtain rfl := Option.some.inj (takes.symm.trans takes')
    exact ⟨s', path, hrequest⟩

end Request

/-- A detour leaves the flags and the counters of its task as they are at the start of a path
exactly if the task has nothing left that the branch does not reset. In a run in which that has
been so for all the detours before, a detour for a long WAIT comes after `kRerouteWaitTicks` WAIT
ticks of the path. -/
theorem detours_clear (p : Setup R) :
    (∀ (s : FleetCore R) kept t todo cause, (Conf.asking s kept t todo).takes = some cause →
      ∃ s' t', (Conf.asking s kept t todo).step .go = some (.looping s' (kept ++ [t']) todo) ∧
        t'.robot = t.robot ∧ (t'.Cleared ↔ t.Clean cause)) ∧
    ∀ m, (ticks p).traced.Reach (fun m a => a.With Callback.Offers ∧ m.1.Clean) m →
      ∀ s kept t todo, m.1 = .asking s kept t todo → m.1.takes = some .timed →
        kRerouteWaitTicks ≤ waitsSince t.robot m.2 + 1 := by
  constructor
  · intro s kept t todo cause takes
    obtain ⟨s', path, hrequest⟩ := takes_request takes
    refine ⟨s', t.detoured path cause, ?_, ActiveTask.detoured_robot .., detoured_cleared ..⟩
    exact Option.map_eq_some_iff.mpr ⟨_, hrequest, rfl⟩
  · rintro ⟨c, past⟩ hm s kept t todo rfl takes
    obtain ⟨s', path, hrequest⟩ := takes_request takes
    have hmetered := reach_metered hm t List.mem_cons_self
    have hdue := (request_asked kept todo hrequest).2.due takes
    exact hdue.trans (Nat.add_le_add_right hmetered 1)

/-- A robot whose way is closed by a stopped robot from the start takes the detour with its counters
at zero. One that waits behind a robot on its way, which does not get on, takes it after 33 WAIT
ticks. -/
theorem detours_clear_stopped : (∃ m : Conf ℚ × Past ℚ,
    (ticks (Yard.setup false [])).traced.Reach (fun m a => a.With Callback.Offers ∧ m.1.Clean) m ∧
    ∃ s kept t todo s' t', m.1 = .asking s kept t todo ∧ m.1.takes = some .stopped ∧
      m.1.step .go = some (.looping s' (kept ++ [t']) todo) ∧ t'.robot = t.robot ∧ t'.Cleared) ∧
    ∃ m : Conf ℚ × Past ℚ,
    (ticks (Yard.setup false [])).traced.Reach (fun m a => a.With Callback.Offers ∧ m.1.Clean) m ∧
    ∃ s kept t todo, m.1 = .asking s kept t todo ∧ m.1.takes = some .timed ∧
      kRerouteWaitTicks ≤ waitsSince t.robot m.2 + 1 := by
  have offers (as : List (Action ℚ)) : ∀ a ∈ as, ∀ m : Conf ℚ × Past ℚ,
      a.With Callback.Steady ∧ m.1.Clean → a.With Callback.Offers ∧ m.1.Clean :=
    fun _ _ _ h => ⟨h.1.mono fun _ => Callback.Steady.offers, h.2⟩
  constructor
  · obtain ⟨m, hm, hcheck⟩ := (ticks (Yard.setup false [])).traced.exists_reach_of
      (fun m a => a.With Callback.Offers ∧ m.1.Clean)
      (fun m a => a.With Callback.Steady ∧ m.1.Clean)
      (fun m => decide (m.1.takes = some .stopped ∧ m.1.Clean))
      ([.call (Yard.seen "r1" 0 0), .call (Yard.seen "r2" 10 0), .call (Yard.mode "r2" "STOP"),
        .call (Yard.send "r1" "2")] ++ Yard.taken .timer 2) (offers _) (by decide +kernel)
    obtain ⟨takes, clean⟩ := of_decide_eq_true hcheck
    cases hc : m.1 with
    | idle | patrols | looping =>
      rw [hc] at takes
      cases takes
    | asking s kept t todo =>
      rw [hc] at takes clean
      obtain ⟨s', t', hstep, hr, hclear⟩ :=
        (detours_clear (Yard.setup false [])).1 s kept t todo .stopped takes
      refine ⟨m, hm, s, kept, t, todo, s', t', hc, hc ▸ takes, hc ▸ hstep, hr, ?_⟩
      exact hclear.mpr (clean .stopped takes)
  · obtain ⟨m, hm, hcheck⟩ := (ticks (Yard.setup false [])).traced.exists_reach_of
      (fun m a => a.With Callback.Offers ∧ m.1.Clean)
      (fun m a => a.With Callback.Steady ∧ m.1.Clean)
      (fun m => decide (m.1.takes = some .timed))
      ([.call (Yard.seen "b" 10 10), .call (Yard.seen "r" 0 0), .call (Yard.send "b" "0"),
        .call (Yard.send "r" "2"), .call (Yard.mode "r" "CHARGE")] ++
        Yard.taken .timer 6 ++ (List.replicate 31 (Yard.taken .timer 5)).flatten ++
        Yard.taken .timer 3) (offers _) (by decide +kernel)
    have takes := of_decide_eq_true hcheck
    cases hc : m.1 with
    | idle | patrols | looping =>
      rw [hc] at takes
      cases takes
    | asking s kept t todo =>
      exact ⟨m, hm, s, kept, t, todo, hc, takes,
        (detours_clear (Yard.setup false [])).2 m hm s kept t todo hc takes⟩

/-- A robot that has waited for one tick behind a robot on its way, which is then stopped, starts
on its detour with that tick. -/
theorem detour_counts : ¬ ∀ (p : Setup ℚ) (c : Conf ℚ),
    (ticks p).Reach (fun _ a => a.With Callback.Steady) c → ∀ s kept t todo cause,
      c = .asking s kept t todo → c.takes = some cause → ∀ s' t',
        c.step .go = some (.looping s' (kept ++ [t']) todo) → t'.Cleared := by
  intro h
  obtain ⟨c, hc, hcheck⟩ := (ticks (Yard.setup false [])).exists_reach
    (fun _ a => a.With Callback.Steady) (fun c => decide (c.takes = some .stopped ∧ ¬ c.Clean))
    ([.call (Yard.seen "r1" 0 0), .call (Yard.seen "r2" 10 1), .call (Yard.send "r2" "1"),
      .call (Yard.send "r1" "2")] ++ Yard.taken .timer 6 ++
      .call (Yard.mode "r2" "STOP") :: Yard.taken .timer 2)
    (by decide +kernel)
  obtain ⟨takes, unclean⟩ := of_decide_eq_true hcheck
  cases c with
  | idle | patrols | looping => cases takes
  | asking s kept t todo =>
    obtain ⟨s', path, hrequest⟩ := takes_request takes
    have hstep : (Conf.asking s kept t todo).step .go =
        some (.looping s' (kept ++ [t.detoured path .stopped]) todo) :=
      Option.map_eq_some_iff.mpr ⟨_, hrequest, rfl⟩
    have hcleared := h _ _ hc s kept t todo _ rfl takes _ _ hstep
    have hclean := (detoured_cleared t path .stopped).mp hcleared
    apply unclean
    intro cause takes'
    obtain rfl := Option.some.inj (takes.symm.trans takes')
    exact hclean

end LibiFleet
