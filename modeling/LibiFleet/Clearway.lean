import LibiFleet.Delivery
import LibiFleet.Destinations
import LibiFleet.Turns

/-!
# A clear way

Where nobody else holds a node of its way, a robot is refused nothing and takes no detour. So
what it has been accepted for is carried out, on the path that it was accepted with.
-/

namespace LibiFleet

open FleetNode (goalOf armActionsOf)

variable {R : Type}

/-- The robot is refused a node. -/
def Event.Refuses (robot : String) : Event R → Prop
  | .moveRequest q _ _ _ decision => q = robot ∧ decision ≠ .grant
  | _ => False

/-- Since the record `log` the robot has been refused nothing, has taken no detour, and its task has
not been given up. -/
def Smooth (robot : String) (log log' : List (Event R)) : Prop :=
  ∃ events, log' = events ++ log ∧ ∀ e ∈ events, ¬ e.Refuses robot ∧ ¬ e.Hinders robot

section Smooth

variable {robot : String} {log log' log'' : List (Event R)}

theorem Smooth.refl : Smooth robot log log := ⟨[], rfl, by simp⟩

theorem Smooth.trans (h : Smooth robot log log') (h' : Smooth robot log' log'') :
    Smooth robot log log'' := by
  obtain ⟨events, rfl, calm⟩ := h
  obtain ⟨events', rfl, calm'⟩ := h'
  exact ⟨events' ++ events, (List.append_assoc ..).symm, List.forall_mem_append.mpr ⟨calm', calm⟩⟩

theorem Smooth.refusals (h : Smooth robot log log') :
    LibiFleet.refusals robot log' = LibiFleet.refusals robot log := by
  obtain ⟨events, rfl, calm⟩ := h
  have hzero : LibiFleet.refusals robot events = 0 := by
    apply List.countP_eq_zero.mpr
    intro e he
    have never := (calm e he).1
    cases e with
    | moveRequest => simpa [Event.Refuses] using never
    | _ => simp
  have happend : LibiFleet.refusals robot (events ++ log) =
      LibiFleet.refusals robot events + LibiFleet.refusals robot log := List.countP_append
  rw [happend, hzero, Nat.zero_add]

theorem Smooth.not_hindered (h : Smooth robot log log') : ¬ Hindered robot log log' := by
  obtain ⟨events, rfl, calm⟩ := h
  rintro ⟨e, older, hinders, ⟨between, rfl⟩, hmem⟩
  rw [← List.cons_append] at hmem
  have hevents : e :: between <:+ events := by
    obtain ⟨newer, heq⟩ := hmem
    rw [← List.append_assoc] at heq
    exact ⟨newer, List.append_cancel_right heq⟩
  exact (calm e (hevents.subset List.mem_cons_self)).2 hinders

end Smooth

variable [Double R]

/-- The step gives up the task of the robot, which has made no progress for too long. -/
def Conf.GivesUp (robot : String) : Conf R → Prop
  | looping s _ (t :: _) =>
    t.robot = robot ∧ kStuckTicks < (FleetCore.observe (s.robot t.robot) t).noMove
  | _ => False

instance (robot : String) : DecidablePred (Conf.GivesUp (R := R) robot)
  | .looping s _ (t :: _) => inferInstanceAs (Decidable (t.robot = robot ∧
      kStuckTicks < (FleetCore.observe (s.robot t.robot) t).noMove))
  | .idle _ | .patrols .. | .looping _ _ [] | .asking .. => inferInstanceAs (Decidable False)

/-- Nobody but the robot holds a node of the way. -/
def Conf.Clear (robot : String) (way : List Int) (c : Conf R) : Prop :=
  ∀ v ∈ way, c.node.traffic.FreeFor v robot

instance (robot : String) (way : List Int) : DecidablePred (Conf.Clear (R := R) robot way) :=
  fun c => inferInstanceAs (Decidable (∀ v ∈ way, c.node.traffic.FreeFor v robot))

section Steps

variable {c c' : Conf R} {a : Action R} {robot : String} {s s' : FleetNode R} {u : ActiveTask R}

/-- What an effect adds to the record of a robot whose next node is free. -/
theorem Effect.smooth (h : Effect c a robot s s') (hl : Ledger c.node)
    (named : c.node.traffic.Named) (free : ¬ c.Disturbs u.robot a) (hu : u ∈ c.node.tasks)
    (clear : c.node.traffic.FreeFor u.next u.robot) : ∃ events, s'.log = events ++ s.log ∧
      ∀ e ∈ events, ¬ e.Refuses u.robot ∧ (e.Hinders u.robot → e.fails = true) := by
  by_cases hr : robot = u.robot
  · have undisturbed : c.cancels a ≠ some robot := fun hc => free (.inl (hr ▸ hc))
    have unset : a.sets robot ≠ true := fun hset => free (.inr (hr ▸ hset))
    -- the task of the robot is the one that makes its request
    have granted {v : ActiveTask R} {rest : List (ActiveTask R)} (here : s = c.node)
        (head : s.tasks = v :: rest) (hv : robot = v.robot) : (s.ask v).1 = .grant := by
      subst here
      obtain rfl : u = v := hl.eq_head head hu (hr.symm.trans hv)
      exact (ReservationDeadlock.grant_iff named).mpr clear
    cases h with
    | sighting | battery | touch | mode | look | drive | reload | swap =>
      exact ⟨[], rfl, by simp⟩
    | cancel _ called | vacate _ _ called => exact absurd called undisturbed
    | stopClaim called =>
      rw [called] at unset
      simp [Action.sets] at unset
    | dispatch here _ _ _ _ _ start _ _ _ _ called =>
      subst here called
      exact absurd (congrArg (Option.map Prod.fst) start) undisturbed
    | patrol here _ _ jobless => exact absurd hr.symm (jobless u (here ▸ hu))
    | fail => exact ⟨[_, _], rfl, by simp [Event.Refuses, Event.Hinders, Event.fails]⟩
    | pass => exact ⟨[_], rfl, by simp [Event.Refuses, Event.Hinders]⟩
    | lap => exact ⟨[_, _], rfl, by simp [Event.Refuses, Event.Hinders]⟩
    | complete => exact ⟨[_, _, _], rfl, by simp [Event.Refuses, Event.Hinders]⟩
    | @grant _ v _ _ _ _ _ grants =>
      refine ⟨[_, .moveRequest v.robot v.cur v.next (s.computePriority v.robot v) (s.ask v).1],
        rfl, ?_⟩
      simp [Event.Refuses, Event.Hinders, grants]
    | reroute _ cause here head _ refused =>
      exact absurd (granted here head rfl) (Detour.refused refused)
    | hold _ _ _ here head _ refused => exact absurd (granted here head rfl) refused
    | publish events reports =>
      refine ⟨events, rfl, ?_⟩
      intro e he
      have report := reports e he
      cases e with
      | occupancy | routes | goals => exact ⟨id, False.elim⟩
      | _ => cases report
  · obtain ⟨events, requests, hlog, aside, hrequests⟩ := h.record
    refine ⟨events ++ requests, by rw [hlog, List.append_assoc], ?_⟩
    intro e he
    rcases List.mem_append.mp he with he | he
    · have about := aside e he
      cases e with
      | moveRequest => cases about
      | reroute => exact ⟨id, fun hq => absurd (about.symm.trans hq) hr⟩
      | taskState => exact ⟨id, fun hq => absurd (about.symm.trans hq.1) hr⟩
      | _ => exact ⟨id, False.elim⟩
    · rcases hrequests with rfl | ⟨src, dst, p, rfl⟩
      · cases he
      · obtain rfl := List.mem_singleton.mp he
        exact ⟨fun hq => hr hq.1, False.elim⟩

theorem Effects.smooth (h : Effects c a s s') (hl : Ledger c.node) (named : c.node.traffic.Named)
    (free : ¬ c.Disturbs u.robot a) (hu : u ∈ c.node.tasks)
    (clear : c.node.traffic.FreeFor u.next u.robot) : ∃ events, s'.log = events ++ s.log ∧
      ∀ e ∈ events, ¬ e.Refuses u.robot ∧ (e.Hinders u.robot → e.fails = true) := by
  induction h with
  | refl => exact ⟨[], rfl, by simp⟩
  | tail _ he ih =>
    obtain ⟨events, hlog, calm⟩ := ih
    obtain ⟨events', hlog', calm'⟩ := he.smooth hl named free hu clear
    refine ⟨events' ++ events, by rw [hlog', hlog, List.append_assoc], ?_⟩
    exact List.forall_mem_append.mpr ⟨calm', calm⟩

/-- A step in which nobody is in the way of the robot, and its task is not given up. -/
theorem step_smooth (h : c.step a = some c') (hs : c.Sound) (hl : Ledger c.node)
    (named : c.node.traffic.Named) (free : ¬ c.Disturbs u.robot a) (hu : u ∈ c.node.tasks)
    (clear : c.node.traffic.FreeFor u.next u.robot) (goesOn : ¬ c.GivesUp u.robot) :
    Smooth u.robot c.node.log c'.node.log := by
  obtain ⟨events, hlog, calm⟩ := (step_effects hs h).smooth hl named free hu clear
  refine ⟨events, hlog, ?_⟩
  intro e he
  obtain ⟨never, failed⟩ := calm e he
  refine ⟨never, ?_⟩
  intro hinders
  have hfails := failed hinders
  have hnews : e ∈ c.node.news c'.node.toFleetCore := FleetCore.news_eq hlog ▸ he
  cases e with
  | taskState id state robot =>
    obtain ⟨hr, rfl⟩ := hinders
    obtain ⟨s, kept, t, todo, rfl, -, ht, stuck⟩ := (step_turn h).failed hnews
    exact goesOn ⟨ht.trans hr, stuck⟩
  | _ => cases hfails

end Steps

variable {p : Setup R}

/-- The robot has no trouble on its way, until its task is done. -/
theorem smooth_run {t : ActiveTask R} {s : FleetNode R} {c : Conf R} {way : Past R}
    (hs : (ticks p).Reach (fun _ a => a.With Callback.Plain) (.idle s))
    (ht : t ∈ s.tasks) (dispatched : t.patrol = false)
    (run : (ticks p).Run (fun c a => (a.With Callback.Plain ∧ ¬ c.Disturbs t.robot a) ∧
      c.Clear t.robot (t.path.drop t.idx) ∧ ¬ c.GivesUp t.robot) (.idle s) way c) :
    Headway t s.log (served t.robot way) c ∧
      (Delivered t s.log c.node.log ∨ Smooth t.robot s.log c.node.log) := by
  have noLap : t.patrol = true → False := fun h => Bool.false_ne_true (dispatched.symm.trans h)
  have headway {way c} (run : (ticks p).Run (fun c a => (a.With Callback.Plain ∧
      ¬ c.Disturbs t.robot a) ∧ c.Clear t.robot (t.path.drop t.idx) ∧ ¬ c.GivesUp t.robot)
      (.idle s) way c) : Headway t s.log (served t.robot way) c :=
    (headway_run hs ht (run.mono fun _ _ h => ⟨h.1, fun h => (noLap h).elim⟩)).2
  refine ⟨headway run, ?_⟩
  induction run with
  | refl => exact .inr .refl
  | @tail way c c' a hrun ok hstep ih =>
    have hc := hs.run (fun _ _ h => h.1.1) hrun
    have hsound : c.Sound := reach_sound hc
    have hw : Wellformed c.node := reach_wellformed (fun _ _ h => h) hc
    have grows : c.node.log <:+ c'.node.log := ⟨_, (step_effects hsound hstep).grows.symm⟩
    rcases ih with done | smooth
    · exact .inl (done.mono grows)
    cases headway hrun with
    | hindered hno => exact absurd hno smooth.not_hindered
    | delivered _ done => exact .inl (done.mono grows)
    | goes u hu =>
      obtain ⟨events, -, along⟩ := hu.came
      obtain ⟨hpath, hidx, -⟩ := along.dispatched dispatched
      have hnext : u.next ∈ t.path.drop t.idx := by
        apply List.mem_of_getElem? (i := u.idx - t.idx)
        rw [List.getElem?_drop, Nat.add_sub_cancel' hidx, ← hpath, (hw.placed u hu.mem).next_eq]
      obtain ⟨⟨-, free⟩, clear, goesOn⟩ := ok
      have hr := hu.same.robot
      rw [← hr] at free clear goesOn smooth ⊢
      exact .inr (smooth.trans
        (step_smooth hstep hsound hw.ledger hw.named free hu.mem (clear _ hnext) goesOn))

/-- The task of a submission that is accepted. -/
theorem onSubmit_enlists {s s₁ : FleetNode R} {req : SubmitRequest} {res : SubmitResponse}
    {robot : String} {path : List Int} (h : s.onSubmit req = some (s₁, res))
    (sent : s.dispatches req = some (robot, path)) : res.accepted = true ∧
      ∃ t ∈ s₁.tasks, t.id = res.taskId ∧ t.robot = robot ∧ t.path = path ∧ t.idx = 1 ∧
        t.patrol = false := by
  unfold FleetNode.dispatches at sent
  unfold FleetNode.onSubmit at h
  dsimp only at h
  split at sent
  · cases sent
  rename_i goal
  rw [if_neg goal] at h
  split at sent
  · rename_i chosen
    split at sent
    · rename_i route
      obtain ⟨rfl, rfl⟩ := Prod.mk.inj (Option.some.inj sent)
      rw [chosen, Option.bind_eq_bind, Option.bind_some] at h
      dsimp only at h
      rw [route, Option.bind_eq_bind, Option.bind_some] at h
      obtain ⟨rfl, rfl⟩ := Prod.mk.inj (Option.some.inj h)
      exact ⟨rfl, _, FleetNode.mem_enlist.mpr (.inr rfl), rfl, rfl, rfl, rfl, rfl⟩
    · cases sent
  · cases sent

/-- A submission that is accepted is carried out: if nobody disturbs the robot or holds a node of
its way, and it does not stand still for too long, it drives along the path it has been accepted
with, and the submission is announced as COMPLETED within a tick for each vertex. -/
theorem submission_delivered {s s₁ s' : FleetNode R} {req : SubmitRequest} {res : SubmitResponse}
    {robot : String} {path : List Int} {way : Past R}
    (hs : (ticks p).Reach (fun _ a => a.With Callback.Plain) (.idle s))
    (submitted : s.onSubmit req = some (s₁, res)) (sent : s.dispatches req = some (robot, path))
    (run : (ticks p).Run (fun c a => (a.With Callback.Plain ∧ ¬ c.Disturbs robot a) ∧
      c.Clear robot path.tail ∧ ¬ c.GivesUp robot) (.idle s₁) way (.idle s'))
    (long : path.length ≤ served robot way) : res.accepted = true ∧
      ∃ events, .taskState res.taskId "COMPLETED" robot :: (events ++ s₁.log) <:+ s'.log ∧
        (arrivals robot events).reverse = path.tail ∧ path.getLast? = some (goalOf req) := by
  obtain ⟨accepted, t, ht, hid, rfl, rfl, hidx, dispatched⟩ := onSubmit_enlists submitted sent
  have hs₁ : (ticks p).Reach (fun _ a => a.With Callback.Plain) (.idle s₁) := by
    refine .step (a := .call (.submit req)) hs ⟨trivial, trivial⟩ ?_
    simp [ticks, Conf.step, FleetNode.handle, submitted]
  have htail : t.path.tail = t.path.drop t.idx := by rw [hidx, List.drop_one]
  rw [htail] at run ⊢
  obtain ⟨hway, htrip⟩ := smooth_run hs₁ ht dispatched run
  have hs' := hs₁.run (fun _ _ h => h.1.1) run
  have hw' : Wellformed s' := reach_wellformed (fun _ _ h => h) hs'
  have hplaced := ((reach_wellformed (fun _ _ h => h) hs₁ : Wellformed s₁).placed t ht).2
  have done : Delivered t s₁.log s'.log := by
    rcases htrip with done | smooth
    · exact done
    · refine (hway.delivered_of hw' dispatched ?_).resolve_left smooth.not_hindered
      have hsame : refusals t.robot s'.log = refusals t.robot s₁.log := smooth.refusals
      omega
  obtain ⟨events, hmem, harrivals⟩ := done
  exact ⟨accepted, events, hid ▸ hmem, harrivals, dispatches_last sent⟩

/-- Down the corridor, while another robot drives on the way around it. -/
theorem submission_delivered_corridor : ∃ s₁ s' : FleetNode ℚ, ∃ events,
    .taskState "T-2" "COMPLETED" "r1" :: (events ++ s₁.log) <:+ s'.log ∧
      (arrivals "r1" events).reverse = [1, 2] := by
  let M := ticks (Yard.setup false [])
  let free (c : Conf ℚ) (a : Action ℚ) : Prop :=
    ((a.With Callback.Plain ∧ ¬ c.Disturbs "r1" a) ∧ c.Clear "r1" [1, 2] ∧ ¬ c.GivesUp "r1") ∧
      (a.timers = 1 → c.Ready "r1")
  let drive := Yard.taken .timer 6 ++ .call (Yard.seen "r1" 10 0) :: Yard.taken .timer 5 ++
    .call (Yard.seen "r1" 20 0) :: Yard.taken .timer 4
  obtain ⟨s, hs, hcheck⟩ := exists_rests (Yard.setup false []) (fun _ a => a.With Callback.Plain)
    (fun s => (s.onSubmit ⟨"2", "", "r1", 0, 0⟩).any fun out =>
      decide (s.dispatches ⟨"2", "", "r1", 0, 0⟩ = some ("r1", [0, 1, 2]) ∧ out.2.taskId = "T-2") &&
        (M.runWhen free (.idle out.1) drive).any (Conf.rests fun _ => true))
    [.call (Yard.seen "r1" 0 0), .call (Yard.seen "r2" 0 (-10)), .call (Yard.send "r2" "4")]
    (by decide +kernel)
  obtain ⟨⟨s₁, res⟩, submitted, hcheck⟩ := (Option.any_eq_true _ _).mp hcheck
  obtain ⟨hsent, hrun⟩ := Bool.and_eq_true_iff.mp hcheck
  obtain ⟨sent, hid⟩ := of_decide_eq_true hsent
  obtain ⟨s', way, run, hway, -⟩ := run_rests hrun
  have hserved : served "r1" way = 3 := by
    rw [served_all run, hway]
    decide +kernel
  obtain ⟨-, events, hmem, harrivals, -⟩ := submission_delivered hs submitted sent
    (run.mono fun _ _ h => h.1) hserved.ge
  exact ⟨s₁, s', events, hid ▸ hmem, harrivals⟩

end LibiFleet
