import LibiFleet.Closing
import LibiFleet.Delivery
import LibiFleet.Stalling

/-!
# Patrols go round and round

A robot in PATROL mode has a task at the end of every tick. On patrol, if it gets to where it is
sent, it comes to the end of its path, and then goes around the route for as long as nobody
disturbs it.
-/

namespace LibiFleet

open Std (ExtTreeMap)

variable {R : Type}

section Route

variable {route : List Int} {v w : Int} {i : Nat}

theorem around_length : (around route v).length = route.length + 1 := by
  rw [around, List.length_append, List.length_rotate, List.length_singleton]

/-- A lap without its beginning is the route from the vertex after it. -/
theorem around_tail (hv : v ∈ route) :
    (around route v).drop 1 = route.rotate (route.idxOf v + 1) := by
  have hlt := List.idxOf_lt_length_iff.mpr hv
  have hhead : (route.rotate (route.idxOf v)).head? = some v := by
    rw [List.head?_rotate hlt, List.getElem?_eq_getElem hlt, List.getElem_idxOf hlt]
  obtain ⟨rest, hrest⟩ := List.head?_eq_some_iff.mp hhead
  rw [around, ← List.rotate_rotate, hrest, List.rotate_cons_succ, List.rotate_zero]
  rfl

theorem around_last (here : (around route v)[i]? = some w)
    (last : (around route v).length ≤ i + 1) : w = v := by
  have hi : i = (route.rotate (route.idxOf v)).length := by
    have hlt := (List.getElem?_eq_some_iff.mp here).1
    rw [around, List.length_append, List.length_singleton] at hlt last
    omega
  rw [around, hi, List.getElem?_concat_length] at here
  exact (Option.some.inj here).symm

/-- So many times around the route, from the vertex after `v`. -/
def rounds (route : List Int) (v : Int) (n : Nat) : List Int :=
  (List.replicate n (route.rotate (route.idxOf v + 1))).flatten

theorem rounds_succ (n : Nat) :
    rounds route v (n + 1) = rounds route v n ++ route.rotate (route.idxOf v + 1) := by
  rw [rounds, List.replicate_succ', List.flatten_append, List.flatten_singleton, rounds]

theorem rounds_length (n : Nat) : (rounds route v n).length = n * route.length := by
  simp [rounds, List.length_flatten]

theorem rounds_mono {n m : Nat} (h : n ≤ m) : rounds route v n <+: rounds route v m := by
  induction h with
  | refl => exact List.prefix_refl _
  | step _ ih =>
    rw [rounds_succ]
    exact ih.trans (List.prefix_append ..)

end Route

section Along

variable {t : ActiveTask R} {route seen path : List Int} {idx : Nat}

/-- A patrol is on its first path, or it has come to the end of it and is on a later lap. -/
inductive Touring (t : ActiveTask R) (route seen path : List Int) (idx : Nat) : Prop
  | first (kept : path = t.path) (came : t.idx ≤ idx)
      (seen : seen.reverse = (t.path.drop t.idx).take (idx - t.idx))
  | later (v : Int) (n : Nat) (stop : v ∈ route) (last : t.path.getLast? = some v)
      (lap : path = around route v) (begun : 1 ≤ idx)
      (seen : seen.reverse =
        t.path.drop t.idx ++ rounds route v n ++ (path.drop 1).take (idx - 1))

theorem Along.touring (h : Along t route seen path idx) : Touring t route seen path idx := by
  induction h with
  | start => exact .first rfl le_rfl (by simp)
  | @pass seen path idx v _ here _ ih =>
    cases ih with
    | first kept came hseen =>
      subst kept
      have hnext : (t.path.drop t.idx)[idx - t.idx]? = some v := by
        rw [List.getElem?_drop, Nat.add_sub_cancel' came, here]
      refine .first rfl (Nat.le_succ_of_le came) ?_
      rw [List.reverse_cons, hseen, Nat.succ_sub came, take_next hnext]
    | later w n stop last lap begun hseen =>
      have hnext : (path.drop 1)[idx - 1]? = some v := by
        rw [List.getElem?_drop, Nat.add_sub_cancel' begun, here]
      refine .later w n stop last lap (Nat.le_succ_of_le begun) ?_
      rw [List.reverse_cons, hseen, List.append_assoc, take_next hnext, Nat.sub_add_cancel begun]
      rfl
  | @lap seen path idx v _ here last _ stop ih =>
    cases ih with
    | first kept came hseen =>
      subst kept
      have hnext : (t.path.drop t.idx)[idx - t.idx]? = some v := by
        rw [List.getElem?_drop, Nat.add_sub_cancel' came, here]
      have hlen : (t.path.drop t.idx).length ≤ idx - t.idx + 1 := by
        rw [List.length_drop]
        omega
      have hlast : t.path.getLast? = some v := by
        have hlt := (List.getElem?_eq_some_iff.mp here).1
        rw [List.getLast?_eq_getElem?, ← here]
        congr 1
        omega
      refine .later v 0 stop hlast rfl le_rfl ?_
      rw [List.reverse_cons, hseen, take_next hnext, List.take_of_length_le hlen]
      simp [rounds]
    | later w n stop' last' lap begun hseen =>
      subst lap
      obtain rfl := around_last here last
      have hnext : ((around route v).drop 1)[idx - 1]? = some v := by
        rw [List.getElem?_drop, Nat.add_sub_cancel' begun, here]
      have hlen : ((around route v).drop 1).length ≤ idx - 1 + 1 := by
        rw [List.length_drop]
        omega
      refine .later v (n + 1) stop last' rfl le_rfl ?_
      rw [List.reverse_cons, hseen, List.append_assoc, take_next hnext, List.take_of_length_le hlen,
        around_tail stop, rounds_succ]
      simp

/-- A patrol with enough arrivals has made its rounds. -/
theorem Along.rounds {n : Nat} (h : Along t route seen path idx) (placed : idx < path.length)
    (far : t.path.length - t.idx + n * route.length ≤ seen.length) :
    ∃ v ∈ route, t.path.getLast? = some v ∧
      t.path.drop t.idx ++ LibiFleet.rounds route v n <+: seen.reverse := by
  have hlen : seen.length = seen.reverse.length := List.length_reverse.symm
  rw [hlen] at far
  cases h.touring with
  | first kept came hseen =>
    subst kept
    rw [hseen, List.length_take] at far
    omega
  | later v m stop last lap begun hseen =>
    subst lap
    rw [around_length] at placed
    rw [hseen] at far
    rw [hseen]
    refine ⟨v, stop, last, ?_⟩
    have hm : n ≤ m := by
      simp only [List.length_append, List.length_drop, rounds_length, List.length_take] at far
      by_contra hlt
      have hmul : (m + 1) * route.length ≤ n * route.length :=
        Nat.mul_le_mul_right _ (not_le.mp hlt)
      rw [Nat.succ_mul] at hmul
      omega
    rw [List.append_assoc]
    exact (List.prefix_append_right_inj _).mpr ((rounds_mono hm).trans (List.prefix_append ..))

end Along

variable [Double R] {p : Setup R}

/-! ## Setting out -/

/-- Between the two records the task has been announced as over. -/
def Ended (t : ActiveTask R) (log log' : List (Event R)) : Prop :=
  ∃ e older, e.closes t.id t.robot = true ∧ log <:+ older ∧ e :: older <:+ log'

omit [Double R] in
theorem Ended.mono {t : ActiveTask R} {log log' log'' : List (Event R)} (h : Ended t log log')
    (hlog : log' <:+ log'') : Ended t log log'' := by
  obtain ⟨e, older, he, hbase, hmem⟩ := h
  exact ⟨e, older, he, hbase, hmem.trans hlog⟩

omit [Double R] in
theorem Ended.before {t : ActiveTask R} {log log' log'' : List (Event R)} (h : Ended t log' log'')
    (hlog : log <:+ log') : Ended t log log'' := by
  obtain ⟨e, older, he, hbase, hmem⟩ := h
  exact ⟨e, older, he, hlog.trans hbase, hmem⟩

section Tick

variable {s s' : FleetCore R} {t : ActiveTask R}

/-- A task that is gone after its turn was moving, and has been announced as over. -/
theorem settle_closes (h : s.settle t = some (s', none)) :
    t.moving = true ∧ Ended t s.log s'.log := by
  unfold FleetCore.settle at h
  dsimp only at h
  obtain ⟨tv, -, h⟩ := Option.bind_eq_some_iff.mp h
  split at h
  · rename_i stuck
    obtain ⟨rfl, -⟩ := Prod.mk.inj (Option.some.inj h)
    have moving : t.moving = true := by
      by_contra still
      simp [FleetCore.observe, still] at stuck
    obtain ⟨traffic, -, -, he⟩ := fail_eq (s.touch t.robot)
      (FleetCore.observe ((s.touch t.robot).robot t.robot) t)
    refine ⟨moving, .taskState t.id "FAILED" t.robot, s.log, by simp [Event.closes],
      List.suffix_refl _, ?_⟩
    rw [he]
    exact List.suffix_cons ..
  split at h
  · rename_i arrives
    unfold FleetCore.arrive at h
    dsimp only at h
    split at h
    · split at h
      · obtain ⟨path, -, h⟩ := Option.bind_eq_some_iff.mp h
        cases h
      · obtain ⟨rfl, -⟩ := Prod.mk.inj (Option.some.inj h)
        refine ⟨arrives.1, .taskState t.id "COMPLETED" t.robot, .arrival t.robot t.next :: s.log,
          by simp [Event.closes], List.suffix_cons .., ?_⟩
        exact List.suffix_cons ..
    · cases h
  · cases h

/-- What becomes of a task in its turn. -/
theorem taskStep_keeps {t' : Option (ActiveTask R)} (h : s.taskStep t = some (s', t')) :
    s.log <:+ s'.log ∧
      ((∃ u, t' = some u ∧ t.Continues u) ∨ t.moving = true ∧ Ended t s.log s'.log) := by
  obtain ⟨⟨s₁, t₁⟩, hsettle, h⟩ := Option.bind_eq_some_iff.mp h
  cases t₁ with
  | none =>
    obtain ⟨rfl, rfl⟩ := Prod.mk.inj (Option.some.inj h)
    obtain ⟨moving, e, older, he, hbase, hmem⟩ := settle_closes hsettle
    exact ⟨hbase.trans ((List.suffix_cons ..).trans hmem), .inr ⟨moving, e, older, he, hbase, hmem⟩⟩
  | some u =>
    rcases settle_looked [] [] hsettle with ⟨hno, -⟩ | ⟨⟨events, hlog, -⟩, looked⟩
    · cases hno
    have seen := (looked u rfl).sameTrack
    have same : t.Continues u := ⟨seen.robot, seen.id, seen.patrol, seen.startSeq⟩
    dsimp only at h
    split at h
    · obtain ⟨rfl, rfl⟩ := Prod.mk.inj (Option.some.inj h)
      exact ⟨⟨events, hlog.symm⟩, .inl ⟨u, rfl, same⟩⟩
    · obtain ⟨⟨s₂, u'⟩, hrequest, h⟩ := Option.bind_eq_some_iff.mp h
      obtain ⟨rfl, rfl⟩ := Prod.mk.inj (Option.some.inj h)
      obtain ⟨⟨events', hlog', -⟩, asked⟩ := request_asked [] [] hrequest
      refine ⟨⟨events' ++ events, ?_⟩, .inl ⟨u', rfl, same.trans asked.sameTrack.toContinues⟩⟩
      rw [hlog', hlog, List.append_assoc]

theorem taskLoop_keeps {todo : List (ActiveTask R)} : ∀ {s s' : FleetCore R}
    {kept tasks : List (ActiveTask R)}, s.taskLoop kept todo = some (s', tasks) →
    s.log <:+ s'.log ∧ (∀ t ∈ kept, t ∈ tasks) ∧
      ∀ t ∈ todo, (∃ u ∈ tasks, t.Continues u) ∨ t.moving = true ∧ Ended t s.log s'.log := by
  induction todo with
  | nil =>
    intro s s' kept tasks h
    obtain ⟨rfl, rfl⟩ := Prod.mk.inj (Option.some.inj h)
    exact ⟨List.suffix_refl _, fun _ ht => ht, by simp⟩
  | cons t todo ih =>
    intro s s' kept tasks h
    obtain ⟨⟨s₁, t'⟩, hstep, h⟩ := Option.bind_eq_some_iff.mp h
    obtain ⟨grows, turn⟩ := taskStep_keeps hstep
    obtain ⟨grows', hkept, htodo⟩ := ih h
    refine ⟨grows.trans grows', fun u hu => hkept u (List.mem_append_left _ hu), ?_⟩
    rw [List.forall_mem_cons]
    constructor
    · rcases turn with ⟨u, rfl, same⟩ | ⟨moving, closed⟩
      · exact .inl ⟨u, hkept u (by simp), same⟩
      · exact .inr ⟨moving, closed.mono grows'⟩
    · intro u hu
      rcases htodo u hu with hgoes | ⟨moving, closed⟩
      · exact .inl hgoes
      · exact .inr ⟨moving, closed.before grows⟩

end Tick

/-- The turn of one robot in the loop that starts patrols. -/
theorem patrolStep_starts {s s' : FleetNode R} {key : String} (hl : Ledger s)
    (known : key ∈ s.robots) (h : s.patrolStep key = some s') :
    s.log <:+ s'.log ∧ (∀ t ∈ s.tasks, t ∈ s'.tasks) ∧ s'.robotMode = s.robotMode ∧
      (s.modeOf key = .patrol → ∃ t ∈ s'.tasks, t.robot = key) ∧
      ∀ t ∈ s'.tasks, t ∈ s.tasks ∨ t.moving = false ∧ t.patrol = true := by
  obtain ⟨hname, hbusy⟩ := hl.entry known
  unfold FleetNode.patrolStep at h
  dsimp only at h
  rw [hname] at h
  split at h
  · rename_i away
    obtain rfl := Option.some.inj h
    refine ⟨List.suffix_refl _, fun _ ht => ht, rfl, ?_, fun _ ht => .inl ht⟩
    intro mode
    exact hbusy.mp (away.resolve_right (not_not.mpr mode))
  split at h
  · rename_i tasked
    obtain rfl := Option.some.inj h
    refine ⟨List.suffix_refl _, fun _ ht => ht, rfl, ?_, fun _ ht => .inl ht⟩
    intro _
    simpa using tasked
  obtain ⟨path, -, h⟩ := Option.bind_eq_some_iff.mp h
  obtain rfl := Option.some.inj h
  refine ⟨List.suffix_append [_, _] _, ?_, rfl, ?_, ?_⟩
  · exact fun t ht => FleetNode.mem_enlist.mpr (.inl ht)
  · exact fun _ => ⟨_, FleetNode.mem_enlist.mpr (.inr rfl), hname⟩
  · intro t ht
    rcases FleetNode.mem_enlist.mp ht with ht | rfl
    · exact .inl ht
    · exact .inr ⟨rfl, rfl⟩

/-- The loop that starts patrols leaves no robot in PATROL mode without a task. -/
theorem patrols_start {keys : List String} : ∀ {s s' : FleetNode R},
    (ticks p).Reach (fun _ a => a.With Callback.Offers) (.patrols s keys) →
    keys.foldlM FleetNode.patrolStep s = some s' →
    s.log <:+ s'.log ∧ (∀ t ∈ s.tasks, t ∈ s'.tasks) ∧
      (∀ k ∈ keys, s.modeOf k = .patrol → ∃ t ∈ s'.tasks, t.robot = k) ∧
      ∀ t ∈ s'.tasks, t ∈ s.tasks ∨ t.moving = false ∧ t.patrol = true := by
  induction keys with
  | nil =>
    intro s s' _ h
    obtain rfl := Option.some.inj h
    exact ⟨List.suffix_refl _, fun _ ht => ht, by simp, fun _ ht => .inl ht⟩
  | cons key keys ih =>
    intro s s' hc h
    rw [List.foldlM_cons] at h
    obtain ⟨s₁, hstep, h⟩ := Option.bind_eq_some_iff.mp h
    obtain ⟨grows', kept', there', new'⟩ := ih (reach_go hc (by simp [Conf.next, hstep])) h
    have hl : Ledger s := reach_ledger (fun _ _ h => h) hc
    have known : key ∈ s.robots := ((reach_sound hc : Conf.Sound _) key List.mem_cons_self).1
    obtain ⟨grows, kept, modes, there, new⟩ := patrolStep_starts hl known hstep
    refine ⟨grows.trans grows', fun t ht => kept' t (kept t ht), ?_, ?_⟩
    · rw [List.forall_mem_cons]
      constructor
      · intro mode
        obtain ⟨t, ht, hr⟩ := there mode
        exact ⟨t, kept' t ht, hr⟩
      · intro k hk mode
        rw [FleetCore.modeOf, ← modes] at mode
        exact there' k hk mode
    · intro t ht
      rcases new' t ht with ht | fresh
      · exact new t ht
      · exact .inr fresh

/-- After every tick a robot in PATROL mode has a task, and a patrol if it had none before, but in
the tick in which its task comes to an end. -/
theorem patrols_resume {s s' : FleetNode R} {k : String}
    (hs : (fleet p).Reach (fun _ cb => cb.Offers) s) (tick : s.onTimer = some s')
    (route : 2 ≤ s.patrolRoute.length) (known : k ∈ s.robots) (mode : s.modeOf k = .patrol) :
    (∃ t ∈ s'.tasks, t.robot = k ∧ ((∀ u ∈ s.tasks, u.robot ≠ k) → t.patrol = true)) ∨
      ∃ t ∈ s.tasks, t.robot = k ∧ Ended t s.log s'.log := by
  obtain ⟨s₁, hpatrols, tick⟩ := Option.bind_eq_some_iff.mp tick
  obtain ⟨⟨core, tasks⟩, hloop, tick⟩ := Option.bind_eq_some_iff.mp tick
  obtain ⟨events, hevents, -⟩ := FleetNode.publish_eq tick
  subst hevents
  have hkeys : s.patrolKeys = s.robots.keys := if_pos route
  have hc : (ticks p).Reach (fun _ a => a.With Callback.Offers) (.patrols s s.patrolKeys) :=
    .step (a := .call .timer) (reach_ticks hs) trivial rfl
  obtain ⟨grows, -, there, new⟩ := patrols_start hc hpatrols
  obtain ⟨-, -, looked⟩ := taskLoop_keeps hloop
  obtain ⟨t, ht, hr⟩ := there k (hkeys ▸ ExtTreeMap.mem_keys.mpr known) mode
  rcases looked t ht with ⟨u, hu, same⟩ | ⟨moving, ended⟩
  · refine .inl ⟨u, hu, same.robot.trans hr, ?_⟩
    intro jobless
    rcases new t ht with hold | ⟨-, patrol⟩
    · exact absurd hr (jobless t hold)
    · exact same.patrol.trans patrol
  · rcases new t ht with hold | ⟨still, -⟩
    · exact .inr ⟨t, hold, hr, (ended.before grows).mono (List.suffix_append ..)⟩
    · rw [moving] at still
      cases still

/-- A robot that has made a delivery goes back to its patrol. -/
theorem patrols_resume_delivered : ∃ s s' : FleetNode ℚ, s.onTimer = some s' ∧
    (.taskState "T-1" "COMPLETED" "r1" ∈ s.log) ∧ ∃ t ∈ s'.tasks, t.robot = "r1" ∧
      t.patrol = true := by
  obtain ⟨s, hs, hcheck⟩ := (fleet (Yard.setup true [0, 1])).exists_reach (fun _ cb => cb.Plain)
    (fun s => decide (.taskState "T-1" "COMPLETED" "r1" ∈ s.log ∧ 2 ≤ s.patrolRoute.length ∧
      "r1" ∈ s.robots ∧ s.modeOf "r1" = .patrol ∧ s.tasks = []) && s.onTimer.isSome)
    [Yard.seen "r1" 0 0, Yard.send "r1" "2", .timer, Yard.seen "r1" 10 0, .timer,
      Yard.seen "r1" 20 0, .timer] (by decide +kernel)
  obtain ⟨hstate, htick⟩ := Bool.and_eq_true_iff.mp hcheck
  obtain ⟨done, route, known, mode, hnone⟩ := of_decide_eq_true hstate
  obtain ⟨s', tick⟩ := Option.isSome_iff_exists.mp htick
  rcases patrols_resume (hs.mono fun _ _ h => h.2.offers) tick route known mode with
    ⟨t, ht, hr, patrol⟩ | ⟨t, ht, -⟩
  · exact ⟨s, s', tick, done, t, ht, hr, patrol (by simp [hnone])⟩
  · rw [hnone] at ht
    cases ht

/-! ## Rounds -/

/-- Since the record `log` the robot has come to the end of the path of `t`, and has gone `n` times
around the route from there. -/
def Toured (t : ActiveTask R) (route : List Int) (n : Nat) (log log' : List (Event R)) : Prop :=
  ∃ v ∈ route, t.path.getLast? = some v ∧ ∃ events, log' = events ++ log ∧
    t.path.drop t.idx ++ rounds route v n <+: (arrivals t.robot events).reverse

/-- A patrol whose robot gets to where it is sent, and whom nobody disturbs, takes a detour or is
given up, or it makes any number of rounds: within a tick for each vertex on the way and for each
refusal, and one more, as long as each lap begins where the one before it has ended. -/
theorem patrol_rounds {t : ActiveTask R} {s s' : FleetNode R} {way : Past R} {n : Nat}
    (hs : (ticks p).Reach (fun _ a => a.With Callback.Plain) (.idle s))
    (ht : t ∈ s.tasks) (patrol : t.patrol = true)
    (run : (ticks p).Run (fun c a => (a.With Callback.Plain ∧ ¬ c.Disturbs t.robot a) ∧
      c.LapsJoin t.robot a) (.idle s) way (.idle s'))
    (long : t.path.length - t.idx + n * s.patrolRoute.length + refusals t.robot s'.log <
      served t.robot way + refusals t.robot s.log) :
    Hindered t.robot s.log s'.log ∨ Toured t s.patrolRoute n s.log s'.log := by
  have hs' := hs.run (fun _ _ h => h.1.1) run
  obtain ⟨hroute, hway⟩ := headway_run hs ht (run.mono fun _ _ h => ⟨h.1, fun _ => h.2⟩)
  have hroute : s'.patrolRoute = s.patrolRoute := hroute
  rcases hway.arrived with h | ⟨dispatched, -⟩ | ⟨u, events, hu, hlog, along, hcount⟩
  · exact .inl h
  · rw [patrol] at dispatched
    cases dispatched
  · have hw : Wellformed s' := reach_wellformed (fun _ _ h => h) hs'
    rw [hroute] at along
    obtain ⟨v, stop, last, hprefix⟩ := along.rounds (n := n) (hw.placed u hu).2 (by omega)
    exact .inr ⟨v, stop, last, events, hlog, hprefix⟩

/-- A corridor, up and down: to the end of it, and once more. -/
theorem patrol_rounds_corridor : ∃ s s' : FleetNode ℚ, ∃ t ∈ s.tasks,
    t.path = [0, 1, 0] ∧ t.idx = 1 ∧ Toured t [0, 1] 1 s.log s'.log := by
  let M := ticks (Yard.setup true [0, 1])
  let free (c : Conf ℚ) (a : Action ℚ) : Prop :=
    ((a.With Callback.Plain ∧ ¬ c.Disturbs "r1" a) ∧ c.LapsJoin "r1" a) ∧
      (a.timers = 1 → c.Ready "r1")
  let drive := Yard.passes 10 ++ Yard.passes 0 ++ Yard.passes 10 ++ Yard.passes 0 ++ Yard.passes 10
  obtain ⟨s, hs, hcheck⟩ := exists_rests (Yard.setup true [0, 1])
    (fun _ a => a.With Callback.Plain)
    (fun s => decide ((∃ t ∈ s.tasks, t.robot = "r1" ∧ t.patrol = true ∧ t.path = [0, 1, 0] ∧
      t.idx = 1) ∧ s.patrolRoute = [0, 1]) &&
        (M.runWhen free (.idle s) drive).any (Conf.rests fun s' =>
          decide (refusals "r1" s'.log = 0 ∧ ∀ e ∈ s'.log, ¬ e.Hinders "r1")))
    (.call (Yard.seen "r1" 0 0) :: Yard.taken .timer 5) (by decide +kernel)
  obtain ⟨htask, hrun⟩ := Bool.and_eq_true_iff.mp hcheck
  obtain ⟨⟨t, ht, hr, patrol, hpath, hidx⟩, hroute⟩ := of_decide_eq_true htask
  obtain ⟨s', way, run, hway, hlog⟩ := run_rests hrun
  obtain ⟨never, clear⟩ := of_decide_eq_true hlog
  have hserved : served t.robot way = 5 := by
    rw [hr, served_all run, hway]
    decide +kernel
  have long : t.path.length - t.idx + 1 * s.patrolRoute.length + refusals t.robot s'.log <
      served t.robot way + refusals t.robot s.log := by
    rw [hserved, hr, never, hpath, hidx, hroute]
    exact Nat.lt_add_right _ (by decide)
  have run' : M.Run (fun c a => (a.With Callback.Plain ∧ ¬ c.Disturbs t.robot a) ∧
      c.LapsJoin t.robot a) (.idle s) way (.idle s') := run.mono fun _ _ h => hr ▸ h.1
  have toured := (patrol_rounds hs ht patrol run' long).resolve_left ?_
  · exact ⟨s, s', t, ht, hpath, hidx, hroute ▸ toured⟩
  · rintro ⟨e, older, hinders, -, hmem⟩
    exact clear e (hmem.subset List.mem_cons_self) (hr ▸ hinders)

end LibiFleet
