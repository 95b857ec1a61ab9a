import LibiFleet.Driving
import LibiFleet.Record

/-!
# Where robots stand and where they are driven

Both are read off the record of the run: a robot stands at the vertex of its last
arrival until it is sent a path, and is driven to the vertex of its last path until
it arrives there. Either ends with the task, which gives the reservation up.
-/

namespace LibiFleet

open ReservationDeadlock (Sheds)

variable {R : Type}

/-- The vertex of the last arrival of `r`, unless it has been sent a path since. -/
def standsAt (r : String) : List (Event R) → Option Int
  | [] => none
  | .arrival q v :: log => if q = r then some v else standsAt r log
  | .pathRequest _ q _ _ _ _ _ :: log => if q = r then none else standsAt r log
  | _ :: log => standsAt r log

/-- Where `r` stands with the task it arrived with. -/
def attends (r : String) : List (Event R) → Option Int
  | [] => none
  | .arrival q v :: log => if q = r then some v else attends r log
  | .pathRequest _ q _ _ _ _ _ :: log => if q = r then none else attends r log
  | .erased q :: log => if q = r then none else attends r log
  | _ :: log => attends r log

/-- The vertex of the last path sent to `r`, unless `r` has arrived there since. -/
def outstanding (r : String) : List (Event R) → Option Int
  | [] => none
  | .pathRequest _ q _ _ _ v _ :: log => if q = r then some v else outstanding r log
  | .arrival q v :: log =>
    if q = r ∧ outstanding r log = some v then none else outstanding r log
  | _ :: log => outstanding r log

/-- Where `r` is driven by the task that asked for the path. -/
def pursues (r : String) : List (Event R) → Option Int
  | [] => none
  | .pathRequest _ q _ _ _ v _ :: log => if q = r then some v else pursues r log
  | .arrival q v :: log => if q = r ∧ pursues r log = some v then none else pursues r log
  | .erased q :: log => if q = r then none else pursues r log
  | _ :: log => pursues r log

/-- What a robot does tells nothing of where the others stand and where they are driven. -/
theorem aside_frame {robot r : String} (hr : r ≠ robot) {e : Event R} (h : e.Aside robot)
    (log : List (Event R)) : attends r (e :: log) = attends r log ∧
      pursues r (e :: log) = pursues r log := by
  cases e with
  | pathRequest | arrival | erased =>
    obtain rfl := h
    simp [attends, pursues, Ne.symm hr]
  | moveRequest => cases h
  | taskState | lap | reroute | occupancy | routes | goals => exact ⟨rfl, rfl⟩

theorem asides_frame {robot r : String} (hr : r ≠ robot) (events log : List (Event R))
    (h : ∀ e ∈ events, e.Aside robot) : attends r (events ++ log) = attends r log ∧
      pursues r (events ++ log) = pursues r log := by
  induction events with
  | nil => exact ⟨rfl, rfl⟩
  | cons e events ih =>
    obtain ⟨he, hevents⟩ := List.forall_mem_cons.mp h
    obtain ⟨ha, hp⟩ := aside_frame hr he (events ++ log)
    obtain ⟨ha', hp'⟩ := ih hevents
    exact ⟨ha.trans ha', hp.trans hp'⟩

/-- The event tells nothing of where robots stand and are driven. -/
def Event.Silent : Event R → Prop
  | .pathRequest .. | .arrival .. | .erased _ => False
  | _ => True

theorem silents_frame (r : String) {events : List (Event R)} (log : List (Event R))
    (h : ∀ e ∈ events, e.Silent) :
    attends r (events ++ log) = attends r log ∧ pursues r (events ++ log) = pursues r log := by
  induction events with
  | nil => exact ⟨rfl, rfl⟩
  | cons e events ih =>
    obtain ⟨he, hevents⟩ := List.forall_mem_cons.mp h
    cases e with
    | pathRequest | arrival | erased => cases he
    | _ => exact ih hevents

theorem reports_silent {events : List (Event R)} (h : ∀ e ∈ events, e.Report) :
    ∀ e ∈ events, e.Silent := by
  intro e he
  have := h e he
  cases e with
  | occupancy | routes | goals => trivial
  | _ => cases this

theorem told_silent {id robot : String} {events : List (Event R)}
    (h : ∀ e ∈ events, e = .taskState id "EXECUTING" robot) : ∀ e ∈ events, e.Silent := by
  intro e he
  rw [h e he]
  trivial

variable [Double R]

section Record

variable {s s' : FleetNode R} {c : Conf R} {a : Action R} {robot : String}

theorem Effect.record_other (h : Effect c a robot s s') {r : String} (hr : r ≠ robot) :
    attends r s'.log = attends r s.log ∧ pursues r s'.log = pursues r s.log := by
  obtain ⟨events, requests, hlog, hevents, hrequests⟩ := h.record
  obtain ⟨ha, hp⟩ := asides_frame hr events (requests ++ s.log) hevents
  rw [hlog, ha, hp]
  rcases hrequests with rfl | ⟨src, dst, p, rfl⟩ <;> exact ⟨rfl, rfl⟩

end Record

section Standing

variable {s s' : FleetNode R} {c : Conf R} {a : Action R} {robot : String}

/-- A robot that stands somewhere with a task owns the vertex, and the task stands still. -/
def Attended (s : FleetNode R) : Prop := ∀ r v, attends r s.log = some v →
  s.traffic.owner v = some r ∧ ∃ t ∈ s.tasks, t.robot = r ∧ t.moving = false

omit [Double R] in
/-- A robot whose task is cancelled neither stands nor is driven anywhere; without a task the record
stays as it is. -/
theorem cancelTask_record (s : FleetNode R) (robot : String) :
    attends robot (s.cancelTask robot).log = none ∧ pursues robot (s.cancelTask robot).log = none ∨
      (∀ t ∈ s.tasks, t.robot ≠ robot) ∧ (s.cancelTask robot).log = s.log := by
  have hlog : (s.cancelTask robot).log =
      (s.tasks.filter (·.robot = robot)).map (.erased ·.robot) ++ s.log := rfl
  cases hl : s.tasks.filter (·.robot = robot) with
  | nil =>
    rw [hlog, hl]
    exact .inr ⟨fun t ht hr => List.not_mem_nil (hl ▸ List.mem_filter.mpr ⟨ht, by simpa⟩), rfl⟩
  | cons u l =>
    have hu : u.robot = robot := FleetNode.mem_closing (s := s) robot u (by simp [hl])
    rw [hlog, hl]
    exact .inl (by simp [attends, pursues, hu])

theorem Effect.attended_self (h : Effect c a robot s s') (hw : Wellformed s)
    (steady : a.With Callback.Steady) (hown : Owned s) (hs : Attended s) {v : Int}
    (hv : attends robot s'.log = some v) :
    s'.traffic.owner v = some robot ∧ ∃ t ∈ s'.tasks, t.robot = robot ∧ t.moving = false := by
  have arrived {t t' : ActiveTask R} {rest : List (ActiveTask R)} (head : s.tasks = t :: rest)
      (moving : t.moving = true) (hv : v = t.next) (hr : t'.robot = t.robot)
      (still : t'.moving = false) : s.traffic.owner v = some t.robot ∧
        ∃ u ∈ t' :: rest, u.robot = t.robot ∧ u.moving = false :=
    ⟨hv ▸ hown t (by simp [head]) moving, t', List.mem_cons_self, hr, still⟩
  have refused {t t' : ActiveTask R} {rest : List (ActiveTask R)}
      (href : (s.ask t).1 ≠ .grant) (hv : attends t.robot s.log = some v)
      (hr : t'.robot = t.robot) (still : t'.moving = false) :
      (s.ask t).2.traffic.owner v = some t.robot ∧
        ∃ u ∈ rest ++ [t'], u.robot = t.robot ∧ u.moving = false :=
    ⟨(refused_owner hw.named href v).trans (hs _ v hv).1, t',
      List.mem_concat_self, hr, still⟩
  cases h with
  | sighting | battery | touch | mode | reload => exact hs _ v hv
  | publish events reports =>
    exact hs _ v ((silents_frame _ s.log (reports_silent reports)).1 ▸ hv)
  | cancel =>
    rcases cancelTask_record s robot with ⟨hnone, -⟩ | ⟨jobless, hlog⟩
    · rw [hnone] at hv
      cases hv
    · rw [hlog] at hv
      obtain ⟨-, t, ht, hr, -⟩ := hs _ v hv
      exact absurd hr (jobless t ht)
  | vacate _ jobless =>
    obtain ⟨-, t, ht, hr, -⟩ := hs _ v hv
    exact absurd hr (jobless t ht)
  | stopClaim _ stopped =>
    obtain ⟨-, t, ht, rfl, -⟩ := hs _ v hv
    exact absurd stopped (hw.unstopped t ht)
  | dispatch _ _ _ known idle =>
    obtain ⟨-, t, ht, hr, -⟩ := hs _ v hv
    exact absurd hr (hw.ledger.jobless known idle t ht)
  | patrol _ _ _ jobless =>
    obtain ⟨-, t, ht, hr, -⟩ := hs _ v hv
    exact absurd hr (jobless t ht)
  | look head =>
    obtain ⟨ho, t, ht, hr, hm⟩ := hs _ v hv
    rw [hw.ledger.eq_head head ht hr] at hm
    exact ⟨ho, _, List.mem_cons_self, rfl, hm⟩
  | fail | grant => simp [attends] at hv
  | complete => simp [FleetCore.complete, FleetCore.emit, attends] at hv
  | pass head moving =>
    simp only [FleetCore.emit, attends, if_true, Option.some.injEq] at hv
    exact arrived head moving hv.symm rfl rfl
  | lap _ head moving =>
    simp only [FleetCore.emit, attends, if_true, Option.some.injEq] at hv
    exact arrived head moving hv.symm rfl rfl
  | drive head =>
    obtain ⟨ho, t, ht, hr, hm⟩ := hs _ v hv
    refine ⟨ho, t, ?_, hr, hm⟩
    exact (List.perm_append_singleton _ _).mem_iff.mpr (head ▸ ht)
  | @reroute _ t _ _ events cause _ head _ hrefused _ _ _ _ told =>
    have hlog := (silents_frame t.robot (s.ask t).2.log (told_silent told)).1
    exact refused (Detour.refused hrefused) (hlog.symm.trans hv) (ActiveTask.detoured_robot ..)
      (ActiveTask.detoured_moving ..)
  | @hold _ t _ events _ _ _ head still hrefused _ told =>
    have hlog := (silents_frame t.robot (s.ask t).2.log (told_silent told)).1
    exact refused hrefused (hlog.symm.trans hv) rfl still
  | swap _ _ _ _ called => exact (steady.not_swap called).elim

theorem Effect.attended (h : Effect c a robot s s') (hw : Wellformed s)
    (steady : a.With Callback.Steady) (hown : Owned s) (hs : Attended s) : Attended s' := by
  intro r v hv
  by_cases hr : r = robot
  · subst hr
    exact h.attended_self hw steady hown hs hv
  · rw [(h.record_other hr).1] at hv
    obtain ⟨ho, t, ht, rfl, hm⟩ := hs r v hv
    have howner := (h.alone steady hw.named t.robot hr v).mpr ho
    have hmem := (h.tasks_other hw.ledger hr).mpr ht
    exact ⟨howner, t, hmem, rfl, hm⟩

/-- No request in the record was granted a vertex at which another robot stood with its task. -/
def GrantsApart (s : FleetNode R) : Prop := ∀ q src v p older,
  Event.moveRequest q src v p .grant :: older <:+ s.log →
    ∀ r, r ≠ q → attends r older ≠ some v

omit [Double R] in
theorem suffix_of_append {α : Type*} {x : α} {older events l : List α}
    (h : x :: older <:+ events ++ l) (hx : x ∉ events) : x :: older <:+ l := by
  induction events with
  | nil => exact h
  | cons e events ih =>
    rcases List.suffix_cons_iff.mp h with heq | h
    · obtain ⟨rfl, -⟩ := List.cons.inj heq
      exact absurd List.mem_cons_self hx
    · exact ih h fun hmem => hx (List.mem_cons_of_mem _ hmem)

theorem Effect.grantsApart (h : Effect c a robot s s') (hw : Wellformed s) (hs : Attended s)
    (hg : GrantsApart s) : GrantsApart s' := by
  intro q src v p older hsuffix r hr hv
  obtain ⟨events, requests, hlog, hevents, hrequests⟩ := h.record
  rw [hlog] at hsuffix
  have hold := suffix_of_append hsuffix fun hmem => hevents _ hmem
  rcases hrequests with rfl | ⟨src', dst, p', rfl⟩
  · exact hg q src v p older hold r hr hv
  · rcases List.suffix_cons_iff.mp hold with heq | hold
    · -- the request of this effect: a vertex that is granted is free for the robot
      obtain ⟨hrequest, rfl⟩ := List.cons.inj heq
      obtain ⟨rfl, -, rfl, -, hgrant⟩ := Event.moveRequest.inj hrequest
      have hfree := (ReservationDeadlock.grant_iff hw.named).mp hgrant.symm
      exact hr (hfree r (hs r v hv).1)
    · exact hg q src v p older hold r hr hv

theorem reach_attended {p : Setup R} {c : Conf R}
    (hc : (ticks p).Reach (fun _ a => a.With Callback.Plain) c) :
    Owned c.node ∧ Attended c.node ∧ GrantsApart c.node := by
  refine reach_keeps (fun _ _ h => h)
    (P := fun s => Owned s ∧ Attended s ∧ GrantsApart s) ⟨?_, ?_, ?_⟩ ?_ hc
  · intro t ht
    cases ht
  · intro r v hv
    cases hv
  · intro q src v p older hsuffix
    exact absurd (List.suffix_nil.mp hsuffix) (List.cons_ne_nil _ _)
  · rintro c a robot s s' ok he hw hw' ⟨hown, hs, hg⟩
    exact ⟨he.owned hw.manned hw'.manned ok.steady hown, he.attended hw ok.steady hown hs,
      he.grantsApart hw hs hg⟩

/-- No vertex is granted while another robot stands at it with the task it arrived with. -/
theorem grant_spares_attended {p : Setup R} {c : Conf R}
    (hc : (ticks p).Reach (fun _ a => a.With Callback.Plain) c) {q r : String}
    {src v priority : Int} {older : List (Event R)}
    (hgrant : Event.moveRequest q src v priority .grant :: older <:+ c.node.log) (hr : r ≠ q) :
    attends r older ≠ some v :=
  (reach_attended hc).2.2 q src v priority older hgrant r hr

/-- The first robot has arrived at 1 and waits for 2, where the second one stands; the second one is
granted 4. -/
theorem grant_spares_attended_wait : ∃ (c : Conf ℚ) (older : List (Event ℚ)),
    (ticks (Yard.setup false [])).Reach (fun _ a => a.With Callback.Plain) c ∧
    Event.moveRequest "r2" 2 4 62799744 .grant :: older <:+ c.node.log ∧
    attends "r1" older = some 1 ∧ attends "r1" older ≠ some 4 := by
  obtain ⟨s, hs, hp⟩ := (fleet (Yard.setup false [])).exists_reach (fun _ cb => cb.Plain)
    (fun s => decide ((s.log.drop 4).head? = some (.moveRequest "r2" 2 4 62799744 .grant) ∧
      attends "r1" (s.log.drop 4).tail = some 1))
    [Yard.seen "r1" 0 0, Yard.seen "r2" 20 0, Yard.send "r1" "2", .timer, Yard.seen "r1" 10 0,
      Yard.send "r2" "3", .timer]
    (by decide +kernel)
  obtain ⟨hhead, hattends⟩ := of_decide_eq_true hp
  have hsuffix : Event.moveRequest "r2" 2 4 62799744 .grant :: (s.log.drop 4).tail <:+ s.log := by
    rw [List.cons_head?_tail hhead]
    exact List.drop_suffix 4 s.log
  exact ⟨.idle s, _, reach_ticks hs, hsuffix, hattends,
    grant_spares_attended (reach_ticks hs) hsuffix (by decide)⟩

/-- The first robot completes its task at 1, which it gives up; the second is then granted 1. -/
theorem grant_at_parked : ¬ ∀ (p : Setup ℚ) (c : Conf ℚ),
    (ticks p).Reach (fun _ a => a.With Callback.Plain) c →
    ∀ (q r : String) (src v priority : Int) (older : List (Event ℚ)),
      Event.moveRequest q src v priority .grant :: older <:+ c.node.log → r ≠ q →
      standsAt r older ≠ some v := by
  intro h
  obtain ⟨s, hs, hp⟩ := (fleet (Yard.setup false [])).exists_reach (fun _ cb => cb.Plain)
    (fun s => decide ((s.log.drop 4).head? = some (.moveRequest "r2" 2 1 62799744 .grant) ∧
      standsAt "r1" (s.log.drop 4).tail = some 1))
    [Yard.seen "r1" 0 0, Yard.seen "r2" 20 0, Yard.send "r1" "1", .timer, Yard.seen "r1" 10 0,
      .timer, Yard.send "r2" "1", .timer]
    (by decide +kernel)
  obtain ⟨hhead, hstands⟩ := of_decide_eq_true hp
  refine h _ (.idle s) (reach_ticks hs) "r2" "r1" 2 1 62799744 (s.log.drop 4).tail ?_ (by decide)
    hstands
  rw [List.cons_head?_tail hhead]
  exact List.drop_suffix 4 s.log

end Standing

/-! ## Being driven -/

section Driven

variable {s s' : FleetNode R} {c : Conf R} {a : Action R} {robot : String}

/-- A robot that is driven somewhere by its task has a task that moves there. -/
def Pursued (s : FleetNode R) : Prop := ∀ r v, pursues r s.log = some v →
  ∃ t ∈ s.tasks, t.robot = r ∧ t.moving = true ∧ t.next = v

/-- An arrival at the next vertex of a moving task ends the pursuit. -/
theorem pursues_arrival (hw : Wellformed s) (hs : Pursued s) {t : ActiveTask R}
    (ht : t ∈ s.tasks) : pursues t.robot (.arrival t.robot t.next :: s.log) = none := by
  simp only [pursues, true_and]
  split
  · rfl
  · rename_i hne
    cases hv : pursues t.robot s.log with
    | none => rfl
    | some v =>
      obtain ⟨u, hu, hr, -, rfl⟩ := hs _ v hv
      rw [hw.ledger.eq_of_robot hu ht hr] at hv
      exact absurd hv hne

theorem Effect.pursued_self (h : Effect c a robot s s') (hw : Wellformed s)
    (steady : a.With Callback.Steady) (hs : Pursued s) {v : Int}
    (hv : pursues robot s'.log = some v) :
    ∃ t ∈ s'.tasks, t.robot = robot ∧ t.moving = true ∧ t.next = v := by
  have still {t : ActiveTask R} {rest : List (ActiveTask R)} (head : s.tasks = t :: rest)
      (still : t.moving = false) (hv : pursues t.robot s.log = some v) : False := by
    obtain ⟨u, hu, hr, hm, -⟩ := hs _ v hv
    rw [hw.ledger.eq_head head hu hr, still] at hm
    cases hm
  cases h with
  | sighting | battery | touch | mode | reload => exact hs _ v hv
  | publish events reports =>
    exact hs _ v ((silents_frame _ s.log (reports_silent reports)).2 ▸ hv)
  | cancel =>
    rcases cancelTask_record s robot with ⟨-, hnone⟩ | ⟨jobless, hlog⟩
    · rw [hnone] at hv
      cases hv
    · rw [hlog] at hv
      obtain ⟨t, ht, hr, -⟩ := hs _ v hv
      exact absurd hr (jobless t ht)
  | vacate _ jobless =>
    obtain ⟨t, ht, hr, -⟩ := hs _ v hv
    exact absurd hr (jobless t ht)
  | stopClaim => exact hs _ v hv
  | dispatch _ _ _ known idle =>
    obtain ⟨t, ht, hr, -⟩ := hs _ v hv
    exact absurd hr (hw.ledger.jobless known idle t ht)
  | patrol _ _ _ jobless =>
    obtain ⟨t, ht, hr, -⟩ := hs _ v hv
    exact absurd hr (jobless t ht)
  | look head =>
    obtain ⟨t, ht, hr, hm, hn⟩ := hs _ v hv
    rw [hw.ledger.eq_head head ht hr] at hm hn
    exact ⟨_, List.mem_cons_self, rfl, hm, hn⟩
  | fail => simp [pursues] at hv
  | complete => simp [FleetCore.complete, FleetCore.emit, pursues] at hv
  | pass head | lap _ head =>
    have hnone := pursues_arrival hw hs (by rw [head]; exact List.mem_cons_self)
    exact absurd (hnone.symm.trans hv) (by simp)
  | drive head =>
    obtain ⟨t, ht, hr, hm, hn⟩ := hs _ v hv
    exact ⟨t, (List.perm_append_singleton _ _).mem_iff.mpr (head ▸ ht), hr, hm, hn⟩
  | grant =>
    simp only [pursues, if_true, Option.some.injEq] at hv
    exact ⟨_, List.mem_concat_self, rfl, rfl, hv⟩
  | @reroute _ t _ _ _ _ _ head hstill _ _ _ _ _ told =>
    have hlog := (silents_frame t.robot (s.ask t).2.log (told_silent told)).2
    exact (still head hstill (hlog.symm.trans hv)).elim
  | @hold _ t _ _ _ _ _ head hstill _ _ told =>
    have hlog := (silents_frame t.robot (s.ask t).2.log (told_silent told)).2
    exact (still head hstill (hlog.symm.trans hv)).elim
  | swap _ _ _ _ called => exact (steady.not_swap called).elim

theorem Effect.pursued (h : Effect c a robot s s') (hw : Wellformed s)
    (steady : a.With Callback.Steady) (hs : Pursued s) : Pursued s' := by
  intro r v hv
  by_cases hr : r = robot
  · subst hr
    exact h.pursued_self hw steady hs hv
  · rw [(h.record_other hr).2] at hv
    obtain ⟨t, ht, rfl, ht'⟩ := hs r v hv
    exact ⟨t, (h.tasks_other hw.ledger hr).mpr ht, rfl, ht'⟩

theorem reach_pursued {p : Setup R} {c : Conf R}
    (hc : (ticks p).Reach (fun _ a => a.With Callback.Plain) c) : Pursued c.node := by
  refine reach_keeps (fun _ _ h => h) (P := Pursued) ?_ ?_ hc
  · intro r v hv
    cases hv
  · exact fun c a robot s s' ok he hw _ => he.pursued hw ok.steady

/-- No two robots are driven to the same vertex by tasks that are still active. -/
theorem pursuits_apart {p : Setup R} {s : FleetNode R}
    (hs : (fleet p).Reach (fun _ cb => cb.Plain) s) {r q : String} (hrq : r ≠ q) {v : Int}
    (hr : pursues r s.log = some v) : pursues q s.log ≠ some v := by
  intro hq
  have hc := reach_ticks hs
  have hown := reach_owned (fun _ _ h => h) hc
  obtain ⟨t, ht, rfl, hmt, hnt⟩ := reach_pursued hc r v hr
  obtain ⟨u, hu, rfl, hmu, hnu⟩ := reach_pursued hc q v hq
  have ht' := hown t ht hmt
  have hu' := hown u hu hmu
  rw [hnt] at ht'
  rw [hnu, ht'] at hu'
  exact hrq (Option.some.inj hu')

/-- Two robots are driven at once, to 1 and to 4. -/
theorem pursuits_apart_two : ∃ s : FleetNode ℚ,
    (fleet (Yard.setup false [])).Reach (fun _ cb => cb.Plain) s ∧
    pursues "r1" s.log = some 1 ∧ pursues "r2" s.log = some 4 ∧ pursues "r2" s.log ≠ some 1 := by
  obtain ⟨s, hs, hp⟩ := (fleet (Yard.setup false [])).exists_reach (fun _ cb => cb.Plain)
    (fun s => decide (pursues "r1" s.log = some 1 ∧ pursues "r2" s.log = some 4))
    [Yard.seen "r1" 0 0, Yard.seen "r2" 20 0, Yard.send "r1" "1", Yard.send "r2" "3", .timer]
    (by decide +kernel)
  obtain ⟨h1, h2⟩ := of_decide_eq_true hp
  exact ⟨s, hs, h1, h2, pursuits_apart hs (by decide) h1⟩

/-- The task of the first robot is cancelled on its way to 1; the second is then driven there. -/
theorem driven_together : ¬ ∀ (p : Setup ℚ) (s : FleetNode ℚ),
    (fleet p).Reach (fun _ cb => cb.Plain) s → ∀ (r q : String) (v : Int), r ≠ q →
      outstanding r s.log = some v → outstanding q s.log ≠ some v := by
  intro h
  obtain ⟨s, hs, hp⟩ := (fleet (Yard.setup false [])).exists_reach (fun _ cb => cb.Plain)
    (fun s => decide (outstanding "r1" s.log = some 1 ∧ outstanding "r2" s.log = some 1))
    [Yard.seen "r1" 0 0, Yard.seen "r2" 20 0, Yard.send "r1" "1", .timer, Yard.mode "r1" "IDLE",
      Yard.send "r2" "1", .timer]
    (by decide +kernel)
  obtain ⟨h1, h2⟩ := of_decide_eq_true hp
  exact h _ s hs "r1" "r2" 1 (by decide) h1 h2

end Driven

end LibiFleet
