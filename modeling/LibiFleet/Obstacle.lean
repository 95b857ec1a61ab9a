import LibiFleet.Assignment

/-!
# Stopped robots as obstacles

A robot that is set to STOP claims the vertex it is nearest to, and the others go around
a node that a stopped robot holds. The claim is made once, and whether it is granted is
not looked at: these are the runs in which the stopped robots do hold nodes.
-/

namespace LibiFleet

open Std (ExtTreeMap)
open ReservationDeadlock (Sheds)

variable {R : Type}

/-- The robot holds a node. -/
def Anchored (k : String) (s : FleetCore R) : Prop := ∃ v, s.traffic.owner v = some k

instance (k : String) (s : FleetCore R) : Decidable (Anchored k s) :=
  decidable_of_iff (∃ no ∈ s.traffic.occupancy, no.2 = k) (by
    unfold Anchored ReservationDeadlock.occupancy ReservationDeadlock.owner
    simp only [Prod.exists, ExtTreeMap.mem_toList_iff_getElem?_eq_some]
    constructor
    · rintro ⟨v, o, ho, rfl⟩
      exact ⟨v, ho⟩
    · rintro ⟨v, ho⟩
      exact ⟨v, k, ho, rfl⟩)

variable [Double R] {p : Setup R} {c c' : Conf R} {a : Action R} {robot : String}
  {s s' : FleetNode R}

/-- Every robot that is stopped and has been seen holds a node. -/
def Obstacles (m : Conf R × Past R) : Prop :=
  ∀ k, m.1.node.modeOf k = .stop → Seen k m.2 → Anchored k m.1.node.toFleetCore

/-- A robot that has been seen is stopped while nobody else holds its nearest vertex, and the first
message of a stopped robot comes when it holds a node already. -/
def Timely (m : Conf R × Past R) : Action R → Prop
  | .call (.setMode req) => Mode.ofString? req.mode = some .stop → Seen req.robot m.2 →
      m.1.node.traffic.FreeFor (m.1.node.graph.nearest (m.1.node.robot req.robot).x
        (m.1.node.robot req.robot).y) req.robot
  | .call (.robotState msg) => m.1.node.modeOf msg.name = .stop →
      Seen msg.name m.2 ∨ Anchored msg.name m.1.node.toFleetCore
  | _ => True

instance (m : Conf R × Past R) : DecidablePred (Timely m)
  | .call (.setMode req) => inferInstanceAs (Decidable (Mode.ofString? req.mode = some .stop →
      Seen req.robot m.2 → m.1.node.traffic.FreeFor (m.1.node.graph.nearest
        (m.1.node.robot req.robot).x (m.1.node.robot req.robot).y) req.robot))
  | .call (.robotState msg) => inferInstanceAs (Decidable (m.1.node.modeOf msg.name = .stop →
      Seen msg.name m.2 ∨ Anchored msg.name m.1.node.toFleetCore))
  | .call (.submit _) | .call .timer | .call (.setPlugins ..) | .call (.reload _)
  | .call (.setBattery _) | .go => inferInstanceAs (Decidable True)

/-- What the others hold is free for the robot or not, whatever it gives up itself. -/
theorem freeFor_sheds {σ σ' : ReservationDeadlock} (h : Sheds robot σ σ') (v : Int) :
    σ'.FreeFor v robot ↔ σ.FreeFor v robot := by
  constructor
  · intro free o ho
    rcases h.owner v with hv | ⟨hv, -⟩
    · exact free o (hv.trans ho)
    · exact Option.some.inj (ho.symm.trans hv)
  · intro free o ho
    exact free o (h.kept ho)

/-- A robot that is set to STOP comes to hold a node if nobody else holds its nearest vertex, and
only then. -/
theorem onSetMode_anchored {req : SetRobotModeRequest} (hn : s.traffic.Named)
    (known : req.robot ∈ s.robots) (stop : Mode.ofString? req.mode = some .stop) :
    Anchored req.robot (s.onSetMode req).1.toFleetCore ↔
      s.traffic.FreeFor (s.graph.nearest (s.robot req.robot).x (s.robot req.robot).y)
        req.robot := by
  have hsheds : Sheds req.robot s.traffic ((s.cancelTask req.robot).releaseAll req.robot).traffic :=
    (s.cancelTask_sheds req.robot).trans (FleetNode.releaseAll_sheds ..)
  have hgone (v : Int) :
      ((s.cancelTask req.robot).releaseAll req.robot).traffic.owner v ≠ some req.robot :=
    FleetNode.releaseAll_owner v
  obtain ⟨r, hr⟩ := Ledger.exists_entry known
  have hentry := @FleetNode.cancelTask_robots _ req.robot s req.robot
  rw [if_pos rfl, hr, Option.map_some] at hentry
  have hclaim : (s.onSetMode req).1.traffic =
      (((s.cancelTask req.robot).releaseAll req.robot).traffic.requestMove req.robot
        (s.graph.nearest r.x r.y) (s.graph.nearest r.x r.y) kStopPrio).2 := by
    simp only [FleetNode.onSetMode, stop, ne_eq, reduceCtorEq, not_false_eq_true, if_true,
      FleetNode.stopClaim, FleetNode.releaseAll, hentry]
    rfl
  have hn' := hsheds.named hn
  unfold Anchored
  rw [Ledger.robot_eq hr, ← freeFor_sheds hsheds, hclaim]
  constructor
  · rintro ⟨v, hv⟩
    rw [ReservationDeadlock.requestMove_owner hn'] at hv
    split at hv
    · rename_i granted
      exact (ReservationDeadlock.grant_iff hn').mp granted.1
    · exact absurd hv (hgone v)
  · intro free
    refine ⟨_, ReservationDeadlock.requestMove_owner_grant hn' ?_⟩
    exact (ReservationDeadlock.grant_iff hn').mpr free

theorem onSetMode_modeOf {req : SetRobotModeRequest} {m : Mode}
    (hm : Mode.ofString? req.mode = some m) : (s.onSetMode req).1.modeOf req.robot = m := by
  have hclaim (t : FleetNode R) : (t.stopClaim req.robot).robotMode = t.robotMode := by
    unfold FleetNode.stopClaim
    split <;> rfl
  unfold FleetNode.onSetMode FleetCore.modeOf
  simp only [hm]
  split
  · rw [hclaim]
    simp
  · simp

/-- A mode is set to STOP, or from it, by `on_set_mode` alone. -/
theorem Effect.stop_iff (h : Effect c a robot s s') {k : String}
    (other : ∀ name, a ≠ .call (.setMode ⟨k, name⟩)) :
    s'.modeOf k = .stop ↔ s.modeOf k = .stop := by
  rcases h.modes with ⟨name, m, called, -⟩ | hmodes
  · have hk : k ≠ robot := by
      rintro rfl
      exact other name called
    rw [h.mode_other hk]
  · rcases hmodes k with hsame | ⟨-, hidle, hpatrol⟩
    · rw [hsame]
    · rw [hidle, hpatrol]
      simp

/-- The task of a stopped robot is cancelled by `on_set_mode` alone. -/
theorem Conf.cancels_stopped (hl : Ledger c.node) {k : String} (h : c.cancels a = some k) :
    (∃ name, a = .call (.setMode ⟨k, name⟩)) ∨ c.node.modeOf k ≠ .stop := by
  unfold Conf.cancels at h
  split at h
  · rename_i s req
    right
    obtain ⟨⟨robot, path⟩, hd, rfl⟩ := Option.map_eq_some_iff.mp h
    unfold FleetNode.dispatches at hd
    split at hd
    · cases hd
    split at hd
    · rename_i hselect
      split at hd
      · obtain ⟨rfl, -⟩ := Prod.mk.inj (Option.some.inj hd)
        exact (hl.chosen hselect).2
      · cases hd
    · cases hd
  · rename_i req
    left
    split at h
    · cases h
    · obtain rfl := Option.some.inj h
      exact ⟨req.mode, rfl⟩
    · cases h
  · cases h

/-- A stopped robot keeps its nodes as long as its mode is not set again. -/
theorem Effect.anchored (h : Effect c a robot s s') (hw : Wellformed s) (hl : Ledger c.node)
    (steady : a.With Callback.Steady) {k : String} {v : Int}
    (other : ∀ name, a ≠ .call (.setMode ⟨k, name⟩)) (before : c.node.modeOf k = .stop)
    (stopped : s.modeOf k = .stop) (owned : s.traffic.owner v = some k) :
    s'.traffic.owner v = some k := by
  by_cases hk : k = robot
  · subst hk
    have jobless {t : ActiveTask R} {rest : List (ActiveTask R)} (head : s.tasks = t :: rest)
        (ht : s.modeOf t.robot = .stop) : False :=
      hw.unstopped t (by simp [head]) ht
    cases h with
    | sighting | battery | touch | mode | reload | publish => exact owned
    | cancel _ called | vacate _ _ called =>
      rcases Conf.cancels_stopped hl called with ⟨name, hset⟩ | hmode
      · exact absurd hset (other name)
      · exact absurd before hmode
    | stopClaim called => exact absurd called (other _)
    | dispatch here chosen =>
      subst here
      exact absurd before (hl.chosen chosen).2
    | patrol _ _ _ _ mode =>
      rw [mode] at stopped
      cases stopped
    | look head | fail head | pass head | lap _ head | complete head | drive head | grant _ head
    | reroute _ _ _ head | hold _ _ _ _ head => exact (jobless head stopped).elim
    | swap _ _ _ _ called => exact (steady.not_swap called).elim
  · exact (h.alone steady hw.named k hk v).mpr owned

theorem anchored_step (hs : c.Sound) (hw : Wellformed c.node) (plain : a.With Callback.Plain)
    (h : c.step a = some c') {k : String} (other : ∀ name, a ≠ .call (.setMode ⟨k, name⟩))
    (stopped : c'.node.modeOf k = .stop) :
    c.node.modeOf k = .stop ∧
      (Anchored k c.node.toFleetCore → Anchored k c'.node.toFleetCore) := by
  have heffects := step_effects hs h
  have before : c.node.modeOf k = .stop := by
    refine (heffects.keeps (P := fun s => s.modeOf k = .stop → c.node.modeOf k = .stop) ?_ id)
      stopped
    intro robot s s' he ih hstop
    exact ih ((he.stop_iff other).mp hstop)
  refine ⟨before, ?_⟩
  rintro ⟨v, hv⟩
  have hall : Wellformed c'.node ∧ c'.node.modeOf k = .stop ∧
      c'.node.traffic.owner v = some k := by
    refine heffects.keeps (P := fun s => Wellformed s ∧ s.modeOf k = .stop ∧
      s.traffic.owner v = some k) ?_ ⟨hw, before, hv⟩
    rintro robot s s' he ⟨hws, hstop, hown⟩
    refine ⟨he.wellformed hws hw plain, (he.stop_iff other).mpr hstop, ?_⟩
    exact he.anchored hws hw.ledger plain.steady other before hstop hown
  exact ⟨v, hall.2.2⟩

/-- A robot that has been seen is in `robots_`. -/
theorem reach_known {ok : Conf R × Past R → Action R → Prop} {m : Conf R × Past R}
    (hm : (ticks p).traced.Reach ok m) : ∀ k, Seen k m.2 → k ∈ m.1.node.robots := by
  refine (hm.assuming fun _ => traced_sound).invariant
    (P := fun m => ∀ k, Seen k m.2 → k ∈ m.1.node.robots) ?_ ?_
  · rintro k ⟨e, he, -⟩
    cases he
  · rintro ⟨c, past⟩ a ⟨c', past'⟩ ⟨-, hsound⟩ hstep ih k ⟨e, he, hsight⟩
    obtain ⟨hstep, rfl⟩ := Machine.traced_step hstep
    have heffects := step_effects hsound hstep
    rcases List.mem_cons.mp he with rfl | he
    · obtain ⟨msg, rfl, rfl⟩ := Action.sights_iff.mp hsight
      cases c with
      | idle s =>
        obtain rfl := Option.some.inj hstep
        exact ExtTreeMap.mem_insert_self
      | patrols | looping | asking => cases hstep
    · exact heffects.keeps (P := fun s => k ∈ s.robots) (fun _ _ _ he hk => he.stays hk)
        (ih k ⟨e, he, hsight⟩)

/-- What a step does to a robot that is stopped after it: it is set to STOP, it is seen, or it was
stopped before. -/
theorem stopped_cases {past : Past R} {k : String} (hs : c.Sound) (hw : Wellformed c.node)
    (plain : a.With Callback.Plain) (h : c.step a = some c')
    (stopped : c'.node.modeOf k = .stop) (seen : Seen k ((c, a) :: past)) :
    (∃ s req, c = .idle s ∧ a = .call (.setMode req) ∧ c' = .idle (s.onSetMode req).1 ∧
      req.robot = k ∧ Mode.ofString? req.mode = some .stop ∧ Seen k past) ∨
    (c.node.modeOf k = .stop ∧
      (Anchored k c.node.toFleetCore → Anchored k c'.node.toFleetCore) ∧
      (Seen k past ∨ ∃ msg, a = .call (.robotState msg) ∧ msg.name = k)) := by
  have before : Seen k past ∨ ∃ msg, a = .call (.robotState msg) ∧ msg.name = k := by
    obtain ⟨e, he, hsight⟩ := seen
    rcases List.mem_cons.mp he with rfl | he
    · exact .inr (Action.sights_iff.mp hsight)
    · exact .inl ⟨e, he, hsight⟩
  by_cases other : ∀ name, a ≠ .call (.setMode ⟨k, name⟩)
  · obtain ⟨hstop, hkept⟩ := anchored_step hs hw plain h other stopped
    exact .inr ⟨hstop, hkept, before⟩
  · simp only [ne_eq, not_forall, not_not] at other
    obtain ⟨name, rfl⟩ := other
    cases c with
    | patrols | looping | asking => cases h
    | idle s =>
      obtain rfl := Option.some.inj h
      obtain seen | ⟨_, called, -⟩ := before
      swap
      · cases called
      by_cases hname : Mode.ofString? name = some .stop
      · exact .inl ⟨s, ⟨k, name⟩, rfl, rfl, rfl, rfl, hname, seen⟩
      -- a name that is rejected changes nothing, and another mode is not STOP
      · cases hm : Mode.ofString? name with
        | none =>
          have hsame : (s.onSetMode ⟨k, name⟩).1 = s := by simp [FleetNode.onSetMode, hm]
          rw [hsame] at stopped ⊢
          exact .inr ⟨stopped, id, .inl seen⟩
        | some m =>
          refine absurd ?_ hname
          rw [hm, ← stopped]
          have hset := @onSetMode_modeOf _ _ s ⟨k, name⟩ m hm
          exact congrArg some hset.symm

/-- A step that comes too early for a claim, or to a claim that is refused, ends with a stopped
robot that holds nothing. -/
theorem untimely_step {past : Past R} (hw : Wellformed c.node)
    (known : ∀ k, Seen k past → k ∈ c.node.robots) (h : c.step a = some c')
    (untimely : ¬ Timely (c, past) a) : ∃ k, c'.node.modeOf k = .stop ∧
      Seen k ((c, a) :: past) ∧ ¬ Anchored k c'.node.toFleetCore := by
  have later {k : String} (seen : Seen k past) : Seen k ((c, a) :: past) := by
    obtain ⟨e, he, hsight⟩ := seen
    exact ⟨e, List.mem_cons_of_mem _ he, hsight⟩
  cases a with
  | go => exact absurd trivial untimely
  | call cb =>
    cases cb with
    | submit | timer | setPlugins | reload | setBattery => exact absurd trivial untimely
    | setMode req =>
      simp only [Timely, Classical.not_imp] at untimely
      obtain ⟨hname, seen, hheld⟩ := untimely
      cases c with
      | patrols | looping | asking => cases h
      | idle s =>
        obtain rfl := Option.some.inj h
        refine ⟨req.robot, onSetMode_modeOf hname, later seen, ?_⟩
        intro hanchored
        exact hheld ((onSetMode_anchored hw.named (known _ seen) hname).mp hanchored)
    | robotState msg =>
      simp only [Timely, Classical.not_imp, not_or] at untimely
      obtain ⟨hstop, -, hgone⟩ := untimely
      cases c with
      | patrols | looping | asking => cases h
      | idle s =>
        obtain rfl := Option.some.inj h
        refine ⟨msg.name, ?_, ⟨_, List.mem_cons_self, by simp [Action.sights]⟩, hgone⟩
        rcases s.onRobotState_modeOf msg msg.name with hsame | ⟨-, hidle, -⟩
        · exact hsame.trans hstop
        · cases hidle.symm.trans hstop

/-- In runs in which the stopped robots are heard in time, every robot that is stopped and has been
seen holds a node, and the others are kept from it. Any other step ends with a stopped robot that
holds none. -/
theorem stopped_hold_nodes {m : Conf R × Past R}
    (hm : (ticks p).traced.Reach (fun m a => a.With Callback.Plain ∧ Timely m a) m) :
    (∀ k, m.1.node.modeOf k = .stop → Seen k m.2 → ∃ v, m.1.node.traffic.owner v = some k ∧
      m.1.node.blockedByStopped v = true ∧
      ∀ q src prio, q ≠ k → (m.1.node.traffic.requestMove q src v prio).1 ≠ .grant) ∧
    ∀ a m', a.With Callback.Plain → (ticks p).traced.step m a = some m' → ¬ Timely m a →
      ∃ k, m'.1.node.modeOf k = .stop ∧ Seen k m'.2 ∧
        ∀ v, m'.1.node.traffic.owner v ≠ some k := by
  have known (m : Conf R × Past R)
      (hm : (ticks p).traced.Reach (fun m a => a.With Callback.Plain ∧ Timely m a) m) :
      m.1.Sound ∧ Wellformed m.1.node ∧ ∀ k, Seen k m.2 → k ∈ m.1.node.robots := by
    have hr : (ticks p).Reach (fun _ a => a.With Callback.Plain) m.1 :=
      hm.untraced fun _ _ h => h.1
    exact ⟨reach_sound hr, reach_wellformed (fun _ _ h => h) hr, reach_known hm⟩
  have hobstacles : Obstacles m := by
    refine (hm.assuming known).invariant (P := Obstacles) ?_ ?_
    · rintro k - ⟨e, he, -⟩
      cases he
    · rintro ⟨c, past⟩ a ⟨c', past'⟩ ⟨⟨plain, timely⟩, hsound, hw, hknown⟩ hstep ih k hstop hseen
      obtain ⟨hstep, rfl⟩ := Machine.traced_step hstep
      obtain ⟨s, req, rfl, rfl, rfl, rfl, hname, seen⟩ | ⟨hbefore, hkept, hsight⟩ :=
        stopped_cases hsound hw plain hstep hstop hseen
      · exact (onSetMode_anchored hw.named (hknown _ seen) hname).mpr (timely hname seen)
      · rcases hsight with seen | ⟨msg, rfl, rfl⟩
        · exact hkept (ih k hbefore seen)
        · rcases timely hbefore with seen | hanchored
          · exact hkept (ih _ hbefore seen)
          · exact hkept hanchored
  obtain ⟨hsound, hw, hknown⟩ := known m hm
  constructor
  · intro k hstop hseen
    obtain ⟨v, hv⟩ := hobstacles k hstop hseen
    refine ⟨v, hv, ?_, ?_⟩
    · have hmem : (v, k) ∈ m.1.node.traffic.occupancy :=
        ExtTreeMap.mem_toList_iff_getElem?_eq_some.mpr hv
      exact List.any_eq_true.mpr ⟨(v, k), hmem, by simp [hstop]⟩
    · intro q src prio hq granted
      exact hq ((ReservationDeadlock.grant_iff hw.named).mp granted k hv).symm
  · intro a m' plain hstep untimely
    obtain ⟨c, past⟩ := m
    obtain ⟨c', past'⟩ := m'
    obtain ⟨hstep, rfl⟩ := Machine.traced_step hstep
    obtain ⟨k, hstop, hseen, hgone⟩ := untimely_step hw hknown hstep untimely
    exact ⟨k, hstop, hseen, fun v hv => hgone ⟨v, hv⟩⟩

theorem stopped_hold_nodes_one : ∃ m : Conf ℚ × Past ℚ,
    (ticks (Yard.setup false [])).traced.Reach (fun m a => a.With Callback.Plain ∧ Timely m a) m ∧
    m.1.node.tasks.map (·.robot) = ["r2"] ∧ m.1.node.modeOf "r1" = .stop ∧
    ∃ v, m.1.node.traffic.owner v = some "r1" ∧
      (m.1.node.traffic.requestMove "r2" 0 v 5).1 ≠ .grant := by
  obtain ⟨m, hm, hcheck⟩ := (ticks (Yard.setup false [])).traced.exists_reach
    (fun m a => a.With Callback.Plain ∧ Timely m a)
    (fun m => decide (m.1.node.tasks.map (·.robot) = ["r2"] ∧ m.1.node.modeOf "r1" = .stop ∧
      Seen "r1" m.2))
    [.call (Yard.seen "r1" 10 0), .call (Yard.mode "r1" "STOP"), .call (Yard.seen "r2" 0 0),
      .call (Yard.send "r2" "2")] (by decide +kernel)
  obtain ⟨htasks, hstop, hseen⟩ := of_decide_eq_true hcheck
  obtain ⟨v, hv, -, hfree⟩ := (stopped_hold_nodes hm).1 "r1" hstop hseen
  exact ⟨m, hm, htasks, hstop, v, hv, hfree "r2" 0 5 (by decide)⟩

/-- A robot that is stopped before its first message claims nothing, then or later. -/
theorem stopped_before_seen : ¬ ∀ (p : Setup ℚ) (m : Conf ℚ × Past ℚ),
    (ticks p).traced.Reach (fun _ a => a.With Callback.Plain) m →
    ∀ k, m.1.node.modeOf k = .stop → Seen k m.2 → ∃ v, m.1.node.traffic.owner v = some k := by
  intro h
  obtain ⟨m, hm, hcheck⟩ := (ticks (Yard.setup false [])).traced.exists_reach
    (fun _ a => a.With Callback.Plain)
    (fun m => decide (m.1.node.modeOf "r1" = .stop ∧ Seen "r1" m.2 ∧
      ¬ Anchored "r1" m.1.node.toFleetCore))
    [.call (Yard.mode "r1" "STOP"), .call (Yard.seen "r1" 0 0)] (by decide +kernel)
  obtain ⟨hstop, hseen, hgone⟩ := of_decide_eq_true hcheck
  exact hgone (h _ m hm "r1" hstop hseen)

end LibiFleet
