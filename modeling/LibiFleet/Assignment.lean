import LibiFleet.Bookkeeping
import LibiFleet.Record

/-!
# Which robots have which tasks

Results about the runs of robots of any name: the books of the node agree, the modes
are respected when tasks are given and paths are sent, and every robot with a task has
been introduced by a state message or by the setting of its battery.
-/

namespace LibiFleet

variable {R : Type}

/-- The steps of a run, the last one first, each with the state it left. -/
abbrev Past (R : Type) := List (Conf R × Action R)

variable [Double R] {p : Setup R} {c c' : Conf R} {a : Action R}

theorem ledger_step (offers : a.With Callback.Offers) (h : c.step a = some c') (hs : c.Sound)
    (hl : Ledger c.node) : Ledger c'.node :=
  (step_effects hs h).keeps (fun _ _ _ he ht => he.ledger offers ht) hl

theorem reach_ledger {ok : Conf R → Action R → Prop}
    (offers : ∀ c a, ok c a → a.With Callback.Offers) (hc : (ticks p).Reach ok c) :
    Ledger c.node := by
  refine (hc.assuming fun _ => reach_sound).invariant (P := fun c => Ledger c.node)
    (ledger_start p) ?_
  exact fun c a c' hok hstep hl => ledger_step (offers c a hok.1) hstep hok.2 hl

theorem traced_sound {ok : Conf R × Past R → Action R → Prop} {m : Conf R × Past R}
    (hm : (ticks p).traced.Reach ok m) : m.1.Sound := by
  have hr : (ticks p).Reach (fun _ _ => True) m.1 := hm.untraced fun _ _ _ => trivial
  exact reach_sound hr

theorem traced_ledger {ok : Conf R × Past R → Action R → Prop}
    (offers : ∀ m a, ok m a → a.With Callback.Offers) {m : Conf R × Past R}
    (hm : (ticks p).traced.Reach ok m) : Ledger m.1.node := by
  have hr : (ticks p).Reach (fun _ a => a.With Callback.Offers) m.1 := hm.untraced offers
  exact reach_ledger (fun _ _ h => h) hr

/-- What every effect keeps, with the step in which it happens as part of the past, holds in every
state of a run. -/
theorem reach_remembers {ok : Conf R × Past R → Action R → Prop}
    (offers : ∀ c a, ok c a → a.With Callback.Offers) {P : FleetNode R → Past R → Prop}
    (start : P (FleetNode.start p) []) (mono : ∀ s past e, P s past → P s (e :: past))
    (keeps : ∀ c past a robot s s', ok (c, past) a → Effect c a robot s s' → Ledger c.node →
      Ledger s → P s ((c, a) :: past) → P s' ((c, a) :: past))
    {m : Conf R × Past R} (hm : (ticks p).traced.Reach ok m) : P m.1.node m.2 := by
  have known (m : Conf R × Past R) (hm : (ticks p).traced.Reach ok m) :
      m.1.Sound ∧ Ledger m.1.node :=
    ⟨traced_sound hm, traced_ledger offers hm⟩
  refine (hm.assuming known).invariant (P := fun m => P m.1.node m.2) start ?_
  rintro ⟨c, past⟩ a ⟨c', past'⟩ ⟨hok, hsound, hledger⟩ hstep hP
  obtain ⟨hstep, rfl⟩ := Machine.traced_step hstep
  have hboth : Ledger c'.node ∧ P c'.node ((c, a) :: past) := by
    refine (step_effects hsound hstep).keeps
      (P := fun s => Ledger s ∧ P s ((c, a) :: past)) ?_ ⟨hledger, mono _ _ _ hP⟩
    intro robot s s' he hs
    have hnew := keeps c past a robot s s' hok he hledger hs.1 hs.2
    exact ⟨he.ledger (offers _ _ hok) hs.1, hnew⟩
  exact hboth.2

/-- The same where the past does not matter. -/
theorem reach_books {ok : Conf R → Action R → Prop}
    (offers : ∀ c a, ok c a → a.With Callback.Offers) {P : FleetNode R → Prop}
    (start : P (FleetNode.start p))
    (keeps : ∀ c a robot s s', ok c a → Effect c a robot s s' → Ledger c.node → Ledger s →
      P s → P s') (hc : (ticks p).Reach ok c) : P c.node := by
  obtain ⟨past, hpast⟩ := hc.traced
  exact reach_remembers (P := fun s _ => P s) (fun m a h => offers m.1 a h) start
    (fun _ _ _ h => h) (fun c _ a robot s s' => keeps c a robot s s') hpast

/-- The plugin of the constructor stays in use. -/
theorem reach_auction {s : FleetNode R} (hs : (fleet p).Reach (fun _ cb => cb.Steady) s) :
    s.dispatcher = Auction.assign :=
  reach_books (c := .idle s) (P := fun s => s.dispatcher = Auction.assign)
    (fun _ _ h => h.mono fun _ => Callback.Steady.offers) rfl
    (fun _ _ _ _ _ steady he _ _ hP => (he.auction steady).trans hP) (reach_ticks hs)

/-- Every robot has one task at most and is then known and busy with its id; an entry without a
task is neither busy nor has an id. -/
theorem books_agree (hc : (ticks p).Reach (fun _ a => a.With Callback.Offers) c) :
    (c.node.tasks.map (·.robot)).Nodup ∧ (∀ t ∈ c.node.tasks, t.robot ∈ c.node.robots) ∧
      ∀ k r, c.node.robots[k]? = some r →
        (∃ t ∈ c.node.tasks, t.robot = k ∧ r.busy = true ∧ r.taskId = t.id) ∨
          (∀ t ∈ c.node.tasks, t.robot ≠ k) ∧ r.busy = false ∧ r.taskId = "" := by
  have hl : Ledger c.node := reach_ledger (fun _ _ h => h) hc
  have hs : Signed c.node := reach_books (fun _ _ h => h) (signed_start p)
    (fun _ _ _ _ _ _ he _ hl hs => he.signed hl hs) hc
  refine ⟨hl.once, hl.known, ?_⟩
  intro k r hr
  obtain ⟨-, hbusy⟩ := hl.entries k r hr
  obtain ⟨hid, hnone⟩ := hs k r hr
  by_cases hk : ∃ t ∈ c.node.tasks, t.robot = k
  · obtain ⟨t, ht, he⟩ := hk
    exact .inl ⟨t, ht, he, hbusy.mpr ⟨t, ht, he⟩, hid t ht he⟩
  · have hno : ∀ t ∈ c.node.tasks, t.robot ≠ k := fun t ht he => hk ⟨t, ht, he⟩
    exact .inr ⟨hno, Bool.eq_false_of_not_eq_true fun hb => hk (hbusy.mp hb), hnone hno⟩

theorem books_agree_swapped : ∃ s : FleetNode ℚ,
    (ticks (Yard.setup false [])).Reach (fun _ a => a.With Callback.Offers) (.idle s) ∧
    s.activeDisp = "libi_fleet::Auction" ∧
    (s.tasks.map fun t => (t.robot, t.id)) = [("r1", "T-1")] ∧
    ∀ r, s.robots["r1"]? = some r → r.busy = true ∧ r.taskId = "T-1" := by
  obtain ⟨s, hs, htasks⟩ := (fleet (Yard.setup false [])).exists_reach
    (fun _ cb => cb.Steady) (fun s => (s.tasks.map fun t => (t.robot, t.id)) = [("r1", "T-1")])
    [Yard.seen "r1" 0 0, Yard.send "r1" "2", .timer] (by decide +kernel)
  have htasks := of_decide_eq_true htasks
  have hoffers : (ticks (Yard.setup false [])).Reach (fun _ a => a.With Callback.Offers)
      (.idle s) :=
    (reach_ticks hs).mono fun _ _ h => h.mono fun _ => Callback.Steady.offers
  let req : SetPluginsRequest := ⟨"libi_fleet::Auction", ""⟩
  let s' := (s.onSetPlugins req (.ok Auction.assign) (.error "")).1
  have hs' : (ticks (Yard.setup false [])).Reach (fun _ a => a.With Callback.Offers)
      (.idle s') := by
    refine .step (a := .call (.setPlugins req (.ok Auction.assign) (.error ""))) hoffers ?_ rfl
    intro d hd
    cases hd
    exact Auction.picks
  refine ⟨s', hs', rfl, htasks, ?_⟩
  intro r hr
  obtain ⟨t, ht, hrobot, hbusy, hid⟩ | ⟨hnone, -⟩ := (books_agree hs').2.2 "r1" r hr
  · refine ⟨hbusy, hid.trans ?_⟩
    have hmem : (t.robot, t.id) ∈ s.tasks.map fun t => (t.robot, t.id) :=
      List.mem_map_of_mem (f := fun t : ActiveTask ℚ => (t.robot, t.id)) ht
    rw [htasks, List.mem_singleton] at hmem
    exact congrArg Prod.snd hmem
  · have hmem : ("r1", "T-1") ∈ s.tasks.map fun t => (t.robot, t.id) := by simp [htasks]
    obtain ⟨t, ht, he⟩ := List.mem_map.mp hmem
    exact absurd (congrArg Prod.fst he) (hnone t ht)

/-- No robot with a task is stopped, and no robot with a patrol idle. -/
def Obedient (s : FleetNode R) : Prop := ∀ t ∈ s.tasks, s.modeOf t.robot ≠ .stop ∧
  (t.patrol = true → s.modeOf t.robot = .patrol ∨ s.modeOf t.robot = .charge)

theorem Effect.obedient {robot : String} {s s' : FleetNode R} (h : Effect c a robot s s')
    (hc : Ledger c.node) (hl : Ledger s) (hs : Obedient s) : Obedient s' := by
  intro t ht
  have unstopped := h.unstopped hl hc (fun u hu => (hs u hu).1) t ht
  refine ⟨unstopped, ?_⟩
  intro patrol
  obtain ⟨u, hu, same⟩ | ⟨hr, -, -, hmode, -⟩ := h.origin hl ht
  · have hold := (hs u hu).2 (same.patrol ▸ patrol)
    rw [same.robot]
    rcases h.mode_tasked hu with hsame | hcharge | ⟨-, hpatrol⟩
    · rwa [hsame]
    · exact .inr hcharge
    · exact .inl hpatrol
  · rw [hr]
    exact .inl (hmode patrol)

/-- A robot with a task is not stopped, and a robot with a patrol is on PATROL or CHARGE; so no
path is ever sent to a robot that is stopped, nor for the patrol of an idle one. -/
theorem modes_respected (hc : (ticks p).Reach (fun _ a => a.With Callback.Steady) c) :
    (∀ t ∈ c.node.tasks, c.node.modeOf t.robot ≠ .stop ∧
      (t.patrol = true → c.node.modeOf t.robot = .patrol ∨ c.node.modeOf t.robot = .charge)) ∧
    ∀ a c', (ticks p).step c a = some c' → ∀ fleetName r taskId x y v target,
      .pathRequest fleetName r taskId x y v target ∈ c.node.news c'.node.toFleetCore →
        c.node.modeOf r ≠ .stop ∧
          ∀ t ∈ c.node.tasks, t.robot = r → t.patrol = true → c.node.modeOf r ≠ .idle := by
  have offers (c : Conf R) (a : Action R) (h : a.With Callback.Steady) :
      a.With Callback.Offers := h.mono fun _ => Callback.Steady.offers
  have hobedient : Obedient c.node := by
    refine reach_books offers (P := Obedient) ?_ ?_ hc
    · intro t ht
      cases ht
    · exact fun _ _ _ _ _ _ he hc hl hs => he.obedient hc hl hs
  refine ⟨hobedient, ?_⟩
  intro a c' hstep fleetName r taskId x y v target he
  obtain ⟨robot, s, s', heffect, -, he⟩ :=
    (step_effects (reach_sound hc) hstep).exists_news (I := fun _ => True) (by simp) trivial he
  obtain ⟨rfl, t, ht, rfl, -⟩ := heffect.sends he
  refine ⟨(hobedient t ht).1, ?_⟩
  intro u hu hr patrol hidle
  rw [← hr] at hidle
  obtain hmode | hmode := (hobedient u hu).2 patrol
  · rw [hidle] at hmode
    cases hmode
  · rw [hidle] at hmode
    cases hmode

theorem modes_respected_patrol : ∃ c c' : Conf ℚ,
    (ticks (Yard.setup true [0, 1, 2, 4, 3])).Reach (fun _ a => a.With Callback.Steady) c ∧
    c.step .go = some c' ∧ .pathRequest "libi" "r1" "r1-1" 0 0 1 ⟨10, 0⟩ ∈
      c.node.news c'.node.toFleetCore ∧
    c.node.modeOf "r1" ≠ .stop ∧ c.node.modeOf "r1" ≠ .idle := by
  obtain ⟨c, hc, hcheck⟩ := (ticks (Yard.setup true [0, 1, 2, 4, 3])).exists_reach
    (fun _ a => a.With Callback.Steady)
    (fun c => decide ((∃ c' ∈ c.step .go, .pathRequest "libi" "r1" "r1-1" 0 0 1 ⟨10, 0⟩ ∈
      c.node.news c'.node.toFleetCore) ∧ ∃ t ∈ c.node.tasks, t.robot = "r1" ∧ t.patrol = true))
    (.call (Yard.seen "r1" 0 0) :: Yard.taken .timer 3) (by decide +kernel)
  obtain ⟨⟨c', hstep, he⟩, t, ht, hr, hpatrol⟩ := of_decide_eq_true hcheck
  obtain ⟨unstopped, busy⟩ := (modes_respected hc).2 .go c' hstep _ _ _ _ _ _ _ he
  exact ⟨c, c', hc, hstep, he, unstopped, busy t ht hr hpatrol⟩

namespace Action

/-- A state message of the robot `k`. -/
def sights (k : String) : Action R → Bool
  | .call (.robotState msg) => msg.name = k
  | _ => false

omit [Double R] in
theorem sights_iff {k : String} {a : Action R} :
    a.sights k = true ↔ ∃ msg, a = .call (.robotState msg) ∧ msg.name = k := by
  constructor
  · intro h
    unfold sights at h
    split at h
    · rename_i msg
      exact ⟨msg, rfl, by simpa using h⟩
    · cases h
  · rintro ⟨msg, rfl, rfl⟩
    simp [sights]

/-- A setting of the battery of the robot `k`. -/
def powers (k : String) : Action R → Bool
  | .call (.setBattery req) => req.robot = k
  | _ => false

end Action

/-- A state message of the robot has been received. -/
def Seen (k : String) (past : Past R) : Prop := ∃ e ∈ past, e.2.sights k = true

/-- The battery of the robot has been set. -/
def Powered (k : String) (past : Past R) : Prop := ∃ e ∈ past, e.2.powers k = true

instance (k : String) (past : Past R) : Decidable (Seen k past) :=
  inferInstanceAs (Decidable (∃ e ∈ past, e.2.sights k = true))

/-- The robots in `robots_` have been seen, or their batteries have been set. -/
theorem reach_introduced {ok : Conf R × Past R → Action R → Prop}
    (offers : ∀ c a, ok c a → a.With Callback.Offers) {m : Conf R × Past R}
    (hm : (ticks p).traced.Reach ok m) :
    ∀ k ∈ m.1.node.robots, Seen k m.2 ∨ Powered k m.2 := by
  have later {k : String} {past : Past R} (e : Conf R × Action R)
      (h : Seen k past ∨ Powered k past) : Seen k (e :: past) ∨ Powered k (e :: past) := by
    rcases h with ⟨x, hx, hk⟩ | ⟨x, hx, hk⟩
    · exact .inl ⟨x, List.mem_cons_of_mem _ hx, hk⟩
    · exact .inr ⟨x, List.mem_cons_of_mem _ hx, hk⟩
  refine reach_remembers offers (P := fun s past => ∀ k ∈ s.robots, Seen k past ∨ Powered k past)
    ?_ ?_ ?_ hm
  · intro k hk
    simp [FleetNode.start] at hk
  · exact fun s past e hs k hk => later e (hs k hk)
  · intro c past a robot s s' _ he _ hl hs k hk
    rcases he.newcomer hl hk with hold | ⟨msg, rfl, hname⟩ | ⟨req, rfl, hname⟩
    · exact hs k hold
    · exact .inl ⟨_, List.mem_cons_self, by simpa [Action.sights] using hname⟩
    · exact .inr ⟨_, List.mem_cons_self, by simpa [Action.powers] using hname⟩

/-- A task is only ever made for a robot that has been seen, or whose battery has been set. -/
theorem tasks_introduced {m : Conf R × Past R}
    (hm : (ticks p).traced.Reach (fun _ a => a.With Callback.Steady) m) :
    ∀ t ∈ m.1.node.tasks, Seen t.robot m.2 ∨ Powered t.robot m.2 := by
  have offers (m : Conf R × Past R) (a : Action R) (h : a.With Callback.Steady) :
      a.With Callback.Offers := h.mono fun _ => Callback.Steady.offers
  have hl : Ledger m.1.node := traced_ledger offers hm
  exact fun t ht => reach_introduced offers hm t.robot (hl.known t ht)

theorem tasks_introduced_battery : ∃ m : Conf ℚ × Past ℚ,
    (ticks (Yard.setup false [])).traced.Reach (fun _ a => a.With Callback.Steady) m ∧
    (m.1.node.tasks.map (·.robot)) = ["r9"] ∧ ¬ Seen "r9" m.2 ∧ Powered "r9" m.2 := by
  obtain ⟨m, hm, hcheck⟩ := (ticks (Yard.setup false [])).traced.exists_reach
    (fun _ a => a.With Callback.Steady)
    (fun m => decide ((m.1.node.tasks.map (·.robot)) = ["r9"] ∧ ¬ Seen "r9" m.2))
    [.call (.setBattery ⟨"r9", 80⟩), .call (Yard.send "" "1")] (by decide +kernel)
  obtain ⟨htasks, unseen⟩ := of_decide_eq_true hcheck
  obtain ⟨t, ht, hr⟩ := List.mem_map.mp (htasks ▸ List.mem_singleton_self "r9")
  have hpowered := hr ▸ tasks_introduced hm t ht
  exact ⟨m, hm, htasks, unseen, hpowered.resolve_left unseen⟩

/-- The setting of a battery makes an entry for a robot that was never seen. It stands at the
origin, wins the auction there and gets a task. -/
theorem task_of_unseen : ¬ ∀ (p : Setup ℚ) (m : Conf ℚ × Past ℚ),
    (ticks p).traced.Reach (fun _ a => a.With Callback.Steady) m →
    ∀ t ∈ m.1.node.tasks, Seen t.robot m.2 := by
  intro h
  obtain ⟨m, hm, hcheck⟩ := (ticks (Yard.setup false [])).traced.exists_reach
    (fun _ a => a.With Callback.Steady)
    (fun m => decide (∃ t ∈ m.1.node.tasks, ¬ Seen t.robot m.2))
    [.call (.setBattery ⟨"r9", 80⟩), .call (Yard.send "" "1")] (by decide +kernel)
  obtain ⟨t, ht, unseen⟩ := of_decide_eq_true hcheck
  exact unseen (h _ m hm t ht)

end LibiFleet
