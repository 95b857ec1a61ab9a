import LibiFleet.Feed
import LibiFleet.Gateway
import LibiFleet.Wire

/-!
# The cards of the robots

The page asks the console for `/api/state` and draws a card for every robot. What stands on
it has come on four topics and by three services. At the end of a tick it is what the node
has.
-/

namespace LibiFleet

open Json
open Std (ExtTreeMap)

variable {R : Type} [Double R]

/-- The part of `/api/state` from which the card of a robot is made. -/
structure Status (R : Type) where
  battery : R
  fleetMode : String
  routes : Document (Atom R)
  goals : Document (Atom R)
  tasks : List Notice

def Bridge.state (notes : Notes R) (log : List (Event R)) (name : String) : Status R where
  battery := (notes.batteryOverride name).getD 100
  fleetMode := (notes.fleetMode name).getD ""
  routes := (shown log).routes
  goals := (shown log).goals
  tasks := stateTasks (taskLog (notices log))

/-- What a card says. The goal is what stands after the `v`. -/
structure Card (R : Type) where
  chip : String
  battery : Int
  job : String
  goal : Option (Document (Atom R))

namespace Page

/-- `S.goals[n]`, if it is not `null`. -/
def goal (S : Status R) (n : String) : Option (Document (Atom R)) :=
  match S.goals.field (.text n) with
  | some (.scalar .null) => none
  | gv => gv

def hasRoute (S : Status R) (n : String) : Bool :=
  match S.routes.field (.text n) with
  | some (.seq ps) => 2 ≤ ps.length
  | _ => false

def chip (S : Status R) (n : String) : String :=
  if S.fleetMode = "STOP" then "정지"
  else if S.fleetMode = "CHARGE" then "충전복귀"
  else if (goal S n).isSome then "배차"
  else if hasRoute S n then "순회"
  else "대기"

def job (S : Status R) (n : String) : String :=
  if (goal S n).isSome then
    match Bridge.curTask n S.tasks with
    | some m => m.taskId ++ if m.state = "" then "" else " · " ++ m.state
    | none => "배차 중"
  else if hasRoute S n then "순회"
  else "—"

/-- A card of `renderCards`. -/
def renderCard (S : Status R) (n : String) : Card R where
  chip := chip S n
  battery := ⌊S.battery + 1 / 2⌋
  job := job S n
  goal := goal S n

end Page

def chipText (mode : Mode) (task : Option (ActiveTask R)) : String :=
  if mode = .stop then "정지"
  else if mode = .charge then "충전복귀"
  else match task with
    | some t => if t.patrol then "순회" else "배차"
    | none => "대기"

/-- A dispatched task is named, if the feed still has it. -/
def jobTexts : Option (ActiveTask R) → List String
  | some t =>
    if t.patrol then ["순회"]
    else ["배차 중", t.id ++ " · ASSIGNED", t.id ++ " · EXECUTING"]
  | none => ["—"]

/-- The card of a robot tells what the node has. The battery on it is the one that the console
shows, and the node has it as a `float32` and within the percentages. -/
structure Card.Tells (card : Card R) (s : FleetNode R) (n : String) : Prop where
  chip : card.chip = chipText (s.modeOf n) (roll s.tasks n)
  job : card.job ∈ jobTexts (roll s.tasks n)
  goal : card.goal = ((roll s.tasks n).filter (!·.patrol)).map fun t => .scalar (.int t.back)
  battery : ∃ value : Option R, s.batteryOf n = level value ∧
    card.battery = ⌊value.getD 100 + 1 / 2⌋

section Reading

variable {s : FleetNode R} {S : Status R} {n : String} {view : Bridge.View R}

theorem goal_roll (shows : ShowsTasks view s) (once : (s.tasks.map (·.robot)).Nodup)
    (goals : S.goals = view.goals) :
    Page.goal S n = ((roll s.tasks n).filter (!·.patrol)).map fun t => .scalar (.int t.back) := by
  unfold Page.goal
  rw [goals]
  cases hroll : roll s.tasks n with
  | none =>
    have hnone : view.goals.field (.text n) = none := by
      rw [Option.eq_none_iff_forall_ne_some]
      intro e he
      obtain ⟨t, ht, hr, -⟩ := (shows.goals n e).mp he
      exact roll_none.mp hroll t ht hr
    rw [hnone]
    rfl
  | some t =>
    obtain ⟨ht, rfl⟩ := roll_some hroll
    cases hp : t.patrol with
    | false =>
      rw [(shows.goals t.robot _).mpr ⟨t, ht, rfl, hp, rfl⟩]
      simp [hp]
    | true =>
      have hnone : view.goals.field (.text t.robot) = none := by
        rw [Option.eq_none_iff_forall_ne_some]
        intro e he
        obtain ⟨u, hu, hr, dispatched, -⟩ := (shows.goals _ e).mp he
        obtain rfl := List.inj_on_of_nodup_map once hu ht hr
        cases dispatched.symm.trans hp
      rw [hnone]
      simp [hp]

theorem mapM_length {α β : Type} {f : α → Option β} {l : List α} {bs : List β}
    (h : l.mapM f = some bs) : bs.length = l.length := by
  induction l generalizing bs with
  | nil =>
    obtain rfl := Option.some.inj h
    rfl
  | cons a l ih =>
    rw [List.mapM_cons] at h
    obtain ⟨b, -, h⟩ := Option.bind_eq_some_iff.mp h
    obtain ⟨bs, hbs, h⟩ := Option.bind_eq_some_iff.mp h
    obtain rfl := Option.some.inj h
    rw [List.length_cons, List.length_cons, ih hbs]

omit [Double R] in
/-- What is left of a path has a vertex before the next one. -/
theorem remaining_long {t : ActiveTask R} (placed : t.Placed) {vs : List (Vertex R)}
    (h : s.remaining t = some vs) : 2 ≤ vs.length := by
  obtain ⟨hpos, hlt⟩ := placed
  rw [mapM_length h, List.length_drop]
  omega

/-- A robot has a route if and only if it has a task. -/
theorem hasRoute_roll (shows : ShowsTasks view s) (placed : ∀ t ∈ s.tasks, t.Placed)
    (drawn : ∀ t ∈ s.tasks, (s.remaining t).isSome) (routes : S.routes = view.routes) :
    Page.hasRoute S n = (roll s.tasks n).isSome := by
  unfold Page.hasRoute
  rw [routes]
  cases hroll : roll s.tasks n with
  | none =>
    have hnone : view.routes.field (.text n) = none := by
      rw [Option.eq_none_iff_forall_ne_some]
      intro e he
      obtain ⟨t, ht, hr, -⟩ := (shows.routes n e).mp he
      exact roll_none.mp hroll t ht hr
    rw [hnone]
    rfl
  | some t =>
    obtain ⟨ht, rfl⟩ := roll_some hroll
    obtain ⟨vs, hvs⟩ := Option.isSome_iff_exists.mp (drawn t ht)
    rw [(shows.routes t.robot _).mpr ⟨t, ht, rfl, by rw [hvs, Option.map_some]⟩]
    simpa using remaining_long (placed t ht) hvs

end Reading

section Telling

variable {s : FleetNode R} {S : Status R} {n : String} {view : Bridge.View R}

theorem ModeShown.chips {mode : Option Mode} {name : Option String} (h : ModeShown mode name) :
    (name.getD "" = "STOP" ↔ mode.getD .idle = .stop) ∧
      (name.getD "" = "CHARGE" ↔ mode.getD .idle = .charge) := by
  cases name with
  | none =>
    cases mode with
    | none => simp
    | some m => simpa [ModeShown] using h
  | some name =>
    obtain ⟨hsome, rfl⟩ := h
    unfold Mode.ofString? at hsome ⊢
    split_ifs at hsome ⊢ with h₁ h₂ h₃ h₄ <;> simp_all

theorem chip_tells {mode : Mode} (stop : S.fleetMode = "STOP" ↔ mode = .stop)
    (charge : S.fleetMode = "CHARGE" ↔ mode = .charge)
    (goal : (Page.goal S n).isSome = ((roll s.tasks n).filter (!·.patrol)).isSome)
    (route : Page.hasRoute S n = (roll s.tasks n).isSome) :
    Page.chip S n = chipText mode (roll s.tasks n) := by
  unfold Page.chip chipText
  rw [goal, route]
  simp only [stop, charge]
  cases roll s.tasks n with
  | none => rfl
  | some t => cases hp : t.patrol <;> simp [hp]

theorem job_tells {seen : List Notice} (once : (s.tasks.map (·.robot)).Nodup)
    (carded : Carded seen (book s.tasks)) (feed : S.tasks = Bridge.stateTasks (Bridge.taskLog seen))
    (plain : ∀ t ∈ s.tasks, t.robot = n → t.patrol = false → ¬ "P-".toList <+: t.id.toList)
    (goal : (Page.goal S n).isSome = ((roll s.tasks n).filter (!·.patrol)).isSome)
    (route : Page.hasRoute S n = (roll s.tasks n).isSome) :
    Page.job S n ∈ jobTexts (roll s.tasks n) := by
  unfold Page.job jobTexts
  rw [goal, route, feed]
  cases hroll : roll s.tasks n with
  | none => simp
  | some t =>
    obtain ⟨ht, rfl⟩ := roll_some hroll
    cases hp : t.patrol with
    | true => simp [hp]
    | false =>
      have held : book s.tasks t.robot = some ⟨t.id, false⟩ := by
        rw [book_of_mem once ht, ActiveTask.order, hp]
      cases hm : Bridge.curTask t.robot (Bridge.stateTasks (Bridge.taskLog seen)) with
      | none => simp [hp]
      | some m =>
        obtain ⟨-, hid, hstate⟩ := carded.shown held (plain t ht rfl hp) hm
        rcases hstate with hstate | hstate <;> simp [hp, hid, hstate]

end Telling

/-! ## At the end of a tick -/

section Quiet

variable {p : Setup R} {n : String} {l l' : Gateway R} {s : FleetNode R}

/-- The mode and the battery of the robot are changed by the console only, one call after the
other. The robots have names that need no escape, and a dispatcher that is swapped in keeps to
what the plugin header says of it. -/
def Gateway.Quiet (p : Setup R) (n : String) (l : Gateway R) (m : Move (Action R) (Demand R)) :
    Prop :=
  (modeEntry p n).Calm (fun _ a => a.With Callback.Unasked) l m ∧
    (batteryEntry p n).Calm (fun _ a => a.With Callback.Unasked) l m ∧
    Gateway.Handles (fun cb => cb.Offers ∧ cb.Legible) l m

theorem Gateway.quiet_go (p : Setup R) (n : String) (l : Gateway R) :
    Gateway.Quiet p n l (.own .go) := by
  have go (P : Callback R → Prop) : (Action.go : Action R).With P := trivial
  exact ⟨go Callback.Unasked, go Callback.Unasked, go fun cb => cb.Offers ∧ cb.Legible⟩

/-- The node is between two callbacks again when it has published what it has. -/
theorem go_idle {c : Conf R} (h : c.step .go = some (.idle s)) :
    ∃ s₀ : FleetNode R, s₀.publish = some s := by
  cases c with
  | idle => cases h
  | patrols s₀ keys =>
    cases keys with
    | nil => cases h
    | cons key keys =>
      obtain ⟨_, -, heq⟩ := Option.map_eq_some_iff.mp h
      cases heq
  | asking =>
    obtain ⟨_, -, heq⟩ := Option.map_eq_some_iff.mp h
    cases heq
  | looping s₀ kept todo =>
    cases todo with
    | nil =>
      obtain ⟨s', hs', heq⟩ := Option.map_eq_some_iff.mp h
      cases heq
      exact ⟨_, hs'⟩
    | cons t todo =>
      obtain ⟨⟨_, o⟩, -, heq⟩ := Option.map_eq_some_iff.mp h
      cases o with
      | none => cases heq
      | some t =>
        dsimp only at heq
        split at heq <;> cases heq

omit [Double R] in
/-- What is published is defined, and publishing changes nothing else. -/
theorem publish_drawn {s₀ : FleetNode R} (h : s₀.publish = some s) :
    s₀.tasks = s.tasks ∧ ∀ t ∈ s.tasks, (s.remaining t).isSome := by
  obtain ⟨routes, hroutes, h⟩ := Option.bind_eq_some_iff.mp h
  obtain rfl := Option.some.inj h
  refine ⟨rfl, ?_⟩
  intro t ht
  have hsome := mapM_isSome.mp (Option.isSome_of_eq_some hroutes) t ht
  rw [Option.isSome_map] at hsome
  exact hsome

theorem reach_placed {c : Conf R} (hc : (ticks p).Reach (fun _ a => a.With Callback.Offers) c) :
    ∀ t ∈ c.node.tasks, t.Placed := by
  have fits : ∀ t ∈ c.node.tasks, t.Fits c.node.patrolRoute := by
    refine reach_books (P := fun s => ∀ t ∈ s.tasks, t.Fits s.patrolRoute) (fun _ _ h => h) ?_ ?_ hc
    · simp [FleetNode.start]
    · intro c a robot s s' _ he _ _ hs
      rw [he.patrolRoute_eq]
      exact he.fits hs
  exact fun t ht => (fits t ht).1

/-- At the end of a tick the card of a robot tells its mode, its task, where that leads and its
battery, whatever the callers of the services have been up to, if nobody else has called for its
mode and its battery and none of these calls is under way. -/
theorem cards_tell (hl : (gateway p).line.Reach (Gateway.Quiet p n) l)
    (tick : (gateway p).step l (.own .go) = some l') (done : l'.server = .idle s)
    (still : ∀ k ∈ l.calls, (k.request.2.callback.setsMode n = true ∨
      k.request.2.callback.setsBattery n = true) → k.open = false)
    (plain : ∀ t ∈ s.tasks, t.robot = n → t.patrol = false → ¬ "P-".toList <+: t.id.toList) :
    (Page.renderCard (Bridge.state l'.client s.log n) n).Tells s n := by
  have hl' : (gateway p).line.Reach (Gateway.Quiet p n) l' := .step hl (Gateway.quiet_go p n l) tick
  obtain ⟨c, hgo, rfl⟩ := Option.map_eq_some_iff.mp tick
  obtain rfl : c = .idle s := done
  have hmode : ModeShown s.robotMode[n]? (l.client.fleetMode n) :=
    gateway_settled (modeEntry_sound n) (hl'.mono fun _ _ h => h.1)
      fun k hk h => still k hk (.inl h)
  have hbattery : s.batteryOf n = level (l.client.batteryOverride n) :=
    gateway_settled (batteryEntry_sound n) (hl'.mono fun _ _ h => h.2.1)
      fun k hk h => still k hk (.inr h)
  have hc := reach_handles (hl'.mono fun _ _ h => h.2.2)
  have hoffers : (ticks p).Reach (fun _ a => a.With Callback.Offers) (.idle s) :=
    hc.mono fun _ _ h => h.mono fun _ h => h.1
  have hledger : Ledger s := reach_ledger (fun _ _ h => h) hoffers
  have placed : ∀ t ∈ s.tasks, t.Placed := reach_placed hoffers
  have carded : Carded (notices s.log) (book s.tasks) := reach_carded hoffers
  obtain ⟨s₀, hpublish⟩ := go_idle hgo
  obtain ⟨same, drawn⟩ := publish_drawn hpublish
  have names : ∀ t ∈ s.tasks, Unescaped t.robot := fun t ht => reach_names hc _ (hledger.known t ht)
  have shows : ShowsTasks (Bridge.shown s.log) s :=
    publish_tasks hpublish (same ▸ hledger.once) (same ▸ names)
  obtain ⟨hstop, hcharge⟩ := hmode.chips
  rw [← ExtTreeMap.getD_eq_getD_getElem?] at hstop hcharge
  have hgoal : Page.goal (Bridge.state l.client s.log n) n =
      ((roll s.tasks n).filter (!·.patrol)).map fun t => .scalar (.int t.back) :=
    goal_roll shows hledger.once rfl
  have hroute : Page.hasRoute (Bridge.state l.client s.log n) n = (roll s.tasks n).isSome :=
    hasRoute_roll shows placed drawn rfl
  have hsome := (congrArg Option.isSome hgoal).trans Option.isSome_map
  exact ⟨chip_tells hstop hcharge hsome hroute,
    job_tells hledger.once carded rfl plain hsome hroute, hgoal, _, hbattery, rfl⟩

/-- A robot has been sent, and its battery has been set, while the entrance asks for another. -/
theorem cards_tell_sent : ∃ s : FleetNode ℚ, ∃ notes : Bridge.Notes ℚ,
    (∃ t ∈ s.tasks, t.robot = "r1" ∧ t.patrol = false) ∧ notes.batteryOverride "r1" = some 80 ∧
    (Page.renderCard (Bridge.state notes s.log "r1") "r1").Tells s "r1" := by
  let setup := Yard.setup false []
  obtain ⟨l, hl, hcheck⟩ := (gateway setup).line.exists_reach_of (Gateway.Quiet setup "r1")
    (fun l m => (modeEntry setup "r1").Calm (fun _ a => a.With Callback.Unasked) l m ∧
      (batteryEntry setup "r1").Calm (fun _ a => a.With Callback.Unasked) l m ∧
      Gateway.Handles (fun cb => cb.Steady ∧ cb.Legible) l m)
    (fun l => ((gateway setup).step l (.own .go)).any fun l' => l'.server.rests fun s =>
      decide ((∃ t ∈ s.tasks, t.robot = "r1" ∧ t.patrol = false ∧ t.id = "T-1") ∧
        (∀ t ∈ s.tasks, t.robot = "r1" → t.id = "T-1") ∧
        l'.client.batteryOverride "r1" = some 80 ∧
        ∀ k ∈ l.calls, (k.request.2.callback.setsMode "r1" = true ∨
          k.request.2.callback.setsBattery "r1" = true) → k.open = false))
    [.own (.call (Yard.seen "r1" 0 0)), .call (.console, .setBattery ⟨"r1", 80⟩), .take 0,
      .call (.console, .submit (Bridge.submitRequest 2 "r1" 0 0 "")), .answer 0, .take 1,
      .call (.aba, .submit (RosBridge.submitRequest "1" "")), .own (.call .timer), .own .go,
      .own .go, .own .go]
    (fun _ _ _ h => ⟨h.1, h.2.1, h.2.2.mono fun _ h => ⟨h.1.offers, h.2⟩⟩) (by decide +kernel)
  obtain ⟨l', tick, hrests⟩ := (Option.any_eq_true _ _).mp hcheck
  cases done : l'.server with
  | patrols | looping | asking =>
    rw [done] at hrests
    cases hrests
  | idle s =>
    rw [done] at hrests
    obtain ⟨⟨t, ht, hr, dispatched, -⟩, ids, hvalue, still⟩ := of_decide_eq_true hrests
    refine ⟨s, l'.client, ⟨t, ht, hr, dispatched⟩, hvalue, cards_tell hl tick done still ?_⟩
    intro u hu hur _
    rw [ids u hu hur]
    decide

end Quiet

end LibiFleet
