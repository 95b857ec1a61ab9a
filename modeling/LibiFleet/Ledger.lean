import LibiFleet.Frames

/-!
# The books of the node

`busy` and `task_id` of an entry of `robots_` repeat what `tasks_` says. Every step
keeps the copies in agreement, whatever the robots are called and whichever plugins
are loaded, as long as a dispatcher answers with a robot it was offered.
-/

namespace LibiFleet

open Std (ExtTreeMap)

variable {R : Type}

/-- The dispatcher answers with a robot it was offered, or with `""`. -/
def Dispatcher.Picks (d : Dispatcher R) : Prop :=
  ∀ goal arm robots g e w, d goal arm robots g e = some w → w ≠ "" → ∃ r ∈ robots, r.name = w

/-- A dispatcher that is swapped in keeps to what the plugin header says of it. -/
def Callback.Offers : Callback R → Prop
  | setPlugins _ disp _ => ∀ d, disp = .ok d → d.Picks
  | _ => True

theorem Callback.Steady.offers {cb : Callback R} (h : cb.Steady) : cb.Offers := by
  cases cb with
  | setPlugins => cases h
  | _ => trivial

/-- One task for a robot, which is then known and busy; and entries under their names. -/
structure Ledger (s : FleetNode R) : Prop where
  once : (s.tasks.map (·.robot)).Nodup
  known : ∀ t ∈ s.tasks, t.robot ∈ s.robots
  entries : ∀ k r, s.robots[k]? = some r → r.name = k ∧
    (r.busy = true ↔ ∃ t ∈ s.tasks, t.robot = k)
  picks : s.dispatcher.Picks

/-- `t` is the same task as `u`, at another time. -/
structure ActiveTask.Continues (u t : ActiveTask R) : Prop where
  robot : t.robot = u.robot
  id : t.id = u.id
  patrol : t.patrol = u.patrol
  startSeq : t.startSeq = u.startSeq

theorem ActiveTask.Continues.refl (t : ActiveTask R) : t.Continues t := ⟨rfl, rfl, rfl, rfl⟩

theorem ActiveTask.Continues.trans {t u v : ActiveTask R} (h : t.Continues u)
    (h' : u.Continues v) : t.Continues v where
  robot := h'.robot.trans h.robot
  id := h'.id.trans h.id
  patrol := h'.patrol.trans h.patrol
  startSeq := h'.startSeq.trans h.startSeq

theorem ActiveTask.detoured_continues (t : ActiveTask R) (path : List Int) (cause : Detour) :
    t.Continues (t.detoured path cause) :=
  ⟨detoured_robot .., detoured_id .., detoured_patrol .., detoured_startSeq ..⟩

/-- The tasks of `l'` are those of `l`, at another time. -/
structure Renews (l l' : List (ActiveTask R)) : Prop where
  old : ∀ t ∈ l', ∃ u ∈ l, u.Continues t
  kept : ∀ u ∈ l, ∃ t ∈ l', u.Continues t

theorem Renews.refl (l : List (ActiveTask R)) : Renews l l where
  old t ht := ⟨t, ht, .refl t⟩
  kept u hu := ⟨u, hu, .refl u⟩

section Renews

variable {l l' rest : List (ActiveTask R)} {u u' : ActiveTask R}

theorem Renews.head (head : l = u :: rest) (tasks : l' = u' :: rest) (h : u.Continues u') :
    Renews l l' where
  old := by
    subst head tasks
    intro t ht
    rcases List.mem_cons.mp ht with rfl | ht
    · exact ⟨u, List.mem_cons_self, h⟩
    · exact ⟨t, List.mem_cons_of_mem _ ht, .refl t⟩
  kept := by
    subst head tasks
    intro t ht
    rcases List.mem_cons.mp ht with rfl | ht
    · exact ⟨u', List.mem_cons_self, h⟩
    · exact ⟨t, List.mem_cons_of_mem _ ht, .refl t⟩

theorem Renews.turn (head : l = u :: rest) (tasks : l' = rest ++ [u']) (h : u.Continues u') :
    Renews l l' where
  old := by
    intro t ht
    rw [tasks, (List.perm_append_singleton _ _).mem_iff] at ht
    exact (Renews.head head rfl h).old t ht
  kept := by
    intro t ht
    obtain ⟨v, hv, hcont⟩ := (Renews.head head rfl h).kept t ht
    exact ⟨v, tasks ▸ (List.perm_append_singleton _ _).mem_iff.mpr hv, hcont⟩

end Renews

/-- The entry of a robot has the id of its task, and no id without one. -/
def Signed (s : FleetNode R) : Prop := ∀ k r, s.robots[k]? = some r →
  (∀ t ∈ s.tasks, t.robot = k → r.taskId = t.id) ∧
    ((∀ t ∈ s.tasks, t.robot ≠ k) → r.taskId = "")

namespace Ledger

variable {s : FleetNode R} {robot : String} {t u : ActiveTask R}

theorem eq_of_robot (hl : Ledger s) (ht : t ∈ s.tasks) (hu : u ∈ s.tasks)
    (h : t.robot = u.robot) : t = u := List.inj_on_of_nodup_map hl.once ht hu h

theorem eq_head (hl : Ledger s) {rest : List (ActiveTask R)} (head : s.tasks = t :: rest)
    (hu : u ∈ s.tasks) (h : u.robot = t.robot) : u = t := by
  refine hl.eq_of_robot hu ?_ h
  rw [head]
  exact List.mem_cons_self

/-- The robot of the first task has no other. -/
theorem robot_ne_head (hl : Ledger s) {rest : List (ActiveTask R)} (head : s.tasks = t :: rest)
    (hu : u ∈ rest) : u.robot ≠ t.robot := by
  intro h
  have once := hl.once
  rw [head, List.map_cons, List.nodup_cons] at once
  exact once.1 (h ▸ List.mem_map_of_mem hu)

/-- After a change of the first task, the robot has the changed task alone. -/
theorem eq_first (hl : Ledger s) {rest : List (ActiveTask R)} (head : s.tasks = t :: rest)
    {t' : ActiveTask R} (hu : u ∈ t' :: rest) (h : u.robot = t.robot) : u = t' := by
  rcases List.mem_cons.mp hu with rfl | hu
  · rfl
  · exact absurd h (hl.robot_ne_head head hu)

/-- The same when the task goes to the end of the queue. -/
theorem eq_turned (hl : Ledger s) {rest : List (ActiveTask R)} (head : s.tasks = t :: rest)
    {t' : ActiveTask R} (hu : u ∈ rest ++ [t']) (h : u.robot = t.robot) : u = t' :=
  hl.eq_first head ((List.perm_append_singleton _ _).mem_iff.mp hu) h

theorem exists_entry {s : FleetCore R} (hk : robot ∈ s.robots) :
    ∃ r, s.robots[robot]? = some r :=
  Option.isSome_iff_exists.mp (ExtTreeMap.mem_iff_isSome_getElem?.mp hk)

/-- A robot that is chosen for a submission is known and not stopped. -/
theorem chosen (hl : Ledger s) {goal n : Int} {req : String}
    (h : s.selectRobot goal n req = some (.ok robot)) :
    robot ∈ s.robots ∧ s.modeOf robot ≠ .stop := by
  unfold FleetNode.selectRobot at h
  split at h
  · split at h
    · cases h
    rename_i hk
    split at h
    · cases h
    rename_i hm
    cases h
    exact ⟨not_not.mp hk, hm⟩
  · obtain ⟨winner, hwin, h⟩ := Option.bind_eq_some_iff.mp h
    split at h
    · cases h
    rename_i hne
    cases h
    obtain ⟨r, hr, rfl⟩ := hl.picks _ _ _ _ _ _ hwin hne
    obtain ⟨⟨k, e⟩, hke, hr⟩ := List.mem_filterMap.mp hr
    have hentry := ExtTreeMap.mem_toList_iff_getElem?_eq_some.mp hke
    dsimp only at hr
    split at hr
    · cases hr
    rename_i hm
    have hname : r.name = k := by
      cases hr
      rw [← (hl.entries k e hentry).1]
      split <;> rfl
    rw [hname, ExtTreeMap.mem_iff_isSome_getElem?, hentry]
    exact ⟨rfl, fun hs => hm (.inl hs)⟩

variable [Double R]

theorem robot_eq {s : FleetCore R} {r : RobotInfo R} (hr : s.robots[robot]? = some r) :
    s.robot robot = r := by
  rw [FleetCore.robot, ExtTreeMap.getD_eq_getD_getElem?, hr, Option.getD_some]

theorem entry (hl : Ledger s) (hk : robot ∈ s.robots) : (s.robot robot).name = robot ∧
    ((s.robot robot).busy = true ↔ ∃ t ∈ s.tasks, t.robot = robot) := by
  obtain ⟨r, hr⟩ := exists_entry hk
  rw [robot_eq hr]
  exact hl.entries robot r hr

theorem jobless (hl : Ledger s) (hk : robot ∈ s.robots)
    (idle : (s.robot robot).busy = false) : ∀ t ∈ s.tasks, t.robot ≠ robot := by
  intro t ht he
  have := (hl.entry hk).2.mpr ⟨t, ht, he⟩
  rw [idle] at this
  cases this

theorem busy_iff (hl : Ledger s) (robot : String) :
    (s.robot robot).busy = true ↔ ∃ t ∈ s.tasks, t.robot = robot := by
  by_cases hk : robot ∈ s.robots
  · exact (hl.entry hk).2
  · rw [FleetCore.robot, ExtTreeMap.getD_eq_fallback hk]
    constructor
    · intro busy
      cases busy
    · rintro ⟨t, ht, rfl⟩
      exact absurd (hl.known t ht) hk

/-- `robots_[name]` changes nothing for a known name. -/
theorem touch_eq {s : FleetCore R} (hk : robot ∈ s.robots) : s.touch robot = s := by
  unfold FleetCore.touch
  congr
  apply ExtTreeMap.ext_getElem?
  intro k
  rw [ExtTreeMap.getElem?_insertIfNew]
  split
  · rename_i h
    exact absurd hk h.2
  · rfl

/-- What `robots_[name]` reads has the id of the task of the robot, known or not. -/
theorem signed_robot (hl : Ledger s) (hs : Signed s) (robot : String) :
    (∀ t ∈ s.tasks, t.robot = robot → (s.robot robot).taskId = t.id) ∧
      ((∀ t ∈ s.tasks, t.robot ≠ robot) → (s.robot robot).taskId = "") := by
  by_cases hk : robot ∈ s.robots
  · obtain ⟨r, hr⟩ := exists_entry hk
    rw [robot_eq hr]
    exact hs robot r hr
  · rw [FleetCore.robot, ExtTreeMap.getD_eq_fallback hk]
    constructor
    · intro t ht he
      exact absurd (he ▸ hl.known t ht) hk
    · intro _
      rfl

end Ledger

section Start

variable [Double R]

theorem Auction.picks : (Auction.assign : Dispatcher R).Picks := by
  intro goal arm robots g e w h hw
  obtain ⟨r, hr, hname, -⟩ := assign_mem h hw
  exact ⟨r, hr, hname⟩

theorem ledger_start (p : Setup R) : Ledger (FleetNode.start p) where
  once := List.nodup_nil
  known := by simp [FleetNode.start]
  entries := by simp [FleetNode.start]
  picks := Auction.picks

theorem signed_start (p : Setup R) : Signed (FleetNode.start p) := by
  intro k r hr
  simp [FleetNode.start] at hr

end Start

/-! ## The queue of tasks -/

/-- Everything that happens to the queue of tasks. -/
inductive Queued (robot : String) : List (ActiveTask R) → List (ActiveTask R) → Prop
  | same (tasks) : Queued robot tasks tasks
  | quit (tasks) : Queued robot tasks (tasks.filter (·.robot ≠ robot))
  | join {tasks t} (ht : t.robot = robot) (fresh : ∀ u ∈ tasks, u.robot ≠ robot) :
      Queued robot tasks (tasks ++ [t])
  | leave {t rest} (ht : t.robot = robot) : Queued robot (t :: rest) rest
  | change {t t' rest} (ht : t.robot = robot) (ht' : t'.robot = robot) :
      Queued robot (t :: rest) (t' :: rest)
  | turn {t t' rest} (ht : t.robot = robot) (ht' : t'.robot = robot) :
      Queued robot (t :: rest) (rest ++ [t'])

theorem Queued.other {robot : String} {l l' : List (ActiveTask R)} (h : Queued robot l l')
    {t : ActiveTask R} (ht : t.robot ≠ robot) : t ∈ l' ↔ t ∈ l := by
  have ne {u : ActiveTask R} (hu : u.robot = robot) : t ≠ u := fun he => ht (he ▸ hu)
  cases h with
  | same => rfl
  | quit => simp [ht]
  | join hu => simp [ne hu]
  | leave hu => simp [ne hu]
  | change hu hu' => simp [ne hu, ne hu']
  | turn hu hu' => simp [ne hu, ne hu']

theorem Queued.once {robot : String} {l l' : List (ActiveTask R)} (h : Queued robot l l')
    (hl : (l.map (·.robot)).Nodup) : (l'.map (·.robot)).Nodup := by
  cases h with
  | same => exact hl
  | quit => exact hl.sublist (List.filter_sublist.map _)
  | join ht fresh =>
    rw [List.map_append, List.map_singleton, ht]
    exact List.nodup_append.mpr ⟨hl, List.nodup_singleton _, by simpa using fresh⟩
  | leave => exact (List.nodup_cons.mp hl).2
  | change ht ht' =>
    rw [List.map_cons, ht] at hl
    rwa [List.map_cons, ht']
  | turn ht ht' =>
    rw [List.map_cons, ht] at hl
    rw [List.map_append, List.map_singleton, ht']
    exact (List.perm_append_singleton _ _).nodup_iff.mpr hl

variable [Double R]

/-- What an effect does to the entry `r` of its robot, and to the tasks with it. -/
inductive Hires (s s' : FleetNode R) (robot : String) (r : RobotInfo R) : Prop
  | same (busy : r.busy = (s.robot robot).busy) (taskId : r.taskId = (s.robot robot).taskId)
      (renews : Renews s.tasks s'.tasks)
  | joined {t : ActiveTask R} (tasks : s'.tasks = s.tasks ++ [t]) (hrobot : t.robot = robot)
      (jobless : ∀ u ∈ s.tasks, u.robot ≠ robot) (busy : r.busy = true) (taskId : r.taskId = t.id)
  | gone (jobless : ∀ u ∈ s'.tasks, u.robot ≠ robot) (busy : r.busy = false)
      (taskId : r.taskId = "")

namespace Effect

variable {c : Conf R} {a : Action R} {robot : String} {s s' : FleetNode R}

theorem queued (h : Effect c a robot s s') (hl : Ledger s) : Queued robot s.tasks s'.tasks := by
  cases h with
  | sighting | battery | touch | mode | reload | vacate | stopClaim | publish | swap =>
    exact .same _
  | cancel => exact .quit _
  | dispatch _ _ _ known idle => exact .join rfl (hl.jobless known idle)
  | patrol _ _ _ jobless => exact .join rfl jobless
  | fail head | complete head => exact head ▸ .leave rfl
  | look head | pass head | lap _ head => exact head ▸ .change rfl rfl
  | drive head | grant _ head | hold _ _ _ _ head => exact head ▸ .turn rfl rfl
  | reroute _ cause _ head => exact head ▸ .turn rfl (ActiveTask.detoured_robot ..)

theorem tasks_other (h : Effect c a robot s s') (hl : Ledger s) {t : ActiveTask R}
    (ht : t.robot ≠ robot) : t ∈ s'.tasks ↔ t ∈ s.tasks := (h.queued hl).other ht

theorem robots_other (h : Effect c a robot s s') (hl : Ledger s) {k : String} (hk : k ≠ robot) :
    s'.robots[k]? = s.robots[k]? := by
  have inserted (r : RobotInfo R) : (s.robots.insert robot r)[k]? = s.robots[k]? := by
    simp [ExtTreeMap.getElem?_insert, Ne.symm hk]
  cases h with
  | sighting | battery | fail | complete | dispatch => exact inserted _
  | patrol _ known =>
    rw [(hl.entry known).1] at inserted
    exact inserted _
  | touch chosen => rw [Ledger.touch_eq (hl.chosen chosen).1]
  | look head =>
    rw [Ledger.touch_eq (hl.known _ (by simp [head]))]
  | cancel => rw [FleetNode.cancelTask_robots, if_neg hk]
  | mode | reload | vacate | stopClaim | publish | swap | pass | lap | drive | grant | hold
  | reroute => rfl

theorem known_self (h : Effect c a robot s s') (hl : Ledger s) {t : ActiveTask R}
    (ht : t ∈ s'.tasks) (hr : t.robot = robot) : robot ∈ s'.robots := by
  have old (ht : t ∈ s.tasks) : robot ∈ s.robots := hr ▸ hl.known t ht
  cases h with
  | sighting | battery | dispatch | complete => exact ExtTreeMap.mem_insert_self
  | fail => exact ExtTreeMap.mem_insert_self
  | patrol _ known =>
    rw [(hl.entry known).1]
    exact ExtTreeMap.mem_insert_self
  | touch => exact ExtTreeMap.mem_insertIfNew_self
  | look => exact ExtTreeMap.mem_insertIfNew_self
  | cancel => exact absurd hr (FleetNode.mem_cancelTask.mp ht).2
  | mode | reload | vacate | stopClaim | publish | swap => exact old ht
  | pass head | lap _ head | drive head | grant _ head | hold _ _ _ _ head | reroute _ _ _ head =>
    exact hl.known _ (by simp [head])

theorem known (h : Effect c a robot s s') (hl : Ledger s) :
    ∀ t ∈ s'.tasks, t.robot ∈ s'.robots := by
  intro t ht
  by_cases hr : t.robot = robot
  · exact hr ▸ h.known_self hl ht hr
  · rw [ExtTreeMap.mem_iff_isSome_getElem?, h.robots_other hl hr,
      ← ExtTreeMap.mem_iff_isSome_getElem?]
    exact hl.known t ((h.tasks_other hl hr).mp ht)

/-- A robot gets its entry by a state message or by the setting of its battery. -/
theorem newcomer (h : Effect c a robot s s') (hl : Ledger s) {k : String} (hk : k ∈ s'.robots) :
    k ∈ s.robots ∨ (∃ msg, a = .call (.robotState msg) ∧ msg.name = k) ∨
      ∃ req, a = .call (.setBattery req) ∧ req.robot = k := by
  have inserted {q : String} {r : RobotInfo R} (hq : q ∈ s.robots) (hk : k ∈ s.robots.insert q r) :
      k ∈ s.robots := by
    rcases ExtTreeMap.mem_insert.mp hk with heq | hk
    · rwa [← compare_eq_iff_eq.mp heq]
    · exact hk
  cases h with
  | sighting msg called =>
    rcases ExtTreeMap.mem_insert.mp hk with heq | hk
    · exact .inr (.inl ⟨msg, called, compare_eq_iff_eq.mp heq⟩)
    · exact .inl hk
  | battery req called =>
    rcases ExtTreeMap.mem_insert.mp hk with heq | hk
    · exact .inr (.inr ⟨req, called, compare_eq_iff_eq.mp heq⟩)
    · exact .inl hk
  | touch chosen =>
    rw [Ledger.touch_eq (hl.chosen chosen).1] at hk
    exact .inl hk
  | look head =>
    rw [Ledger.touch_eq (hl.known _ (by simp [head]))] at hk
    exact .inl hk
  | cancel => exact .inl (FleetNode.mem_cancelTask_robots.mp hk)
  | dispatch _ _ _ known => exact .inl (inserted known hk)
  | patrol _ known => exact .inl (inserted known hk)
  | fail head => exact .inl (inserted (hl.known _ (by simp [head])) hk)
  | complete head => exact .inl (inserted (hl.known _ (by simp [head])) hk)
  | mode | reload | vacate | stopClaim | publish | swap | pass | lap | drive | grant | hold
  | reroute => exact .inl hk

/-- No entry is ever removed. -/
theorem stays (h : Effect c a robot s s') {k : String} (hk : k ∈ s.robots) : k ∈ s'.robots := by
  cases h with
  | sighting | battery | dispatch | patrol | fail | complete =>
    exact ExtTreeMap.mem_insert.mpr (.inr hk)
  | touch | look => exact ExtTreeMap.mem_insertIfNew.mpr (.inr hk)
  | cancel => exact FleetNode.mem_cancelTask_robots.mpr hk
  | mode | reload | vacate | stopClaim | publish | swap | pass | lap | drive | grant | hold
  | reroute => exact hk

/-- What an effect does to the entry of its robot. -/
theorem hires (h : Effect c a robot s s') (hl : Ledger s) {r : RobotInfo R}
    (hr : s'.robots[robot]? = some r) : r.name = robot ∧ Hires s s' robot r := by
  have kept {r : RobotInfo R} (hr : s.robots[robot]? = some r)
      (renews : Renews s.tasks s'.tasks) : r.name = robot ∧ Hires s s' robot r :=
    ⟨(hl.entries _ r hr).1, .same (by rw [Ledger.robot_eq hr]) (by rw [Ledger.robot_eq hr]) renews⟩
  have named {t : ActiveTask R} {rest : List (ActiveTask R)} (head : s.tasks = t :: rest) :
      (s.robot t.robot).name = t.robot := (hl.entry (hl.known t (by simp [head]))).1
  cases h with
  | sighting =>
    simp only [FleetNode.onRobotState, ExtTreeMap.getElem?_insert_self, Option.some.injEq] at hr
    subst hr
    exact ⟨rfl, .same rfl rfl (.refl _)⟩
  | battery =>
    simp only [FleetNode.onSetBattery, ExtTreeMap.getElem?_insert_self, Option.some.injEq] at hr
    subst hr
    exact ⟨rfl, .same rfl rfl (.refl _)⟩
  | touch chosen =>
    simp only [Ledger.touch_eq (hl.chosen chosen).1] at hr
    exact kept hr (.refl _)
  | mode | reload | vacate | stopClaim | publish | swap => exact kept hr (.refl _)
  | cancel =>
    rw [FleetNode.cancelTask_robots, if_pos rfl] at hr
    obtain ⟨r₀, hr₀, rfl⟩ := Option.map_eq_some_iff.mp hr
    exact ⟨(hl.entries _ r₀ hr₀).1,
      .gone (fun u hu => (FleetNode.mem_cancelTask.mp hu).2) rfl rfl⟩
  | dispatch _ _ _ known idle =>
    rw [FleetNode.enlist_robots, ExtTreeMap.getElem?_insert_self] at hr
    obtain rfl := Option.some.inj hr
    exact ⟨(hl.entry known).1, .joined rfl rfl (hl.jobless known idle) rfl rfl⟩
  | patrol _ known _ jobless =>
    have hn := (hl.entry known).1
    rw [hn] at hr jobless ⊢
    rw [FleetNode.enlist_robots, ExtTreeMap.getElem?_insert_self] at hr
    obtain rfl := Option.some.inj hr
    exact ⟨hn, .joined rfl rfl jobless rfl rfl⟩
  | fail head =>
    simp only [FleetCore.discharge, ExtTreeMap.getElem?_insert_self, Option.some.injEq] at hr
    subst hr
    exact ⟨named head, .gone (fun u hu => hl.robot_ne_head head hu) rfl rfl⟩
  | complete head =>
    simp only [FleetCore.complete, FleetCore.discharge, FleetCore.emit, FleetCore.release,
      ExtTreeMap.getElem?_insert_self, Option.some.injEq] at hr
    subst hr
    exact ⟨named head, .gone (fun u hu => hl.robot_ne_head head hu) rfl rfl⟩
  | look head =>
    rw [Ledger.touch_eq (hl.known _ (by simp [head]))] at hr
    exact kept hr (.head head rfl ⟨rfl, rfl, rfl, rfl⟩)
  | pass head | lap _ head => exact kept hr (.head head rfl ⟨rfl, rfl, rfl, rfl⟩)
  | drive head | grant _ head | hold _ _ _ _ head =>
    exact kept hr (.turn head rfl ⟨rfl, rfl, rfl, rfl⟩)
  | reroute _ cause _ head =>
    exact kept hr (.turn head rfl (ActiveTask.detoured_continues ..))

theorem entry_self (h : Effect c a robot s s') (hl : Ledger s) {r : RobotInfo R}
    (hr : s'.robots[robot]? = some r) :
    r.name = robot ∧ (r.busy = true ↔ ∃ t ∈ s'.tasks, t.robot = robot) := by
  obtain ⟨hname, hires⟩ := h.hires hl hr
  refine ⟨hname, ?_⟩
  cases hires with
  | same busy _ renews =>
    rw [busy, hl.busy_iff]
    constructor
    · rintro ⟨t, ht, rfl⟩
      obtain ⟨u, hu, same⟩ := renews.kept t ht
      exact ⟨u, hu, same.robot⟩
    · rintro ⟨u, hu, rfl⟩
      obtain ⟨t, ht, same⟩ := renews.old u hu
      exact ⟨t, ht, same.robot.symm⟩
  | joined tasks hrobot _ busy =>
    rw [tasks]
    exact iff_of_true busy ⟨_, List.mem_concat_self, hrobot⟩
  | gone jobless busy =>
    apply iff_of_false (by simp [busy])
    rintro ⟨u, hu, he⟩
    exact jobless u hu he

theorem entries (h : Effect c a robot s s') (hl : Ledger s) : ∀ k r, s'.robots[k]? = some r →
    r.name = k ∧ (r.busy = true ↔ ∃ t ∈ s'.tasks, t.robot = k) := by
  intro k r hr
  by_cases hk : k = robot
  · subst hk
    exact h.entry_self hl hr
  · rw [h.robots_other hl hk] at hr
    obtain ⟨hn, hb⟩ := hl.entries k r hr
    refine ⟨hn, hb.trans ?_⟩
    constructor
    · rintro ⟨t, ht, rfl⟩
      exact ⟨t, (h.tasks_other hl hk).mpr ht, rfl⟩
    · rintro ⟨t, ht, rfl⟩
      exact ⟨t, (h.tasks_other hl hk).mp ht, rfl⟩

/-- The id in the entry of the robot itself, after the effect. -/
theorem signed_self (h : Effect c a robot s s') (hl : Ledger s) (hs : Signed s) {r : RobotInfo R}
    (hr : s'.robots[robot]? = some r) : (∀ t ∈ s'.tasks, t.robot = robot → r.taskId = t.id) ∧
      ((∀ t ∈ s'.tasks, t.robot ≠ robot) → r.taskId = "") := by
  cases (h.hires hl hr).2 with
  | same _ taskId renews =>
    obtain ⟨hid, hnone⟩ := hl.signed_robot hs robot
    rw [taskId]
    constructor
    · intro u hu he
      obtain ⟨t, ht, same⟩ := renews.old u hu
      rw [hid t ht (same.robot.symm.trans he), same.id]
    · intro hno
      apply hnone
      intro t ht he
      obtain ⟨u, hu, same⟩ := renews.kept t ht
      exact hno u hu (same.robot.trans he)
  | joined tasks hrobot jobless _ taskId =>
    rw [tasks, taskId]
    constructor
    · intro u hu he
      rcases List.mem_append.mp hu with hu | hu
      · exact absurd he (jobless u hu)
      · rw [List.mem_singleton.mp hu]
    · intro hno
      exact absurd hrobot (hno _ List.mem_concat_self)
  | gone jobless _ taskId =>
    constructor
    · intro u hu he
      exact absurd he (jobless u hu)
    · intro _
      exact taskId

theorem signed (h : Effect c a robot s s') (hl : Ledger s) (hs : Signed s) : Signed s' := by
  intro k r hr
  by_cases hk : k = robot
  · subst hk
    exact h.signed_self hl hs hr
  · rw [h.robots_other hl hk] at hr
    obtain ⟨hid, hnone⟩ := hs k r hr
    constructor
    · intro t ht he
      exact hid t ((h.tasks_other hl (he ▸ hk)).mp ht) he
    · intro hno
      apply hnone
      intro t ht he
      exact hno t ((h.tasks_other hl (he ▸ hk)).mpr ht) he

/-- Only a swap replaces the dispatcher. -/
theorem picks (h : Effect c a robot s s') (offers : a.With Callback.Offers)
    (hs : s.dispatcher.Picks) : s'.dispatcher.Picks := by
  cases h with
  | swap dispatcher _ _ _ called loaded =>
    subst called
    rcases loaded with rfl | hloaded
    · exact hs
    · exact offers dispatcher hloaded
  | _ => exact hs

theorem ledger (h : Effect c a robot s s') (offers : a.With Callback.Offers) (hl : Ledger s) :
    Ledger s' where
  once := (h.queued hl).once hl.once
  known := h.known hl
  entries := h.entries hl
  picks := h.picks offers hl.picks

/-- A task is one that was there, or of a robot that had none. -/
theorem origin (h : Effect c a robot s s') (hl : Ledger s) {t : ActiveTask R} (ht : t ∈ s'.tasks) :
    (∃ u ∈ s.tasks, u.Continues t) ∨
      t.robot = robot ∧ (∀ u ∈ s.tasks, u.robot ≠ robot) ∧ t.startSeq = s.taskSeq + 1 ∧
        (t.patrol = true → s'.modeOf robot = .patrol) ∧
        (t.patrol = false → ∃ sub, a = .call (.submit sub)) := by
  cases h.stems ht with
  | same here => exact .inl ⟨t, here, .refl t⟩
  | dispatch known idle _ _ _ _ _ called =>
    exact .inr ⟨rfl, hl.jobless known idle, rfl, fun patrol => absurd patrol Bool.false_ne_true,
      fun _ => ⟨_, called⟩⟩
  | patrol jobless mode =>
    refine .inr ⟨rfl, jobless, rfl, fun _ => ?_, fun dispatched => by cases dispatched⟩
    obtain ⟨_, _, -, -, -, rfl, -⟩ | hmodes := h.modes
    · exact absurd rfl (jobless _ ht)
    · obtain hsame | ⟨-, hidle, -⟩ := hmodes _
      · exact hsame.trans mode
      · rw [mode] at hidle
        cases hidle
  | look here | pass here | lap here | grant here | hold _ _ here =>
    exact .inl ⟨_, here, rfl, rfl, rfl, rfl⟩
  | reroute cause here => exact .inl ⟨_, here, ActiveTask.detoured_continues ..⟩

/-! ## Stopped robots -/

/-- A robot that comes to a task is not stopped. -/
theorem unstopped_new (h : Effect c a robot s s') (hc : Ledger c.node)
    (jobless : ∀ t ∈ s.tasks, t.robot ≠ robot) {t : ActiveTask R} (ht : t ∈ s'.tasks)
    (hr : t.robot = robot) : s'.modeOf robot ≠ .stop := by
  cases h with
  | sighting | battery | touch | mode | reload | vacate | stopClaim | publish | swap =>
    exact absurd hr (jobless t ht)
  | cancel => exact absurd hr (FleetNode.mem_cancelTask.mp ht).2
  | dispatch here chosen modes =>
    subst here
    rw [FleetCore.modeOf, FleetNode.enlist_robotMode]
    change s.robotMode.getD robot .idle ≠ .stop
    rw [modes]
    exact (hc.chosen chosen).2
  | patrol _ _ _ _ mode =>
    rw [FleetCore.modeOf, FleetNode.enlist_robotMode]
    change s.modeOf _ ≠ .stop
    rw [mode]
    decide
  | fail head | complete head | look head | pass head | lap _ head | drive head | grant _ head
  | hold _ _ _ _ head | reroute _ _ _ head =>
    exact absurd rfl (jobless _ (by simp [head]))

theorem unstopped (h : Effect c a robot s s') (hl : Ledger s) (hc : Ledger c.node)
    (hs : ∀ t ∈ s.tasks, s.modeOf t.robot ≠ .stop) :
    ∀ t ∈ s'.tasks, s'.modeOf t.robot ≠ .stop := by
  intro t ht
  by_cases hold : ∃ u ∈ s.tasks, u.robot = t.robot
  · obtain ⟨u, hu, he⟩ := hold
    have hmode := hs u hu
    rw [he] at hmode
    rcases he ▸ h.mode_tasked hu with hsame | hcharge | ⟨-, hpatrol⟩
    · rwa [hsame]
    · rw [hcharge]
      decide
    · rw [hpatrol]
      decide
  · by_cases hr : t.robot = robot
    · rw [hr]
      exact h.unstopped_new hc (fun u hu he => hold ⟨u, hu, he.trans hr.symm⟩) ht hr
    · exact absurd ⟨t, (h.tasks_other hl hr).mp ht, rfl⟩ hold

end Effect

end LibiFleet
