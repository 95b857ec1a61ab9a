import LibiFleet.Assignment

/-!
# How tasks are closed

The consoles learn of the end of a task from a terminal `TaskState`. A task that is
completed or gives up publishes one. A task that is cancelled publishes none, so the
tasks of accepted requests are closed exactly once in the runs that cancel none of them.
-/

namespace LibiFleet

variable {R : Type}

namespace Event

/-- The event is a terminal `TaskState` with this id and robot. -/
def closes (id robot : String) : Event R → Bool
  | .taskState i state q =>
    i = id ∧ q = robot ∧ (state = "COMPLETED" ∨ state = "FAILED" ∨ state = "REJECTED")
  | _ => false

/-- The event tells neither of a new task nor of the end of one. -/
def Neutral (e : Event R) : Prop := e.startOf = none ∧ ∀ id robot, e.closes id robot = false

end Event

/-- How many tasks have been started. -/
def startedTasks (log : List (Event R)) : Nat := log.countP (·.startOf.isSome)

/-- The number of the task that was started last for the robot. -/
def lastStart (robot : String) : List (Event R) → Nat
  | [] => 0
  | e :: log => if e.startOf = some robot then startedTasks log + 1 else lastStart robot log

/-- The terminal states published for the task number `n`, which has this id and robot. -/
def closings (n : Nat) (id robot : String) : List (Event R) → Nat
  | [] => 0
  | e :: log => closings n id robot log +
    if e.closes id robot ∧ lastStart robot log = n then 1 else 0

/-- The task number `n` has been announced, as `label`. -/
def Started (n : Nat) (label id robot : String) (log : List (Event R)) : Prop :=
  ∃ older, .taskState id label robot :: older <:+ log ∧ startedTasks older + 1 = n

theorem started_iff {n : Nat} {label id robot : String} {log : List (Event R)} :
    Started n label id robot log ↔ ∃ l ∈ log.tails,
      l.head? = some (.taskState id label robot) ∧ startedTasks l.tail + 1 = n := by
  constructor
  · rintro ⟨older, hsuffix, hn⟩
    exact ⟨_, (List.mem_tails _ _).mpr hsuffix, rfl, hn⟩
  · rintro ⟨l, hl, hhead, hn⟩
    obtain ⟨older, rfl⟩ := List.head?_eq_some_iff.mp hhead
    exact ⟨older, (List.mem_tails _ _).mp hl, hn⟩

instance [DecidableEq R] (n : Nat) (label id robot : String) (log : List (Event R)) :
    Decidable (Started n label id robot log) := decidable_of_iff' _ started_iff

section Reading

variable {n m : Nat} {label label' id id' robot robot' : String} {log : List (Event R)}

theorem Started.le (h : Started n label id robot log) (hl : label = "ASSIGNED" ∨ label = "PATROL") :
    n ≤ startedTasks log := by
  obtain ⟨older, hsuffix, rfl⟩ := h
  have hle := hsuffix.sublist.countP_le (p := fun e => e.startOf.isSome)
  simpa [startedTasks, Event.startOf, hl] using hle

theorem Started.mono (h : Started n label id robot log) {log' : List (Event R)}
    (hlog : log <:+ log') : Started n label id robot log' := by
  obtain ⟨older, hsuffix, hn⟩ := h
  exact ⟨older, hsuffix.trans hlog, hn⟩

/-- The number of a task is its own. -/
theorem Started.unique (h : Started n label id robot log) (h' : Started n label' id' robot' log)
    (hl : label = "ASSIGNED" ∨ label = "PATROL") (hl' : label' = "ASSIGNED" ∨ label' = "PATROL") :
    label = label' ∧ id = id' ∧ robot = robot' := by
  obtain ⟨older, hsuffix, hn⟩ := h
  obtain ⟨older', hsuffix', hn'⟩ := h'
  -- one of the two announcements is the other, or older than it
  have same {l l' i i' r r' : String} {o o' : List (Event R)} (hl : l = "ASSIGNED" ∨ l = "PATROL")
      (hn : startedTasks o + 1 = n) (hn' : startedTasks o' + 1 = n)
      (h : .taskState i l r :: o <:+ .taskState i' l' r' :: o') : l = l' ∧ i = i' ∧ r = r' := by
    rcases List.suffix_cons_iff.mp h with heq | holder
    · simp only [List.cons.injEq, Event.taskState.injEq] at heq
      exact ⟨heq.1.2.1, heq.1.1, heq.1.2.2⟩
    · have hle := Started.le ⟨o, holder, rfl⟩ hl
      omega
  rcases List.suffix_or_suffix_of_suffix hsuffix hsuffix' with h | h
  · exact same hl hn hn' h
  · obtain ⟨h1, h2, h3⟩ := same hl' hn' hn h
    exact ⟨h1.symm, h2.symm, h3.symm⟩

theorem lastStart_le (robot : String) (log : List (Event R)) :
    lastStart robot log ≤ startedTasks log := by
  induction log with
  | nil => exact le_refl 0
  | cons e log ih =>
    simp only [lastStart, startedTasks, List.countP_cons]
    split
    · rename_i h
      simp [h]
    · exact ih.trans (Nat.le_add_right ..)

/-- Nothing has been published for a task that has not been started. -/
theorem closings_unstarted (h : startedTasks log < n) : closings n id robot log = 0 := by
  induction log with
  | nil => rfl
  | cons e log ih =>
    have hlog : startedTasks log < n := by
      simp only [startedTasks, List.countP_cons] at h ⊢
      omega
    have hlast := lastStart_le robot log
    simp only [closings, ih hlog]
    rw [if_neg (fun hc => by omega)]

section Neutral

variable {events : List (Event R)} (h : ∀ e ∈ events, e.Neutral)
include h

theorem neutral_started : startedTasks (events ++ log) = startedTasks log := by
  induction events with
  | nil => rfl
  | cons e events ih =>
    obtain ⟨⟨hstart, -⟩, hevents⟩ := List.forall_mem_cons.mp h
    simpa [startedTasks, hstart] using ih hevents

theorem neutral_last : lastStart robot (events ++ log) = lastStart robot log := by
  induction events with
  | nil => rfl
  | cons e events ih =>
    obtain ⟨⟨hstart, -⟩, hevents⟩ := List.forall_mem_cons.mp h
    simpa [lastStart, hstart] using ih hevents

theorem neutral_closings : closings n id robot (events ++ log) = closings n id robot log := by
  induction events with
  | nil => rfl
  | cons e events ih =>
    obtain ⟨⟨-, hclose⟩, hevents⟩ := List.forall_mem_cons.mp h
    simpa [closings, hclose] using ih hevents

/-- Whatever is neutral announces nothing. -/
theorem Started.of_neutral (hl : label = "ASSIGNED" ∨ label = "PATROL")
    (hs : Started n label id robot (events ++ log)) : Started n label id robot log := by
  obtain ⟨older, hsuffix, hn⟩ := hs
  refine ⟨older, ?_, hn⟩
  induction events with
  | nil => exact hsuffix
  | cons e events ih =>
    obtain ⟨he, hevents⟩ := List.forall_mem_cons.mp h
    rcases List.suffix_cons_iff.mp hsuffix with heq | hsuffix
    · rw [← (List.cons.inj heq).1] at he
      simp [Event.Neutral, Event.startOf, hl] at he
    · exact ih hevents hsuffix

end Neutral

end Reading

/-! ## The invariant -/

/-- What is announced when the task is started. -/
def ActiveTask.label (t : ActiveTask R) : String := if t.patrol then "PATROL" else "ASSIGNED"

theorem ActiveTask.label_starts (t : ActiveTask R) : t.label = "ASSIGNED" ∨ t.label = "PATROL" := by
  unfold label
  split
  · exact .inr rfl
  · exact .inl rfl

theorem ActiveTask.Continues.label {u t : ActiveTask R} (h : u.Continues t) :
    t.label = u.label := by
  unfold ActiveTask.label
  rw [h.patrol]

/-- The tasks are numbered as the record has them, nothing terminal has been published for them,
and exactly one terminal state for every other accepted task. -/
structure Closed (s : FleetNode R) : Prop where
  seq : s.taskSeq = startedTasks s.log
  last : ∀ t ∈ s.tasks, lastStart t.robot s.log = t.startSeq
  started : ∀ t ∈ s.tasks, Started t.startSeq t.label t.id t.robot s.log
  active : ∀ t ∈ s.tasks, closings t.startSeq t.id t.robot s.log = 0
  closed : ∀ n id robot, Started n "ASSIGNED" id robot s.log →
    (∀ t ∈ s.tasks, t.startSeq ≠ n) → closings n id robot s.log = 1

/-- An effect that announces nothing and closes nothing; it may drop patrols. -/
theorem Closed.quiet {s s' : FleetNode R} (hs : Closed s) {events : List (Event R)}
    (hlog : s'.log = events ++ s.log) (neutral : ∀ e ∈ events, e.Neutral)
    (seq : s'.taskSeq = s.taskSeq) (old : ∀ t ∈ s'.tasks, ∃ u ∈ s.tasks, u.Continues t)
    (kept : ∀ u ∈ s.tasks, u.patrol = false → ∃ t ∈ s'.tasks, u.Continues t) : Closed s' where
  seq := by rw [seq, hs.seq, hlog, neutral_started neutral]
  last := by
    intro t ht
    obtain ⟨u, hu, same⟩ := old t ht
    rw [hlog, neutral_last neutral, same.robot, same.startSeq]
    exact hs.last u hu
  started := by
    intro t ht
    obtain ⟨u, hu, same⟩ := old t ht
    rw [same.startSeq, same.label, same.id, same.robot, hlog]
    exact (hs.started u hu).mono (List.suffix_append ..)
  active := by
    intro t ht
    obtain ⟨u, hu, same⟩ := old t ht
    rw [hlog, neutral_closings neutral, same.startSeq, same.id, same.robot]
    exact hs.active u hu
  closed := by
    intro n id robot hstart hnone
    rw [hlog] at hstart ⊢
    have hstart := Started.of_neutral neutral (.inl rfl) hstart
    rw [neutral_closings neutral]
    apply hs.closed n id robot hstart
    rintro u hu rfl
    have hlabel := ((hs.started u hu).unique hstart u.label_starts (.inl rfl)).1
    have dispatched : u.patrol = false := by
      by_contra hp
      simp [ActiveTask.label, hp] at hlabel
    obtain ⟨t, ht, same⟩ := kept u hu dispatched
    exact hnone t ht same.startSeq

/-- A new task is announced. -/
theorem Closed.join {s s' : FleetNode R} (hs : Closed s) {t : ActiveTask R}
    {events : List (Event R)} (jobless : ∀ u ∈ s.tasks, u.robot ≠ t.robot)
    (hlog : s'.log = .taskState t.id t.label t.robot :: (events ++ s.log))
    (neutral : ∀ e ∈ events, e.Neutral) (seq : s'.taskSeq = s.taskSeq + 1)
    (number : t.startSeq = s.taskSeq + 1) (tasks : s'.tasks = s.tasks ++ [t]) : Closed s' := by
  have hquiet : Closed { s with log := events ++ s.log } := hs.quiet rfl neutral rfl
    (fun u hu => ⟨u, hu, .refl u⟩) (fun u hu _ => ⟨u, hu, .refl u⟩)
  have hnumber : startedTasks (events ++ s.log) + 1 = t.startSeq := by
    rw [number, ← show s.taskSeq = _ from hquiet.seq]
  have hstart : (Event.taskState t.id t.label t.robot : Event R).startOf = some t.robot := by
    simp [Event.startOf, t.label_starts]
  have hcloses (id robot : String) :
      (Event.taskState t.id t.label t.robot : Event R).closes id robot = false := by
    unfold ActiveTask.label
    split <;> simp [Event.closes]
  have hold (u : ActiveTask R) (hu : u ∈ s.tasks) :
      Started u.startSeq u.label u.id u.robot (events ++ s.log) := hquiet.started u hu
  constructor
  case seq =>
    rw [seq, ← number, ← hnumber, hlog]
    simp [startedTasks, hstart]
  case last =>
    rw [tasks, hlog, List.forall_mem_append, List.forall_mem_singleton]
    constructor
    · intro u hu
      have hne : t.robot ≠ u.robot := (jobless u hu).symm
      simpa [lastStart, hstart, hne] using hquiet.last u hu
    · simpa [lastStart, hstart] using hnumber
  case started =>
    rw [tasks, hlog, List.forall_mem_append, List.forall_mem_singleton]
    exact ⟨fun u hu => (hold u hu).mono (List.suffix_cons ..), _, List.suffix_refl _, hnumber⟩
  case active =>
    rw [tasks, hlog, List.forall_mem_append, List.forall_mem_singleton]
    constructor
    · intro u hu
      simpa [closings, hcloses] using hquiet.active u hu
    · simpa [closings, hcloses] using closings_unstarted (by omega)
  case closed =>
    intro n id robot hn hnone
    rw [tasks] at hnone
    rw [hlog] at hn ⊢
    obtain ⟨older, hsuffix, rfl⟩ := hn
    rcases List.suffix_cons_iff.mp hsuffix with heq | hsuffix
    · rw [(List.cons.inj heq).2, hnumber] at hnone
      exact absurd rfl (hnone t List.mem_concat_self)
    · have hclosed := hquiet.closed _ id robot ⟨older, hsuffix, rfl⟩
        fun u hu => hnone u (List.mem_append_left _ hu)
      simpa [closings, hcloses] using hclosed

/-- A task ends with a terminal state. -/
theorem Closed.leave {s s' : FleetNode R} (hs : Closed s) {t : ActiveTask R}
    {rest : List (ActiveTask R)} {before after : List (Event R)} {state : String}
    (head : s.tasks = t :: rest) (others : ∀ u ∈ rest, u.robot ≠ t.robot)
    (terminal : state = "COMPLETED" ∨ state = "FAILED")
    (hlog : s'.log = after ++ .taskState t.id state t.robot :: (before ++ s.log))
    (neutral : ∀ e ∈ after, e.Neutral) (neutral' : ∀ e ∈ before, e.Neutral)
    (seq : s'.taskSeq = s.taskSeq) (tasks : s'.tasks = rest) : Closed s' := by
  have hquiet : Closed { s with log := before ++ s.log } := hs.quiet rfl neutral' rfl
    (fun u hu => ⟨u, hu, .refl u⟩) (fun u hu _ => ⟨u, hu, .refl u⟩)
  generalize before ++ s.log = base at hlog hquiet
  have ht : t ∈ s.tasks := by simp [head]
  have hrest (u : ActiveTask R) (hu : u ∈ rest) : u ∈ s.tasks := by
    rw [head]
    exact List.mem_cons_of_mem _ hu
  have hstart : (Event.taskState t.id state t.robot : Event R).startOf = none := by
    rcases terminal with rfl | rfl <;> simp [Event.startOf]
  have hcloses (id robot : String) :
      (Event.taskState t.id state t.robot : Event R).closes id robot = true ↔
        t.id = id ∧ t.robot = robot := by
    rcases terminal with rfl | rfl <;> simp [Event.closes]
  constructor
  case seq =>
    have hseq : s.taskSeq = startedTasks base := hquiet.seq
    rw [seq, hseq, hlog, neutral_started neutral]
    simp [startedTasks, hstart]
  case last =>
    rw [tasks, hlog]
    intro u hu
    rw [neutral_last neutral, lastStart, if_neg (by simp [hstart])]
    exact hquiet.last u (hrest u hu)
  case started =>
    rw [tasks, hlog]
    intro u hu
    have hsuffix : base <:+ after ++ .taskState t.id state t.robot :: base :=
      (List.suffix_cons ..).trans (List.suffix_append ..)
    exact (hquiet.started u (hrest u hu)).mono hsuffix
  case active =>
    rw [tasks, hlog]
    intro u hu
    rw [neutral_closings neutral, closings, if_neg]
    · exact hquiet.active u (hrest u hu)
    · rintro ⟨hc, -⟩
      exact others u hu ((hcloses _ _).mp hc).2.symm
  case closed =>
    intro n id robot hn hnone
    rw [tasks] at hnone
    rw [hlog] at hn ⊢
    obtain ⟨older, hsuffix, hnumber⟩ := Started.of_neutral neutral (.inl rfl) hn
    have hn : Started n "ASSIGNED" id robot base := by
      rcases List.suffix_cons_iff.mp hsuffix with heq | hsuffix
      · simp only [List.cons.injEq, Event.taskState.injEq] at heq
        rcases terminal with rfl | rfl
        · simp at heq
        · simp at heq
      · exact ⟨older, hsuffix, hnumber⟩
    rw [neutral_closings neutral, closings]
    by_cases hself : t.startSeq = n
    · subst hself
      obtain ⟨-, rfl, rfl⟩ := (hquiet.started t ht).unique hn t.label_starts (.inl rfl)
      rw [if_pos ⟨(hcloses _ _).mpr ⟨rfl, rfl⟩, hquiet.last t ht⟩, hquiet.active t ht]
    · rw [if_neg]
      · apply hquiet.closed n id robot hn
        intro u hu
        have hu : u ∈ t :: rest := head ▸ hu
        rcases List.mem_cons.mp hu with rfl | hu
        · exact hself
        · exact hnone u hu
      · rintro ⟨hc, hlast⟩
        rw [← ((hcloses _ _).mp hc).2] at hlast
        exact hself ((hquiet.last t ht).symm.trans hlast)

/-- The step cancels a task that was dispatched. -/
def Conf.Preempts [Double R] (c : Conf R) (a : Action R) : Prop :=
  ∃ robot ∈ c.cancels a, ∃ t ∈ c.node.tasks, t.robot = robot ∧ t.patrol = false

instance [Double R] (c : Conf R) (a : Action R) : Decidable (c.Preempts a) :=
  inferInstanceAs (Decidable (∃ robot ∈ c.cancels a, ∃ t ∈ c.node.tasks, _ ∧ _))

theorem told_neutral {id robot : String} {events : List (Event R)}
    (told : ∀ e ∈ events, e = .taskState id "EXECUTING" robot) : ∀ e ∈ events, e.Neutral := by
  intro e he
  rw [told e he]
  exact ⟨by simp [Event.startOf], by simp [Event.closes]⟩

/-- An event that is no `TaskState` is neutral. -/
theorem neutral_of_ne {e : Event R} (h : ∀ id state robot, e ≠ .taskState id state robot) :
    e.Neutral := by
  cases e with
  | taskState id state robot => exact absurd rfl (h id state robot)
  | _ => exact ⟨rfl, fun _ _ => rfl⟩

variable [Double R] {c : Conf R} {a : Action R} {p : Setup R}

theorem Effect.closed {robot : String} {s s' : FleetNode R} (h : Effect c a robot s s')
    (ok : ¬ c.Preempts a) (hl : Ledger s) (hs : Closed s) : Closed s' := by
  -- the events are no `TaskState`, and the tasks are the same or the first one is changed
  have same {events : List (Event R)} (hlog : s'.log = events ++ s.log)
      (neutral : ∀ e ∈ events, e.Neutral) (seq : s'.taskSeq = s.taskSeq)
      (renews : Renews s.tasks s'.tasks) : Closed s' :=
    hs.quiet hlog neutral seq renews.old fun u hu _ => renews.kept u hu
  have nothing : ∀ e ∈ ([] : List (Event R)), e.Neutral := by simp
  have one {e : Event R} (h : ∀ id state robot, e ≠ .taskState id state robot) :
      ∀ e' ∈ [e], e'.Neutral := List.forall_mem_singleton.mpr (neutral_of_ne h)
  have two {e e' : Event R} (h : ∀ id state robot, e ≠ .taskState id state robot)
      (h' : ∀ id state robot, e' ≠ .taskState id state robot) : ∀ x ∈ [e, e'], x.Neutral :=
    List.forall_mem_cons.mpr ⟨neutral_of_ne h, one h'⟩
  cases h with
  | sighting | battery | touch | mode | reload | vacate | swap =>
    exact same (show _ = [] ++ s.log from rfl) nothing rfl (.refl _)
  | publish events reports =>
    refine same rfl ?_ rfl (.refl _)
    intro e he
    apply neutral_of_ne
    rintro id state robot rfl
    exact reports _ he
  | stopClaim => exact same (show _ = [_] ++ s.log from rfl) (one (by simp)) rfl (.refl _)
  | cancel here called =>
    refine hs.quiet rfl ?_ rfl ?_ ?_
    · intro e he
      obtain ⟨t, -, rfl⟩ := List.mem_map.mp he
      exact neutral_of_ne (by simp)
    · exact fun t ht => ⟨t, (FleetNode.mem_cancelTask.mp ht).1, .refl t⟩
    · intro u hu dispatched
      refine ⟨u, FleetNode.mem_cancelTask.mpr ⟨hu, fun hr => ok ?_⟩, .refl u⟩
      exact ⟨_, called, u, here ▸ hu, hr, dispatched⟩
  | dispatch _ _ _ known idle =>
    exact hs.join (hl.jobless known idle) (show _ = _ :: ([_] ++ s.log) from rfl) (one (by simp))
      rfl rfl rfl
  | patrol _ _ _ jobless =>
    exact hs.join jobless (show _ = _ :: ([_] ++ s.log) from rfl) (one (by simp)) rfl rfl rfl
  | fail head =>
    exact hs.leave head (fun u hu => hl.robot_ne_head head hu) (.inr rfl)
      (show _ = [_] ++ _ :: ([] ++ s.log) from rfl) (one (by simp)) nothing rfl rfl
  | complete head =>
    exact hs.leave head (fun u hu => hl.robot_ne_head head hu) (.inl rfl)
      (show _ = [_] ++ _ :: ([_] ++ s.log) from rfl) (one (by simp)) (one (by simp)) rfl rfl
  | look head =>
    exact same (show _ = [] ++ s.log from rfl) nothing rfl (.head head rfl ⟨rfl, rfl, rfl, rfl⟩)
  | pass head =>
    exact same (show _ = [_] ++ s.log from rfl) (one (by simp)) rfl
      (.head head rfl ⟨rfl, rfl, rfl, rfl⟩)
  | lap _ head =>
    exact same (show _ = [_, _] ++ s.log from rfl) (two (by simp) (by simp)) rfl
      (.head head rfl ⟨rfl, rfl, rfl, rfl⟩)
  | drive head =>
    exact same (show _ = [] ++ s.log from rfl) nothing rfl (.turn head rfl (.refl _))
  | grant _ head =>
    exact same (show _ = [_, _] ++ s.log from rfl) (two (by simp) (by simp)) rfl
      (.turn head rfl ⟨rfl, rfl, rfl, rfl⟩)
  | @reroute _ t _ _ _ cause _ head _ _ _ _ _ _ told =>
    refine same (ask_log s.toFleetCore t (.reroute t.robot cause :: _)) ?_ rfl
      (.turn head rfl (ActiveTask.detoured_continues ..))
    rw [List.cons_append, List.forall_mem_cons, List.forall_mem_append]
    exact ⟨neutral_of_ne (by simp), told_neutral told, one (by simp)⟩
  | @hold _ t _ _ _ _ _ head _ _ _ told =>
    refine same (ask_log s.toFleetCore t _) ?_ rfl (.turn head rfl ⟨rfl, rfl, rfl, rfl⟩)
    rw [List.forall_mem_append]
    exact ⟨told_neutral told, one (by simp)⟩

theorem closed_start (p : Setup R) : Closed (FleetNode.start p) where
  seq := rfl
  last := by simp [FleetNode.start]
  started := by simp [FleetNode.start]
  active := by simp [FleetNode.start]
  closed := by
    rintro n id robot ⟨older, hsuffix, -⟩
    simp [FleetNode.start] at hsuffix

/-- In the runs that cancel no dispatched task, nothing terminal is published for an accepted task
as long as it is there, and exactly one terminal state once it has gone. -/
theorem closed_once
    (hc : (ticks p).Reach (fun c a => a.With Callback.Steady ∧ ¬ c.Preempts a) c)
    {n : Nat} {id robot : String} (accepted : Started n "ASSIGNED" id robot c.node.log) :
    ((∃ t ∈ c.node.tasks, t.startSeq = n) → closings n id robot c.node.log = 0) ∧
      ((∀ t ∈ c.node.tasks, t.startSeq ≠ n) → closings n id robot c.node.log = 1) := by
  have hclosed : Closed c.node := by
    refine reach_books (P := Closed) ?_ (closed_start p) ?_ hc
    · exact fun _ _ h => h.1.mono fun _ => Callback.Steady.offers
    · exact fun _ _ _ _ _ ok he _ hl hs => he.closed ok.2 hl hs
  refine ⟨?_, hclosed.closed n id robot accepted⟩
  rintro ⟨t, ht, rfl⟩
  obtain ⟨-, rfl, rfl⟩ := (hclosed.started t ht).unique accepted t.label_starts (.inl rfl)
  exact hclosed.active t ht

theorem closed_once_completed : ∃ c : Conf ℚ, (ticks (Yard.setup false [])).Reach
    (fun c a => a.With Callback.Steady ∧ ¬ c.Preempts a) c ∧ c.node.tasks.length = 0 ∧
    closings 1 "T-1" "r1" c.node.log = 1 := by
  obtain ⟨c, hc, hcheck⟩ := (ticks (Yard.setup false [])).exists_reach
    (fun c a => a.With Callback.Steady ∧ ¬ c.Preempts a)
    (fun c => decide (c.node.tasks.length = 0 ∧ Started 1 "ASSIGNED" "T-1" "r1" c.node.log))
    ([.call (Yard.seen "r1" 0 0), .call (Yard.send "r1" "1")] ++ Yard.taken .timer 4 ++
      .call (Yard.seen "r1" 10 0) :: Yard.taken .timer 3)
    (by decide +kernel)
  obtain ⟨gone, accepted⟩ := of_decide_eq_true hcheck
  refine ⟨c, hc, gone, (closed_once hc accepted).2 ?_⟩
  intro t ht
  rw [List.length_eq_zero_iff.mp gone] at ht
  cases ht

/-- A second submission for a robot cancels its first task, of which nothing more is heard. -/
theorem preempted_unclosed : ¬ ∀ (p : Setup ℚ) (c : Conf ℚ),
    (ticks p).Reach (fun _ a => a.With Callback.Steady) c →
    ∀ n id robot, Started n "ASSIGNED" id robot c.node.log →
      ((∃ t ∈ c.node.tasks, t.startSeq = n) → closings n id robot c.node.log = 0) ∧
        ((∀ t ∈ c.node.tasks, t.startSeq ≠ n) → closings n id robot c.node.log = 1) := by
  intro h
  obtain ⟨c, hc, hcheck⟩ := (ticks (Yard.setup false [])).exists_reach
    (fun _ a => a.With Callback.Steady)
    (fun c => decide (Started 1 "ASSIGNED" "T-1" "r1" c.node.log ∧
      (∀ t ∈ c.node.tasks, t.startSeq ≠ 1) ∧ closings 1 "T-1" "r1" c.node.log = 0))
    [.call (Yard.seen "r1" 0 0), .call (Yard.send "r1" "1"), .call (Yard.send "r1" "2")]
    (by decide +kernel)
  obtain ⟨accepted, gone, hzero⟩ := of_decide_eq_true hcheck
  have hone := (h _ c hc 1 "T-1" "r1" accepted).2 gone
  omega

end LibiFleet
