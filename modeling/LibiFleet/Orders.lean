import LibiFleet.Closing
import LibiFleet.Specification
import Mathlib.Logic.Function.Basic

/-!
# The order book

What the node is for, to those who submit tasks and listen to `/fms/task_states`: a book
of orders, one for a robot at most, whose changes are announced. Every run of the node
is a run of the book. The book says what a listener may conclude from the announcements.
-/

namespace LibiFleet

variable {R : Type}

/-- What a robot is to do. -/
structure Order where
  id : String
  patrol : Bool
  deriving DecidableEq

/-- A `TaskState`. -/
structure Notice where
  taskId : String
  state : String
  robot : String
  deriving DecidableEq

/-- The orders of the robots. -/
abbrev Book := String → Option Order

namespace Book

def empty : Book := fun _ => none

/-- A robot without an order gets one, which is announced. A dispatched order is completed in the
end, and every order may fail. An order that may be revoked is dropped without a word. -/
inductive Step (revocable : Order → Prop) : Book → Option Notice → Book → Prop
  | assign {b : Book} {robot id : String} (free : b robot = none) :
      Step revocable b (some ⟨id, "ASSIGNED", robot⟩) (Function.update b robot (some ⟨id, false⟩))
  | patrol {b : Book} {robot : String} (free : b robot = none) :
      Step revocable b (some ⟨"P-" ++ robot, "PATROL", robot⟩)
        (Function.update b robot (some ⟨"P-" ++ robot, true⟩))
  | wait {b : Book} {robot : String} {o : Order} (held : b robot = some o) :
      Step revocable b (some ⟨o.id, "EXECUTING", robot⟩) b
  | complete {b : Book} {robot id : String} (held : b robot = some ⟨id, false⟩) :
      Step revocable b (some ⟨id, "COMPLETED", robot⟩) (Function.update b robot none)
  | fail {b : Book} {robot : String} {o : Order} (held : b robot = some o) :
      Step revocable b (some ⟨o.id, "FAILED", robot⟩) (Function.update b robot none)
  | revoke {b : Book} {robot : String} (may : ∀ o, b robot = some o → revocable o) :
      Step revocable b none (Function.update b robot none)

end Book

def orderBook (revocable : Order → Prop) : Spec Book Notice := ⟨.empty, Book.Step revocable⟩

theorem Book.Step.run {revocable : Order → Prop} {b b' : Book} {obs : Option Notice}
    (h : Book.Step revocable b obs b') : (orderBook revocable).Run b obs.toList b' :=
  Spec.Run.one (T := orderBook revocable) h

/-- The order that a robot has as far as one can tell from what has been announced, the last
announcement first. -/
def heard (robot : String) : List Notice → Option Order
  | [] => none
  | n :: older =>
    if n.robot ≠ robot then heard robot older
    else if n.state = "ASSIGNED" then some ⟨n.taskId, false⟩
    else if n.state = "PATROL" then some ⟨n.taskId, true⟩
    else if n.state = "COMPLETED" ∨ n.state = "FAILED" then none
    else heard robot older

/-- The announcement fits what was heard of its robot before. -/
def Notice.Fits (revocable : Order → Prop) (n : Notice) (before : Option Order) : Prop :=
  n.state = "ASSIGNED" ∧ (∀ o, before = some o → revocable o) ∨
  n.state = "PATROL" ∧ n.taskId = "P-" ++ n.robot ∧ (∀ o, before = some o → revocable o) ∨
  n.state = "EXECUTING" ∧ (∃ patrol, before = some ⟨n.taskId, patrol⟩) ∨
  n.state = "COMPLETED" ∧ before = some ⟨n.taskId, false⟩ ∨
  n.state = "FAILED" ∧ ∃ patrol, before = some ⟨n.taskId, patrol⟩

/-- Every order in the book has been heard of, and what has been heard of is in the book unless it
may have been revoked. -/
structure Informed (revocable : Order → Prop) (seen : List Notice) (b : Book) : Prop where
  held : ∀ robot o, b robot = some o → heard robot seen = some o
  told : ∀ robot o, heard robot seen = some o → ¬ revocable o → b robot = some o

section Listening

variable {revocable : Order → Prop} {seen : List Notice} {b b' : Book} {obs : Option Notice}

theorem heard_other {n : Notice} {robot : String} (h : n.robot ≠ robot) :
    heard robot (n :: seen) = heard robot seen := by rw [heard, if_pos h]

/-- The listener writes down what is announced. -/
theorem Informed.hears (hi : Informed revocable seen b) {n : Notice} {o : Option Order}
    (hn : heard n.robot (n :: seen) = o) :
    Informed revocable (n :: seen) (Function.update b n.robot o) where
  held := by
    intro robot o' held
    by_cases hr : robot = n.robot
    · subst hr
      rw [Function.update_self] at held
      exact hn.trans held
    · rw [Function.update_of_ne hr] at held
      rw [heard_other (Ne.symm hr)]
      exact hi.held robot o' held
  told := by
    intro robot o' told lasting
    by_cases hr : robot = n.robot
    · subst hr
      rw [Function.update_self]
      exact hn.symm.trans told
    · rw [heard_other (Ne.symm hr)] at told
      rw [Function.update_of_ne hr]
      exact hi.told robot o' told lasting

theorem informed_start : Informed revocable [] Book.empty where
  held := by
    intro robot o held
    cases held
  told := by
    intro robot o told
    cases told

theorem Book.Step.informed (h : Book.Step revocable b obs b') (hi : Informed revocable seen b) :
    Informed revocable (obs.toList ++ seen) b' := by
  cases h with
  | assign => exact hi.hears (n := ⟨_, "ASSIGNED", _⟩) (by simp [heard])
  | patrol => exact hi.hears (n := ⟨_, "PATROL", _⟩) (by simp [heard])
  | complete => exact hi.hears (n := ⟨_, "COMPLETED", _⟩) (by simp [heard])
  | fail => exact hi.hears (n := ⟨_, "FAILED", _⟩) (by simp [heard])
  | @wait robot o held =>
    have hn : heard robot (⟨o.id, "EXECUTING", robot⟩ :: seen) = b robot := by
      rw [held, ← hi.held robot o held]
      simp [heard]
    have hnew := hi.hears hn
    rwa [Function.update_eq_self] at hnew
  | @revoke robot may =>
    constructor
    · intro q o held
      by_cases hq : q = robot
      · rw [hq, Function.update_self] at held
        cases held
      · rw [Function.update_of_ne hq] at held
        exact hi.held q o held
    · intro q o told lasting
      have held := hi.told q o told lasting
      rw [Function.update_of_ne]
      · exact held
      · rintro rfl
        exact lasting (may o held)

/-- What is heard of a robot without an order may have been revoked. -/
theorem Informed.revoked (hi : Informed revocable seen b) {robot : String}
    (free : b robot = none) : ∀ o, heard robot seen = some o → revocable o := by
  intro o told
  by_contra lasting
  have held := hi.told robot o told lasting
  rw [free] at held
  cases held

theorem Book.Step.fits {n : Notice} (h : Book.Step revocable b (some n) b')
    (hi : Informed revocable seen b) : n.Fits revocable (heard n.robot seen) := by
  cases h with
  | assign free => exact .inl ⟨rfl, hi.revoked free⟩
  | patrol free => exact .inr (.inl ⟨rfl, rfl, hi.revoked free⟩)
  | @wait robot o held => exact .inr (.inr (.inl ⟨rfl, o.patrol, hi.held robot o held⟩))
  | complete held => exact .inr (.inr (.inr (.inl ⟨rfl, hi.held _ _ held⟩)))
  | @fail robot o held => exact .inr (.inr (.inr (.inr ⟨rfl, o.patrol, hi.held robot o held⟩)))

/-- In every run of the book a listener is informed, and every announcement fits. -/
theorem listener_informed (h : (orderBook revocable).Run .empty seen b) :
    Informed revocable seen b ∧
      ∀ n older, n :: older <:+ seen → n.Fits revocable (heard n.robot older) :=
  ⟨h.invariant informed_start fun _ _ _ _ hstep hi => hstep.informed hi,
    h.each informed_start (fun _ _ _ _ hstep hi => hstep.informed hi)
      fun _ _ _ _ hstep hi => hstep.fits hi⟩

end Listening

/-! ## The book of the node -/

def Event.notice? : Event R → Option Notice
  | .taskState id state robot => some ⟨id, state, robot⟩
  | _ => none

/-- What has been published on `/fms/task_states`. -/
def notices (log : List (Event R)) : List Notice := log.filterMap Event.notice?

def ActiveTask.order (t : ActiveTask R) : Order := ⟨t.id, t.patrol⟩

/-- The task of a robot. -/
def roll (tasks : List (ActiveTask R)) (robot : String) : Option (ActiveTask R) :=
  tasks.find? (·.robot = robot)

def book (tasks : List (ActiveTask R)) : Book := fun robot =>
  (roll tasks robot).map ActiveTask.order

section Reading

variable {l l' rest : List (ActiveTask R)} {t : ActiveTask R} {robot : String}

theorem roll_none : roll l robot = none ↔ ∀ t ∈ l, t.robot ≠ robot := by
  simp [roll]

theorem roll_some (h : roll l robot = some t) : t ∈ l ∧ t.robot = robot :=
  ⟨List.mem_of_find?_eq_some h, by simpa using List.find?_some h⟩

theorem roll_of_mem (once : (l.map (·.robot)).Nodup) (ht : t ∈ l) : roll l t.robot = some t := by
  cases hf : roll l t.robot with
  | none => exact absurd rfl (roll_none.mp hf t ht)
  | some u =>
    obtain ⟨hu, hr⟩ := roll_some hf
    exact congrArg some (List.inj_on_of_nodup_map once hu ht hr)

theorem roll_join (fresh : ∀ u ∈ l, u.robot ≠ t.robot) :
    roll (l ++ [t]) = Function.update (roll l) t.robot (some t) := by
  funext robot
  by_cases hr : robot = t.robot
  · subst hr
    have hl : l.find? (·.robot = t.robot) = none := by simpa using fresh
    rw [Function.update_self, roll, List.find?_append, hl]
    simp
  · rw [Function.update_of_ne hr, roll, roll, List.find?_append]
    simp [Ne.symm hr]

theorem roll_quit (l : List (ActiveTask R)) (robot : String) :
    roll (l.filter (·.robot ≠ robot)) = Function.update (roll l) robot none := by
  funext q
  by_cases hq : q = robot
  · subst hq
    rw [Function.update_self, roll_none]
    intro t ht
    simpa using (List.mem_filter.mp ht).2
  · rw [Function.update_of_ne hq, roll, roll, List.find?_filter]
    congr 1
    funext t
    by_cases ht : t.robot = q
    · simp [ht, hq]
    · simp [ht]

theorem roll_leave (others : ∀ u ∈ rest, u.robot ≠ t.robot) :
    roll rest = Function.update (roll (t :: rest)) t.robot none := by
  rw [← roll_quit, List.filter_cons_of_neg (by simp),
    List.filter_eq_self.mpr (by simpa using others)]

theorem book_update (h : roll l' = Function.update (roll l) robot (some t)) :
    book l' = Function.update (book l) robot (some t.order) := by
  funext q
  rw [book, h]
  exact Function.apply_update (fun _ => Option.map ActiveTask.order) (roll l) robot (some t) q

theorem book_clear (h : roll l' = Function.update (roll l) robot none) :
    book l' = Function.update (book l) robot none := by
  funext q
  rw [book, h]
  exact Function.apply_update (fun _ => Option.map ActiveTask.order) (roll l) robot none q

theorem book_none : book l robot = none ↔ ∀ t ∈ l, t.robot ≠ robot :=
  Option.map_eq_none_iff.trans roll_none

theorem book_of_mem (once : (l.map (·.robot)).Nodup) (ht : t ∈ l) :
    book l t.robot = some t.order := by rw [book, roll_of_mem once ht, Option.map_some]

theorem book_eq_some {o : Order} (once : (l.map (·.robot)).Nodup) :
    book l robot = some o ↔ ∃ t ∈ l, t.robot = robot ∧ t.order = o := by
  constructor
  · intro h
    obtain ⟨t, ht, rfl⟩ := Option.map_eq_some_iff.mp h
    obtain ⟨hmem, hr⟩ := roll_some ht
    exact ⟨t, hmem, hr, rfl⟩
  · rintro ⟨t, ht, rfl, rfl⟩
    exact book_of_mem once ht

/-- Two queues with the same orders have the same book. -/
theorem book_ext (once : (l.map (·.robot)).Nodup) (once' : (l'.map (·.robot)).Nodup)
    (h : ∀ robot o, (∃ t ∈ l, t.robot = robot ∧ t.order = o) ↔
      ∃ t ∈ l', t.robot = robot ∧ t.order = o) : book l = book l' := by
  funext robot
  ext o
  rw [book_eq_some once, book_eq_some once', h]

theorem Renews.book_eq (h : Renews l l') (once : (l.map (·.robot)).Nodup)
    (once' : (l'.map (·.robot)).Nodup) : book l = book l' := by
  have order {u v : ActiveTask R} (h : u.Continues v) : v.order = u.order := by
    rw [ActiveTask.order, h.id, h.patrol, ActiveTask.order]
  refine book_ext once once' ?_
  intro robot o
  constructor
  · rintro ⟨u, hu, rfl, rfl⟩
    obtain ⟨v, hv, same⟩ := h.kept u hu
    exact ⟨v, hv, same.robot, order same⟩
  · rintro ⟨v, hv, rfl, rfl⟩
    obtain ⟨u, hu, same⟩ := h.old v hv
    exact ⟨u, hu, same.robot.symm, (order same).symm⟩

end Reading

section Notices

variable {events log : List (Event R)}

theorem notices_append : notices (events ++ log) = notices events ++ notices log :=
  List.filterMap_append

theorem notices_silent (h : ∀ e ∈ events, e.notice? = none) : notices events = [] :=
  List.filterMap_eq_nil_iff.mpr h

/-- However often a wait is announced, the book stays as it is. -/
theorem told_run {revocable : Order → Prop} {b : Book} {robot : String} {o : Order}
    (held : b robot = some o) (told : ∀ e ∈ events, e = .taskState o.id "EXECUTING" robot) :
    (orderBook revocable).Run b (notices events) b := by
  induction events with
  | nil => exact .refl
  | cons e events ih =>
    obtain ⟨rfl, older⟩ := List.forall_mem_cons.mp told
    exact .tail (ih older) (Book.Step.wait held)

end Notices

/-- The step cancels no order but those that may be revoked. -/
def Conf.Revokes [Double R] (revocable : Order → Prop) (c : Conf R) (a : Action R) : Prop :=
  ∀ robot ∈ c.cancels a, ∀ t ∈ c.node.tasks, t.robot = robot → revocable t.order

variable [Double R] {c : Conf R} {a : Action R} {p : Setup R} {revocable : Order → Prop}

/-- An effect is at most one step of the book, and announces what the step shows. -/
theorem Effect.ordered {robot : String} {s s' : FleetNode R} (h : Effect c a robot s s')
    (revokes : c.Revokes revocable a) (hl : Ledger s) (hl' : Ledger s') : ∃ events,
    s'.log = events ++ s.log ∧
      (orderBook revocable).Run (book s.tasks) (notices events) (book s'.tasks) := by
  -- the effect is silent, and the tasks stay the same or the first one is changed
  have same {events : List (Event R)} (hlog : s'.log = events ++ s.log)
      (silent : ∀ e ∈ events, e.notice? = none) (renews : Renews s.tasks s'.tasks) : ∃ events,
      s'.log = events ++ s.log ∧
        (orderBook revocable).Run (book s.tasks) (notices events) (book s'.tasks) := by
    refine ⟨events, hlog, ?_⟩
    rw [notices_silent silent, renews.book_eq hl.once hl'.once]
    exact .refl
  have waits {t t' : ActiveTask R} {rest : List (ActiveTask R)} {before after : List (Event R)}
      {e : Event R} (hlog : s'.log = (before ++ after ++ [e]) ++ s.log) (head : s.tasks = t :: rest)
      (silent : ∀ e ∈ before, e.notice? = none) (request : e.notice? = none)
      (told : ∀ e ∈ after, e = .taskState t.id "EXECUTING" t.robot)
      (tasks : s'.tasks = rest ++ [t']) (same : t.Continues t') : ∃ events,
      s'.log = events ++ s.log ∧
        (orderBook revocable).Run (book s.tasks) (notices events) (book s'.tasks) := by
    refine ⟨_, hlog, ?_⟩
    have held : book s.tasks t.robot = some t.order := book_of_mem hl.once (by simp [head])
    rw [notices_append, notices_append, notices_silent silent,
      notices_silent (List.forall_mem_singleton.mpr request), List.append_nil, List.nil_append,
      ← (Renews.turn head tasks same).book_eq hl.once hl'.once]
    exact told_run held told
  cases h with
  | sighting | battery | touch | mode | reload | vacate | swap =>
    exact same (show _ = [] ++ s.log from rfl) (by simp) (.refl _)
  | publish events reports =>
    refine same rfl ?_ (.refl _)
    intro e he
    have report := reports e he
    cases e with
    | taskState => cases report
    | _ => rfl
  | stopClaim => exact same (show _ = [_] ++ s.log from rfl) (by simp [Event.notice?]) (.refl _)
  | cancel here called =>
    refine ⟨_, rfl, ?_⟩
    have hstep : Book.Step revocable (book s.tasks) none
        (Function.update (book s.tasks) robot none) := by
      refine .revoke ?_
      intro o held
      obtain ⟨t, ht, hr, rfl⟩ := (book_eq_some hl.once).mp held
      exact revokes _ called t (here ▸ ht) hr
    rw [notices_silent, FleetNode.cancelTask, book_clear (roll_quit ..)]
    · exact hstep.run
    · intro e he
      obtain ⟨t, -, rfl⟩ := List.mem_map.mp he
      rfl
  | dispatch _ _ _ known idle =>
    refine ⟨_, show _ = [_, _] ++ s.log from rfl, ?_⟩
    rw [FleetNode.enlist_tasks, book_update (roll_join (hl.jobless known idle))]
    exact (Book.Step.assign (book_none.mpr (hl.jobless known idle))).run
  | patrol _ _ _ jobless =>
    refine ⟨_, show _ = [_, _] ++ s.log from rfl, ?_⟩
    rw [FleetNode.enlist_tasks, book_update (roll_join jobless)]
    exact (Book.Step.patrol (book_none.mpr jobless)).run
  | @fail _ t rest _ head =>
    refine ⟨_, show _ = [_, _] ++ s.log from rfl, ?_⟩
    rw [head, book_clear (roll_leave fun u hu => hl.robot_ne_head head hu)]
    exact (Book.Step.fail (book_of_mem (head ▸ hl.once) List.mem_cons_self)).run
  | @complete _ t rest head _ _ dispatched =>
    refine ⟨_, show _ = [_, _, _] ++ s.log from rfl, ?_⟩
    rw [head, book_clear (roll_leave fun u hu => hl.robot_ne_head head hu)]
    have held : book (t :: rest) t.robot = some ⟨t.id, false⟩ := by
      rw [book_of_mem (head ▸ hl.once) List.mem_cons_self, ActiveTask.order, dispatched]
    exact (Book.Step.complete held).run
  | look head =>
    exact same (show _ = [] ++ s.log from rfl) (by simp) (.head head rfl ⟨rfl, rfl, rfl, rfl⟩)
  | pass head =>
    exact same (show _ = [_] ++ s.log from rfl) (by simp [Event.notice?])
      (.head head rfl ⟨rfl, rfl, rfl, rfl⟩)
  | lap _ head =>
    exact same (show _ = [_, _] ++ s.log from rfl) (by simp [Event.notice?])
      (.head head rfl ⟨rfl, rfl, rfl, rfl⟩)
  | drive head =>
    exact same (show _ = [] ++ s.log from rfl) (by simp) (.turn head rfl (.refl _))
  | grant _ head =>
    exact same (show _ = [_, _] ++ s.log from rfl) (by simp [Event.notice?])
      (.turn head rfl ⟨rfl, rfl, rfl, rfl⟩)
  | @reroute _ t _ _ events cause _ head _ _ _ _ _ _ told =>
    exact waits (ask_log s.toFleetCore t ([.reroute t.robot cause] ++ events)) head
      (by simp [Event.notice?]) rfl told rfl (ActiveTask.detoured_continues ..)
  | @hold _ t _ events _ _ _ head _ _ _ told =>
    exact waits (ask_log s.toFleetCore t ([] ++ events)) head (by simp) rfl told rfl
      ⟨rfl, rfl, rfl, rfl⟩

/-- Every run of the node is a run of the order book, seen through `/fms/task_states`. -/
theorem orders_refined
    (hc : (ticks p).Reach (fun c a => a.With Callback.Offers ∧ c.Revokes revocable a) c) :
    (orderBook revocable).Run .empty (notices c.node.log) (book c.node.tasks) := by
  refine reach_books (P := fun s =>
    (orderBook revocable).Run .empty (notices s.log) (book s.tasks)) ?_ .refl ?_ hc
  · exact fun _ _ h => h.1
  · intro c a robot s s' ok he _ hl hrun
    obtain ⟨events, hlog, hstep⟩ := he.ordered ok.2 hl (he.ledger ok.1 hl)
    rw [hlog, notices_append]
    exact hrun.trans hstep

/-- A step that cancels no dispatched task revokes nothing but patrols. -/
theorem Conf.revokes_patrols (h : ¬ c.Preempts a) : c.Revokes (fun o => o.patrol = true) a := by
  intro robot called t ht hr
  by_contra hp
  exact h ⟨robot, called, t, ht, hr, Bool.eq_false_of_not_eq_true hp⟩

/-- What the node announces is what the order book shows of a run to the orders it has. A listener
knows the orders of all robots with tasks. What it believes beyond that may have been revoked, and
every announcement fits what it has heard of the robot before. -/
theorem listener_knows
    (hc : (ticks p).Reach (fun c a => a.With Callback.Offers ∧ c.Revokes revocable a) c) :
    (orderBook revocable).Run .empty (notices c.node.log) (book c.node.tasks) ∧
    (∀ t ∈ c.node.tasks, heard t.robot (notices c.node.log) = some t.order) ∧
    (∀ robot o, heard robot (notices c.node.log) = some o → ¬ revocable o →
      ∃ t ∈ c.node.tasks, t.robot = robot ∧ t.order = o) ∧
    ∀ n older, n :: older <:+ notices c.node.log → n.Fits revocable (heard n.robot older) := by
  have hl : Ledger c.node := reach_ledger (fun _ _ h => h.1) hc
  have hrun := orders_refined hc
  obtain ⟨informed, fits⟩ := listener_informed hrun
  refine ⟨hrun, ?_, ?_, fits⟩
  · intro t ht
    exact informed.held _ _ (book_of_mem hl.once ht)
  · intro robot o told lasting
    exact (book_eq_some hl.once).mp (informed.told robot o told lasting)

/-- Where no dispatched task is cancelled, a listener that has heard of one knows that it is there,
and one that has heard of nothing knows that there is none. -/
theorem listener_knows_waiting : ∃ c : Conf ℚ,
    (ticks (Yard.setup false [])).Reach (fun c a => a.With Callback.Steady ∧ ¬ c.Preempts a) c ∧
    (∃ t ∈ c.node.tasks, t.robot = "r1" ∧ t.order = ⟨"T-1", false⟩) ∧
    ∀ t ∈ c.node.tasks, t.robot ≠ "r2" := by
  obtain ⟨c, hc, hcheck⟩ := (ticks (Yard.setup false [])).exists_reach
    (fun c a => a.With Callback.Steady ∧ ¬ c.Preempts a)
    (fun c => decide (heard "r1" (notices c.node.log) = some ⟨"T-1", false⟩ ∧
      heard "r2" (notices c.node.log) = none))
    ([.call (Yard.seen "r1" 0 0), .call (Yard.seen "r2" 10 0), .call (Yard.send "r1" "1"),
      .call (Yard.send "r2" "5")] ++ Yard.taken .timer 6 ++
      .call (Yard.seen "r2" 10 10) :: Yard.taken .timer 4) (by decide +kernel)
  obtain ⟨hr1, hr2⟩ := of_decide_eq_true hcheck
  obtain ⟨-, held, told, -⟩ := listener_knows (hc.mono fun _ _ h =>
    ⟨h.1.mono fun _ => Callback.Steady.offers, Conf.revokes_patrols h.2⟩)
  refine ⟨c, hc, told "r1" _ hr1 (by simp), ?_⟩
  intro t ht hr
  have hnone := held t ht
  rw [hr, hr2] at hnone
  cases hnone

end LibiFleet
