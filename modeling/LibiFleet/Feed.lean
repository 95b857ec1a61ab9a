import LibiFleet.Orders
import Mathlib.Data.List.DropRight

/-!
# The task feed

The console keeps the last announcements of `/fms/task_states` and shows the newest of
them. The card of a robot takes the name of its task from there.
-/

namespace LibiFleet

namespace Bridge

/-- `_on_task`, on `task_log`. -/
def onTask (taskLog : List Notice) (m : Notice) : List Notice := (taskLog ++ [m]).rtake 60

/-- `tasks` in the answer of `/api/state`. -/
def stateTasks (taskLog : List Notice) : List Notice := (taskLog.rtake 14).reverse

/-- `curTask` of the page: the newest entry of the robot that is no patrol by its id. -/
def curTask (name : String) (tasks : List Notice) : Option Notice :=
  tasks.find? fun t => t.robot = name ∧ ¬ "P-".toList <+: t.taskId.toList

/-- `task_log` after the messages, of which the last one is first. -/
def taskLog : List Notice → List Notice
  | [] => []
  | m :: older => onTask (taskLog older) m

theorem taskLog_eq (seen : List Notice) : taskLog seen = (seen.take 60).reverse := by
  induction seen with
  | nil => rfl
  | cons m older ih =>
    rw [taskLog, onTask, ih, List.rtake_eq_reverse_take_reverse, List.reverse_append,
      List.reverse_reverse, List.reverse_singleton, List.singleton_append, List.take_succ_cons,
      List.take_take, List.take_succ_cons]
    rfl

theorem stateTasks_taskLog (seen : List Notice) : stateTasks (taskLog seen) = seen.take 14 := by
  rw [stateTasks, taskLog_eq, List.rtake_eq_reverse_take_reverse, List.reverse_reverse,
    List.reverse_reverse, List.take_take]
  rfl

/-- The entry that the page finds is the newest of all, not only of those it has. -/
theorem curTask_take {name : String} {seen : List Notice} {k : Nat} {m : Notice}
    (h : curTask name (seen.take k) = some m) : curTask name seen = some m := by
  rw [curTask, ← List.take_append_drop k seen, List.find?_append, ← curTask, h, Option.some_or]

end Bridge

open Bridge

/-- The newest entry of a robot with a dispatched order is one of that order, and tells that it is
not yet over. -/
def Carded (seen : List Notice) (b : Book) : Prop :=
  ∀ robot id, b robot = some ⟨id, false⟩ → ¬ "P-".toList <+: id.toList →
    ∃ m, curTask robot seen = some m ∧ m.taskId = id ∧
      (m.state = "ASSIGNED" ∨ m.state = "EXECUTING")

section Card

variable {revocable : Order → Prop} {seen : List Notice} {b b' : Book} {obs : Option Notice}

theorem curTask_other {m : Notice} {name : String} (h : m.robot ≠ name) :
    curTask name (m :: seen) = curTask name seen := by
  simp [curTask, h]

theorem curTask_self {m : Notice} (h : ¬ "P-".toList <+: m.taskId.toList) :
    curTask m.robot (m :: seen) = some m :=
  List.find?_cons_of_pos (by simpa using h)

/-- What is announced of a robot does not touch the cards of the others. -/
theorem Carded.news (hc : Carded seen b) {m : Notice} {o : Option Order}
    (self : ∀ id, o = some ⟨id, false⟩ →
      id = m.taskId ∧ (m.state = "ASSIGNED" ∨ m.state = "EXECUTING")) :
    Carded (m :: seen) (Function.update b m.robot o) := by
  intro robot id held plain
  by_cases hr : robot = m.robot
  · subst hr
    rw [Function.update_self] at held
    obtain ⟨rfl, hstate⟩ := self id held
    exact ⟨m, curTask_self plain, rfl, hstate⟩
  · rw [Function.update_of_ne hr] at held
    rw [curTask_other (Ne.symm hr)]
    exact hc robot id held plain

theorem Book.Step.carded (h : Book.Step revocable b obs b') (hc : Carded seen b) :
    Carded (obs.toList ++ seen) b' := by
  cases h with
  | @assign robot id =>
    refine hc.news (m := ⟨id, "ASSIGNED", robot⟩) ?_
    intro id' held
    cases held
    exact ⟨rfl, .inl rfl⟩
  | @patrol robot =>
    refine hc.news (m := ⟨"P-" ++ robot, "PATROL", robot⟩) ?_
    intro id held
    cases held
  | @wait robot o held =>
    have hnew := hc.news (m := ⟨o.id, "EXECUTING", robot⟩) (o := b robot) ?_
    · rwa [Function.update_eq_self] at hnew
    · intro id held'
      rw [held] at held'
      cases held'
      exact ⟨rfl, .inr rfl⟩
  | @complete robot id =>
    refine hc.news (m := ⟨id, "COMPLETED", robot⟩) ?_
    intro id held
    cases held
  | @fail robot o =>
    refine hc.news (m := ⟨o.id, "FAILED", robot⟩) ?_
    intro id held
    cases held
  | @revoke robot =>
    intro q id held
    by_cases hq : q = robot
    · rw [hq, Function.update_self] at held
      cases held
    · rw [Function.update_of_ne hq] at held
      exact hc q id held

/-- The page finds the newest entry, or it has none of the robot. -/
theorem Carded.shown (hc : Carded seen b) {robot id : String} (held : b robot = some ⟨id, false⟩)
    (plain : ¬ "P-".toList <+: id.toList) {m : Notice}
    (hm : curTask robot (stateTasks (taskLog seen)) = some m) :
    curTask robot seen = some m ∧ m.taskId = id ∧
      (m.state = "ASSIGNED" ∨ m.state = "EXECUTING") := by
  obtain ⟨n, hn, hid, hstate⟩ := hc robot id held plain
  rw [stateTasks_taskLog] at hm
  have hnewest := curTask_take hm
  obtain rfl := Option.some.inj (hn.symm.trans hnewest)
  exact ⟨hnewest, hid, hstate⟩

end Card

variable {R : Type} [Double R] {c : Conf R} {p : Setup R} {revocable : Order → Prop}

theorem reach_carded (hc : (ticks p).Reach (fun _ a => a.With Callback.Offers) c) :
    Carded (notices c.node.log) (book c.node.tasks) := by
  have hrun : (orderBook fun _ => True).Run .empty (notices c.node.log) (book c.node.tasks) :=
    orders_refined (hc.mono fun _ _ h => ⟨h, fun _ _ _ _ _ => trivial⟩)
  refine hrun.invariant (P := Carded) ?_ fun _ _ _ _ hstep hcard => hstep.carded hcard
  intro robot id held
  cases held

/-- The newest entry of a robot with a dispatched task is of that task, and never tells that it is
over. It is the entry that the page shows on the card of the robot, unless it has none to show. -/
theorem card_names_task (hc : (ticks p).Reach (fun _ a => a.With Callback.Offers) c)
    {t : ActiveTask R} (ht : t ∈ c.node.tasks) (dispatched : t.patrol = false)
    (plain : ¬ "P-".toList <+: t.id.toList) :
    (∃ m, curTask t.robot (notices c.node.log) = some m ∧ m.taskId = t.id ∧
      (m.state = "ASSIGNED" ∨ m.state = "EXECUTING")) ∧
    ∀ m, curTask t.robot (stateTasks (taskLog (notices c.node.log))) = some m →
      curTask t.robot (notices c.node.log) = some m ∧ m.taskId = t.id ∧
        (m.state = "ASSIGNED" ∨ m.state = "EXECUTING") := by
  have hl : Ledger c.node := reach_ledger (fun _ _ h => h) hc
  have hcarded := reach_carded hc
  have held : book c.node.tasks t.robot = some ⟨t.id, false⟩ := by
    rw [book_of_mem hl.once ht, ActiveTask.order, dispatched]
  exact ⟨hcarded _ _ held plain, fun m hm => hcarded.shown held plain hm⟩

theorem card_names_waiting : ∃ m : Notice, ∃ c : Conf ℚ, (∃ t ∈ c.node.tasks, t.id = "T-1") ∧
    curTask "r1" (stateTasks (taskLog (notices c.node.log))) = some m ∧ m.taskId = "T-1" := by
  obtain ⟨c, hc, hcheck⟩ := (ticks (Yard.setup false [])).exists_reach
    (fun _ a => a.With Callback.Steady)
    (fun c => decide ((∃ t ∈ c.node.tasks, t.robot = "r1" ∧ t.patrol = false ∧ t.id = "T-1") ∧
      (curTask "r1" (stateTasks (taskLog (notices c.node.log)))).isSome))
    ([.call (Yard.seen "r1" 0 0), .call (Yard.seen "r2" 10 0), .call (Yard.send "r1" "1"),
      .call (Yard.send "r2" "5")] ++ Yard.taken .timer 6) (by decide +kernel)
  obtain ⟨⟨t, ht, hr, dispatched, hid⟩, hsome⟩ := of_decide_eq_true hcheck
  obtain ⟨m, hm⟩ := Option.isSome_iff_exists.mp hsome
  have hcard := (card_names_task (hc.mono fun _ _ h => h.mono fun _ => Callback.Steady.offers) ht
    dispatched (by rw [hid]; decide)).2
  rw [hr, hid] at hcard
  exact ⟨m, c, ⟨t, ht, hid⟩, hm, (hcard m hm).2.1⟩

end LibiFleet
