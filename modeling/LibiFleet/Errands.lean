import LibiFleet.Orders

/-!
# The errands of the robots

A `PathRequest` sends a robot to a vertex. The robot that follows the requests takes each of them
once, by its `task_id`, and has to be sent to one place at a time.
-/

namespace LibiFleet

variable {R : Type}

/-- What concerns the drives of the robots: one is sent to a vertex, it has arrived there, or its
task has been erased. -/
inductive Sign
  | sent (robot taskId : String) (vertex : Int)
  | arrived (robot : String) (vertex : Int)
  | dropped (robot : String)
  deriving DecidableEq

/-- Where each robot has been sent to, and how many requests there have been. -/
structure Errands where
  target : String → Option Int
  count : Nat

namespace Errands

def start : Errands := ⟨fun _ => none, 0⟩

/-- A robot is sent to one vertex at a time, under an id with the next number. -/
inductive Step : Errands → Option Sign → Errands → Prop
  | send {e : Errands} {robot : String} {v : Int} (free : e.target robot = none) :
      Step e (some (.sent robot (robot ++ "-" ++ toString (e.count + 1)) v))
        ⟨Function.update e.target robot (some v), e.count + 1⟩
  | arrive {e : Errands} {robot : String} {v : Int} (sent : e.target robot = some v) :
      Step e (some (.arrived robot v)) { e with target := Function.update e.target robot none }
  | drop {e : Errands} {robot : String} :
      Step e (some (.dropped robot)) { e with target := Function.update e.target robot none }

end Errands

def errands : Spec Errands Sign := ⟨.start, Errands.Step⟩

theorem Errands.Step.run {e e' : Errands} {obs : Option Sign} (h : Errands.Step e obs e') :
    errands.Run e obs.toList e' :=
  Spec.Run.one (T := errands) h

/-- Where the robot is to drive after the signs, of which the last one is first. -/
def sentTo (robot : String) : List Sign → Option Int
  | [] => none
  | .sent r _ v :: older => if r = robot then some v else sentTo robot older
  | .arrived r _ :: older => if r = robot then none else sentTo robot older
  | .dropped r :: older => if r = robot then none else sentTo robot older

/-- A robot is only sent to a vertex when it is not under way, and arrives where it was sent. -/
def Sign.Fits (older : List Sign) : Sign → Prop
  | .sent robot _ _ => sentTo robot older = none
  | .arrived robot v => sentTo robot older = some v
  | .dropped _ => True

def Sign.taskId? : Sign → Option String
  | .sent _ taskId _ => some taskId
  | _ => none

/-- The ids of the requests, the last one first. -/
def taskIds (signs : List Sign) : List String := signs.filterMap Sign.taskId?

section Listening

variable {e e' : Errands} {obs : Option Sign} {seen : List Sign}

/-- The number at the end of an id. -/
theorem number_inj {robot robot' : String} {m n : Nat}
    (h : robot ++ "-" ++ toString m = robot' ++ "-" ++ toString n) : m = n := by
  have digits (robot : String) (n : Nat) :
      (robot ++ "-" ++ toString n).toList.reverse.takeWhile Char.isDigit =
        (Nat.toDigits 10 n).reverse := by
    have hn : (toString n).toList = Nat.toDigits 10 n := by
      rw [Nat.toString_eq_ofList_toDigits, String.toList_ofList]
    have hdash : ('-' :: robot.toList.reverse).takeWhile Char.isDigit = [] := rfl
    rw [String.toList_append, String.toList_append, hn, List.reverse_append, List.reverse_append,
      List.takeWhile_append_of_pos]
    · rw [show "-".toList.reverse ++ robot.toList.reverse = '-' :: robot.toList.reverse from rfl,
        hdash, List.append_nil]
    · intro c hc
      exact Nat.isDigit_of_mem_toDigits (by decide) (by decide) (List.mem_reverse.mp hc)
  have heq := (digits robot m).symm.trans ((h ▸ digits robot' n))
  rw [← Nat.ofDigitChars_ten_toDigits (n := m), List.reverse_inj.mp heq,
    Nat.ofDigitChars_ten_toDigits]

/-- What the signs tell of the errands. -/
structure Told (seen : List Sign) (e : Errands) : Prop where
  target : ∀ robot, sentTo robot seen = e.target robot
  numbered : ∀ id ∈ taskIds seen, ∃ robot, ∃ n ≤ e.count, id = robot ++ "-" ++ toString n
  fresh : (taskIds seen).Nodup

theorem told_start : Told [] .start where
  target := fun _ => rfl
  numbered := by simp [taskIds]
  fresh := .nil

/-- A sign that a robot has no target any more. -/
theorem Told.clear (hs : Told seen e) {o : Sign} {robot : String}
    (hout : ∀ r, sentTo r (o :: seen) = if robot = r then none else sentTo r seen)
    (silent : o.taskId? = none) :
    Told (o :: seen) { e with target := Function.update e.target robot none } where
  target := by
    intro r
    rw [hout]
    dsimp only
    by_cases hr : robot = r
    · rw [if_pos hr, ← hr, Function.update_self]
    · rw [if_neg hr, hs.target, Function.update_of_ne (Ne.symm hr)]
  numbered := by
    rw [taskIds, List.filterMap_cons_none silent]
    exact hs.numbered
  fresh := by
    rw [taskIds, List.filterMap_cons_none silent]
    exact hs.fresh

theorem Errands.Step.told (h : Errands.Step e obs e') (hs : Told seen e) :
    Told (obs.toList ++ seen) e' := by
  cases h with
  | arrive => exact hs.clear (fun _ => rfl) rfl
  | drop => exact hs.clear (fun _ => rfl) rfl
  | @send robot v free =>
    constructor
    · intro r
      by_cases hr : robot = r
      · subst hr
        simp [sentTo]
      · simp [sentTo, hr, hs.target, Function.update_of_ne (Ne.symm hr)]
    · intro id hid
      rcases List.mem_cons.mp hid with rfl | hid
      · exact ⟨robot, _, le_rfl, rfl⟩
      · obtain ⟨r, n, hn, rfl⟩ := hs.numbered id hid
        exact ⟨r, n, Nat.le_succ_of_le hn, rfl⟩
    · refine List.nodup_cons.mpr ⟨?_, hs.fresh⟩
      intro hold
      obtain ⟨r, n, hn, hid⟩ := hs.numbered _ hold
      have := number_inj hid
      omega

theorem Errands.Step.fits {o : Sign} (h : Errands.Step e (some o) e') (hs : Told seen e) :
    o.Fits seen := by
  cases h with
  | send free => exact (hs.target _).trans free
  | arrive sent => exact (hs.target _).trans sent
  | drop => trivial

theorem errands_told (h : errands.Run .start seen e) :
    Told seen e ∧ ∀ o older, o :: older <:+ seen → o.Fits older :=
  ⟨h.invariant told_start fun _ _ _ _ hstep hs => hstep.told hs,
    h.each told_start (fun _ _ _ _ hstep hs => hstep.told hs) fun _ _ _ _ hstep hs => hstep.fits hs⟩

end Listening

/-! ## The errands of the node -/

def Event.sign? : Event R → Option Sign
  | .pathRequest _ robot taskId _ _ vertex _ => some (.sent robot taskId vertex)
  | .arrival robot vertex => some (.arrived robot vertex)
  | .erased robot => some (.dropped robot)
  | _ => none

def signs (log : List (Event R)) : List Sign := log.filterMap Event.sign?

/-- Where the task has sent its robot. -/
def ActiveTask.target (t : ActiveTask R) : Option Int := if t.moving then some t.next else none

/-- Where the tasks have sent the robots. -/
def targets (tasks : List (ActiveTask R)) (robot : String) : Option Int :=
  (roll tasks robot).bind ActiveTask.target

def FleetNode.errands (s : FleetNode R) : Errands := ⟨targets s.tasks, s.pathSeq⟩

section Reading

variable {l l' rest : List (ActiveTask R)} {t t' : ActiveTask R} {robot : String}
  {events log : List (Event R)}

theorem signs_append : signs (events ++ log) = signs events ++ signs log := List.filterMap_append

theorem targets_update {o : Option (ActiveTask R)}
    (h : roll l' = Function.update (roll l) robot o) :
    targets l' = Function.update (targets l) robot (o.bind ActiveTask.target) := by
  funext q
  rw [targets, h]
  exact Function.apply_update (fun _ => (Option.bind · ActiveTask.target)) (roll l) robot o q

theorem roll_head (hr : t'.robot = t.robot) :
    roll (t' :: rest) = Function.update (roll (t :: rest)) t.robot (some t') := by
  funext q
  by_cases hq : q = t.robot
  · rw [hq, Function.update_self, roll, List.find?_cons_of_pos (by simpa using hr)]
  · rw [Function.update_of_ne hq, roll, roll, List.find?_cons_of_neg (by simp [hr, Ne.symm hq]),
      List.find?_cons_of_neg (by simp [Ne.symm hq])]

theorem roll_turn (others : ∀ u ∈ rest, u.robot ≠ t.robot) (hr : t'.robot = t.robot) :
    roll (rest ++ [t']) = Function.update (roll (t :: rest)) t.robot (some t') := by
  rw [roll_join (hr ▸ others), hr, roll_leave others, Function.update_idem]

/-- The first task is changed. -/
theorem targets_front (hr : t'.robot = t.robot) :
    targets (t' :: rest) = Function.update (targets (t :: rest)) t.robot t'.target :=
  targets_update (roll_head hr)

/-- The first task is changed and goes to the back. -/
theorem targets_back (others : ∀ u ∈ rest, u.robot ≠ t.robot) (hr : t'.robot = t.robot) :
    targets (rest ++ [t']) = Function.update (targets (t :: rest)) t.robot t'.target :=
  targets_update (roll_turn others hr)

theorem targets_leave (others : ∀ u ∈ rest, u.robot ≠ t.robot) :
    targets rest = Function.update (targets (t :: rest)) t.robot none :=
  targets_update (roll_leave others)

/-- A robot without a task gets one, which has not sent it anywhere yet. -/
theorem targets_join (fresh : ∀ u ∈ l, u.robot ≠ t.robot) (still : t.target = none) :
    targets (l ++ [t]) = targets l := by
  have hnone : targets l t.robot = none := by
    rw [targets, roll_none.mpr fresh, Option.bind_none]
  rw [targets_update (roll_join fresh), Option.bind_some, still, ← hnone, Function.update_eq_self]

/-- However many tasks of a robot are erased, it has no target afterwards. -/
theorem drops_run {e : Errands} (own : ∀ t ∈ l, t.robot = robot)
    (free : l = [] → e.target robot = none) :
    errands.Run e (signs (l.map fun t => (.erased t.robot : Event R)))
      { e with target := Function.update e.target robot none } := by
  induction l with
  | nil =>
    rw [← free rfl, Function.update_eq_self]
    exact .refl
  | cons t l ih =>
    have hr := own t List.mem_cons_self
    by_cases hl : l = []
    · subst hl hr
      exact Errands.Step.drop.run
    · have hrun := ih (fun u hu => own u (List.mem_cons_of_mem _ hu)) fun h => absurd h hl
      have hdrop : errands.Run e (.dropped robot :: signs (l.map fun t => .erased t.robot))
          { e with target := Function.update (Function.update e.target robot none) robot none } :=
        .tail hrun Errands.Step.drop
      rw [Function.update_idem] at hdrop
      rw [List.map_cons, hr]
      exact hdrop

end Reading

/-- What the node logs on the way is a run of the errands, from where its tasks have sent the robots
to where they have sent them afterwards. -/
def FleetNode.Tracks (s s' : FleetNode R) : Prop :=
  ∃ events, s'.log = events ++ s.log ∧
    LibiFleet.errands.Run s.errands (signs events) s'.errands

section Tracks

variable {s s' : FleetNode R} {t t' : ActiveTask R} {rest : List (ActiveTask R)}
  {events before after : List (Event R)} {robot : String}

theorem targets_first (hl : Ledger s) (head : s.tasks = t :: rest) :
    targets s.tasks t.robot = t.target := by
  rw [targets, roll_of_mem hl.once (by simp [head]), Option.bind_some]

/-- The first task changes, but not where it has sent its robot. -/
theorem targets_front_eq (hl : Ledger s) (head : s.tasks = t :: rest) (hr : t'.robot = t.robot)
    (same : t'.target = t.target) : targets (t' :: rest) = targets s.tasks := by
  rw [head, targets_front hr, same, ← targets_first hl head, head, Function.update_eq_self]

theorem targets_back_eq (hl : Ledger s) (head : s.tasks = t :: rest) (hr : t'.robot = t.robot)
    (same : t'.target = t.target) : targets (rest ++ [t']) = targets s.tasks := by
  have others : ∀ u ∈ rest, u.robot ≠ t.robot := fun u hu => hl.robot_ne_head head hu
  rw [head, targets_back others hr, same, ← targets_first hl head, head, Function.update_eq_self]

theorem Errands.Step.arrives (hl : Ledger s) (head : s.tasks = t :: rest)
    (moving : t.moving = true) : Errands.Step s.errands (some (.arrived t.robot t.next))
      ⟨Function.update (targets s.tasks) t.robot none, s.pathSeq⟩ :=
  .arrive ((targets_first hl head).trans (if_pos moving))

namespace FleetNode.Tracks

theorem silent (hlog : s'.log = events ++ s.log) (quiet : ∀ e ∈ events, e.sign? = none)
    (htargets : targets s'.tasks = targets s.tasks) (hseq : s'.pathSeq = s.pathSeq) :
    s.Tracks s' := by
  refine ⟨events, hlog, ?_⟩
  rw [signs, List.filterMap_eq_nil_iff.mpr quiet, FleetNode.errands, FleetNode.errands, htargets,
    hseq]
  exact .refl

/-- A request that is not granted sends nobody. -/
theorem refused {e : Event R} {id : String} (hlog : s'.log = before ++ after ++ [e] ++ s.log)
    (quiet : ∀ d ∈ before, d.sign? = none)
    (told : ∀ d ∈ after, d = .taskState id "EXECUTING" robot) (request : e.sign? = none)
    (htargets : targets s'.tasks = targets s.tasks) (hseq : s'.pathSeq = s.pathSeq) :
    s.Tracks s' := by
  refine silent hlog ?_ htargets hseq
  intro d hd
  rcases List.mem_append.mp hd with hd | hd
  · rcases List.mem_append.mp hd with hd | hd
    · exact quiet d hd
    · rw [told d hd]
      rfl
  · exact List.mem_singleton.mp hd ▸ request

theorem cancel (s : FleetNode R) (robot : String) : s.Tracks (s.cancelTask robot) := by
  refine ⟨_, rfl, ?_⟩
  have htargets : targets (s.tasks.filter (·.robot ≠ robot)) =
      Function.update (targets s.tasks) robot none := targets_update (roll_quit s.tasks robot)
  have hrun := drops_run (e := s.errands) (l := s.tasks.filter (·.robot = robot))
    (fun t ht => by simpa using (List.mem_filter.mp ht).2) fun hnil => by
      show targets s.tasks robot = none
      rw [targets, roll_none.mpr, Option.bind_none]
      simpa using hnil
  show LibiFleet.errands.Run s.errands _ ⟨targets (s.tasks.filter (·.robot ≠ robot)), s.pathSeq⟩
  rw [htargets]
  exact hrun

/-- The first task leaves with what is logged of it. -/
theorem leave (hl : Ledger s) (head : s.tasks = t :: rest) (hlog : s'.log = events ++ s.log)
    (run : LibiFleet.errands.Run s.errands (signs events)
      ⟨Function.update (targets s.tasks) t.robot none, s.pathSeq⟩)
    (tasks : s'.tasks = rest) (hseq : s'.pathSeq = s.pathSeq) : s.Tracks s' := by
  refine ⟨events, hlog, ?_⟩
  have others : ∀ u ∈ rest, u.robot ≠ t.robot := fun u hu => hl.robot_ne_head head hu
  show LibiFleet.errands.Run s.errands (signs events) ⟨targets s'.tasks, s'.pathSeq⟩
  rw [tasks, hseq, targets_leave others, ← head]
  exact run

theorem complete (hl : Ledger s) (head : s.tasks = t :: rest) (moving : t.moving = true)
    (hlog : s'.log = events ++ s.log)
    (hsigns : signs events = [.dropped t.robot, .arrived t.robot t.next])
    (tasks : s'.tasks = rest) (hseq : s'.pathSeq = s.pathSeq) : s.Tracks s' := by
  have hdrop : Errands.Step ⟨Function.update (targets s.tasks) t.robot none, s.pathSeq⟩
      (some (.dropped t.robot)) ⟨Function.update (Function.update (targets s.tasks) t.robot none)
        t.robot none, s.pathSeq⟩ := .drop
  rw [Function.update_idem] at hdrop
  refine leave hl head hlog ?_ tasks hseq
  rw [hsigns]
  exact (Errands.Step.arrives hl head moving).run.trans hdrop.run

/-- The robot of the first task has arrived, and its task has not sent it on yet. -/
theorem arrive (hl : Ledger s) (head : s.tasks = t :: rest) (moving : t.moving = true)
    (hlog : s'.log = events ++ s.log) (hsigns : signs events = [.arrived t.robot t.next])
    (tasks : s'.tasks = t' :: rest) (hr : t'.robot = t.robot) (rests : t'.target = none)
    (hseq : s'.pathSeq = s.pathSeq) : s.Tracks s' := by
  refine ⟨events, hlog, ?_⟩
  show LibiFleet.errands.Run s.errands (signs events) ⟨targets s'.tasks, s'.pathSeq⟩
  rw [hsigns, tasks, hseq, targets_front hr, rests, ← head]
  exact (Errands.Step.arrives hl head moving).run

theorem send (hl : Ledger s) (head : s.tasks = t :: rest) (still : t.moving = false)
    (hlog : s'.log = events ++ s.log) (hsigns : signs events =
      [.sent t.robot (t.robot ++ "-" ++ toString (s.pathSeq + 1)) t.next])
    (tasks : s'.tasks = rest ++ [t.departed]) (hseq : s'.pathSeq = s.pathSeq + 1) :
    s.Tracks s' := by
  have others : ∀ u ∈ rest, u.robot ≠ t.robot := fun u hu => hl.robot_ne_head head hu
  have free : targets s.tasks t.robot = none := by
    rw [targets_first hl head, ActiveTask.target, still, if_neg Bool.false_ne_true]
  have hstep : Errands.Step s.errands
      (some (.sent t.robot (t.robot ++ "-" ++ toString (s.pathSeq + 1)) t.next))
      ⟨targets (rest ++ [t.departed]), s.pathSeq + 1⟩ := by
    rw [targets_back others (show t.departed.robot = t.robot from rfl), ← head]
    exact .send free
  refine ⟨events, hlog, ?_⟩
  show LibiFleet.errands.Run s.errands (signs events) ⟨targets s'.tasks, s'.pathSeq⟩
  rw [hsigns, tasks, hseq]
  exact hstep.run

end FleetNode.Tracks

end Tracks

variable [Double R] {c : Conf R} {a : Action R} {p : Setup R}

/-- An effect sends one robot at most, and only one that is not under way. -/
theorem Effect.errands {robot : String} {s s' : FleetNode R} (h : Effect c a robot s s')
    (hl : Ledger s) : s.Tracks s' := by
  cases h with
  | sighting | battery | touch | mode | reload | vacate | swap =>
    exact .silent (show _ = [] ++ s.log from rfl) (by simp) rfl rfl
  | stopClaim => exact .silent (show _ = [_] ++ s.log from rfl) (by simp [Event.sign?]) rfl rfl
  | publish events reports =>
    refine .silent rfl ?_ rfl rfl
    intro e he
    have report := reports e he
    cases e with
    | pathRequest | arrival | erased => cases report
    | _ => rfl
  | cancel => exact .cancel s robot
  | dispatch _ _ _ known idle =>
    refine .silent (show _ = [_, _] ++ s.log from rfl) (by simp [Event.sign?]) ?_ rfl
    rw [FleetNode.enlist_tasks, targets_join (hl.jobless known idle) rfl]
  | patrol _ _ _ jobless =>
    refine .silent (show _ = [_, _] ++ s.log from rfl) (by simp [Event.sign?]) ?_ rfl
    rw [FleetNode.enlist_tasks, targets_join jobless rfl]
  | fail head =>
    exact .leave hl head (show _ = [_, _] ++ s.log from rfl) Errands.Step.drop.run rfl rfl
  | complete head moving =>
    exact .complete hl head moving (show _ = [_, _, _] ++ s.log from rfl) rfl rfl rfl
  | look head =>
    exact .silent (show _ = [] ++ s.log from rfl) (by simp) (targets_front_eq hl head rfl rfl) rfl
  | @pass _ _ _ head moving =>
    exact .arrive hl head moving (show _ = [_] ++ s.log from rfl) rfl rfl rfl rfl rfl
  | @lap _ _ _ _ _ head moving =>
    exact .arrive hl head moving (show _ = [_, _] ++ s.log from rfl) rfl rfl rfl rfl rfl
  | drive head =>
    exact .silent (show _ = [] ++ s.log from rfl) (by simp) (targets_back_eq hl head rfl rfl) rfl
  | @grant _ _ _ _ _ head still =>
    exact .send hl head still (show _ = [_, _] ++ s.log from rfl) rfl rfl rfl
  | @reroute _ t _ path events cause _ head still _ _ _ _ _ told =>
    have same : (t.detoured path cause).target = t.target := by
      rw [ActiveTask.target, ActiveTask.target, ActiveTask.detoured_moving, still,
        if_neg Bool.false_ne_true, if_neg Bool.false_ne_true]
    exact .refused (ask_log s.toFleetCore t ([.reroute t.robot cause] ++ events))
      (by simp [Event.sign?]) told rfl
      (targets_back_eq hl head (ActiveTask.detoured_continues ..).robot same) rfl
  | @hold _ t _ events _ _ _ head _ _ _ told =>
    exact .refused (ask_log s.toFleetCore t ([] ++ events)) (by simp) told rfl
      (targets_back_eq hl head rfl rfl) rfl

theorem errands_refined (hc : (ticks p).Reach (fun _ a => a.With Callback.Offers) c) :
    errands.Run .start (signs c.node.log) c.node.errands := by
  refine reach_books (P := fun s => LibiFleet.errands.Run .start (signs s.log) s.errands)
    (fun _ _ h => h) .refl ?_ hc
  intro c a robot s s' _ he _ hl hrun
  obtain ⟨events, hlog, hstep⟩ := he.errands hl
  rw [hlog, signs_append]
  exact hrun.trans hstep

/-- Every run of the node is a run of the errands. No two requests have one id, a robot is sent to
one place at a time and arrives where it was sent, and the tasks that are under way are those whose
robots have been sent and not arrived. -/
theorem robots_sent_once (hc : (ticks p).Reach (fun _ a => a.With Callback.Offers) c) :
    errands.Run .start (signs c.node.log) c.node.errands ∧
    (taskIds (signs c.node.log)).Nodup ∧
    (∀ o older, o :: older <:+ signs c.node.log → o.Fits older) ∧
    ∀ robot v, sentTo robot (signs c.node.log) = some v ↔
      ∃ t ∈ c.node.tasks, t.robot = robot ∧ t.moving = true ∧ t.next = v := by
  have hl : Ledger c.node := reach_ledger (fun _ _ h => h) hc
  have hrun := errands_refined hc
  obtain ⟨told, fits⟩ := errands_told hrun
  refine ⟨hrun, told.fresh, fits, ?_⟩
  intro robot v
  rw [told.target]
  show targets c.node.tasks robot = some v ↔ _
  constructor
  · intro h
    obtain ⟨t, ht, hv⟩ := Option.bind_eq_some_iff.mp h
    obtain ⟨hmem, hr⟩ := roll_some ht
    by_cases moving : t.moving = true
    · rw [ActiveTask.target, if_pos moving] at hv
      exact ⟨t, hmem, hr, moving, Option.some.inj hv⟩
    · rw [ActiveTask.target, if_neg moving] at hv
      cases hv
  · rintro ⟨t, ht, rfl, moving, rfl⟩
    rw [targets, roll_of_mem hl.once ht, Option.bind_some, ActiveTask.target, if_pos moving]

/-- Two robots have been sent, and one of them has arrived. -/
theorem robots_sent_once_waiting : ∃ c : Conf ℚ,
    (ticks (Yard.setup false [])).Reach (fun _ a => a.With Callback.Steady) c ∧
    signs c.node.log = [.dropped "r2", .arrived "r2" 5, .sent "r1" "r1-2" 1, .sent "r2" "r2-1" 5] ∧
    ∃ t ∈ c.node.tasks, t.robot = "r1" ∧ t.moving = true ∧ t.next = 1 := by
  obtain ⟨c, hc, hcheck⟩ := (ticks (Yard.setup false [])).exists_reach
    (fun _ a => a.With Callback.Steady)
    (fun c => decide (signs c.node.log =
      [.dropped "r2", .arrived "r2" 5, .sent "r1" "r1-2" 1, .sent "r2" "r2-1" 5]))
    ([.call (Yard.seen "r1" 0 0), .call (Yard.seen "r2" 10 0), .call (Yard.send "r1" "1"),
      .call (Yard.send "r2" "5")] ++ Yard.taken .timer 6 ++
      .call (Yard.seen "r2" 10 10) :: Yard.taken .timer 4) (by decide +kernel)
  have hsigns := of_decide_eq_true hcheck
  have hsent : sentTo "r1" (signs c.node.log) = some 1 := by
    rw [hsigns]
    rfl
  obtain ⟨-, -, -, under⟩ := robots_sent_once (hc.mono fun _ _ h =>
    h.mono fun _ => Callback.Steady.offers)
  exact ⟨c, hc, hsigns, (under "r1" 1).mp hsent⟩

end LibiFleet
