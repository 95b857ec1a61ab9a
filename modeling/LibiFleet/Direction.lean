import LibiFleet.Record
import LibiFleet.Shortest

/-!
# The direction of a patrol

A patrol that is not granted its next node may be sent on a detour. After a deadlock and after a
long wait the detour leads to the successor of the blocked node on the route; around a stopped
robot it leads to the end of the path, which is the place where the lap has started.
-/

namespace LibiFleet

variable {R : Type} [Double R]

/-- There is a way of two vertices at least along lanes that does not enter `avoid`. -/
def Navgraph.Around (g : Navgraph R) (avoid a b : Int) : Prop :=
  ∃ path, g.Tour avoid a b path ∧ 2 ≤ path.length

namespace FleetCore

/-- The task has been sent on a detour on the way from `s` to `s'`. -/
def Rerouted (s s' : FleetCore R) (t : ActiveTask R) : Prop :=
  ∃ cause, .reroute t.robot cause ∈ s.news s'

/-- The request of the task comes to the branch of `blocked_by_stopped`. -/
def AtStopped (s : FleetCore R) (t : ActiveTask R) : Prop :=
  (s.ask t).1 = .wait ∧ (s.ask t).2.blockedByStopped t.next = true

instance (s : FleetCore R) (t : ActiveTask R) : Decidable (s.AtStopped t) :=
  inferInstanceAs (Decidable (_ ∧ _))

/-- The detour that the branch of `blocked_by_stopped` looks for exists. -/
def HasReturn (s : FleetCore R) (t : ActiveTask R) : Prop :=
  t.cur ≠ t.back ∧ s.graph.Around t.next t.cur t.back

/-- A detour keeps the direction of the patrol `t`, which is `t'` after its request; and behind a
stopped robot it is taken if there is one. -/
structure KeepsDirection (s s' : FleetCore R) (t t' : ActiveTask R) : Prop where
  path : s.Rerouted s' t → t'.path.head? = some t.cur ∧ t.next ∉ t'.path.tail ∧
    t'.path.getLast? = some (s.patrolSucc t.next)
  stopped : s.AtStopped t → s.graph.Around t.next t.cur (s.patrolSucc t.next) → s.Rerouted s' t

end FleetCore

namespace Navgraph

variable {g : Navgraph R} {avoid a b : Int} {path : List Int}

omit [Double R] in
/-- The lanes of a way show that its ends are vertices. -/
theorem Tour.range (h : g.Tour avoid a b path) (long : 2 ≤ path.length) :
    g.InRange a ∧ g.InRange b := by
  obtain ⟨hhead, hlast, hlanes, -⟩ := h
  rcases path with _ | ⟨u, _ | ⟨v, rest⟩⟩
  · cases hhead
  · simp at long
  obtain rfl := Option.some.inj hhead
  obtain ⟨hlane, hchain⟩ := List.isChain_cons_cons.mp hlanes
  refine ⟨hlane.1, ?_⟩
  rw [List.getLast?_cons_cons] at hlast
  have hrange : ∀ w ∈ v :: rest, g.InRange w := by
    apply hchain.induction (g.InRange ·)
    · exact fun _ _ hxy _ => hxy.target
    · exact fun _ => hlane.target
  exact hrange b (List.mem_of_getLast? hlast)

omit [Double R] in
theorem Tour.long (h : g.Tour avoid a b path) (hne : a ≠ b) : 2 ≤ path.length := by
  obtain ⟨hhead, hlast, -, -⟩ := h
  rcases path with _ | ⟨u, _ | ⟨v, rest⟩⟩
  · cases hhead
  · exact absurd ((Option.some.inj hhead).symm.trans (Option.some.inj hlast)) hne
  · simp

theorem dijkstra_tour (hne : g.dijkstra a b avoid ≠ []) :
    g.Tour avoid a b (g.dijkstra a b avoid) ∧ (a = b → g.dijkstra a b avoid = [a]) := by
  have hroute := dijkstra_route rfl hne
  have ha := hroute.range a (List.mem_of_head? hroute.head)
  have hb := hroute.range b (List.mem_of_getLast? hroute.last)
  obtain ⟨-, -, hfound⟩ := dijkstra_correct ha hb avoid
  obtain ⟨htour, -, hself, -⟩ := hfound hne
  exact ⟨htour, hself⟩

/-- The search is enough to find a detour, except to where the robot is. -/
theorem detour_iff : 2 ≤ (g.dijkstra a b avoid).length ↔ a ≠ b ∧ g.Around avoid a b := by
  constructor
  · intro long
    have hne : g.dijkstra a b avoid ≠ [] := by
      intro hnil
      simp [hnil] at long
    obtain ⟨htour, hself⟩ := dijkstra_tour hne
    refine ⟨fun heq => ?_, _, htour, long⟩
    rw [hself heq] at long
    simp at long
  · rintro ⟨hab, path, htour, long⟩
    obtain ⟨ha, hb⟩ := htour.range long
    obtain ⟨-, hempty, -⟩ := dijkstra_correct ha hb avoid
    have hne : g.dijkstra a b avoid ≠ [] := fun hnil => (hempty.mp hnil).2 path htour
    exact (dijkstra_tour hne).1.long hab

end Navgraph

section Branches

variable {s s' : FleetCore R} {t t' : ActiveTask R}

theorem rerouted_of_log (events : List (Event R)) {cause : Detour}
    (hlog : s'.log = .reroute t.robot cause :: (events ++ (s.ask t).2.log)) :
    s.Rerouted s' t := by
  have hnews := FleetCore.news_eq (hlog.trans (ask_log s t (.reroute t.robot cause :: events)))
  exact ⟨cause, by simp [hnews]⟩

theorem not_rerouted_of_log (events : List (Event R)) (hlog : s'.log = events ++ (s.ask t).2.log)
    (told : ∀ e ∈ events, e = .taskState t.id "EXECUTING" t.robot) : ¬ s.Rerouted s' t := by
  rintro ⟨cause, hmem⟩
  rw [FleetCore.news_eq (hlog.trans (ask_log s t events))] at hmem
  rcases List.mem_append.mp hmem with hmem | hmem
  · cases told _ hmem
  · cases List.mem_singleton.mp hmem

/-- What a refused request looks for, and that its path is replaced just when that is found. -/
theorem request_refused (refused : (s.ask t).1 ≠ .grant) (h : s.request t = some (s', t')) :
    ∃ path, (s.AtStopped t → path = s.detour t t.back) ∧
      (¬ s.AtStopped t → 2 ≤ path.length → path = s.detour t (s.detourGoal t)) ∧
      (s.Rerouted s' t ↔ 2 ≤ path.length) ∧ (2 ≤ path.length → t'.path = path) := by
  -- a detour that is too short is not taken
  have kept {s' : FleetCore R} {t' : ActiveTask R} {path : List Int}
      (hkept : ¬ s.Rerouted s' t) (short : ¬ 2 ≤ path.length) :
      (s.Rerouted s' t ↔ 2 ≤ path.length) ∧ (2 ≤ path.length → t'.path = path) :=
    ⟨iff_of_false hkept short, fun long => absurd long short⟩
  rcases request_cases h with ⟨granted, -⟩ | ⟨deadlock, h⟩ | ⟨wait, h⟩
  · exact absurd granted refused
  · have hno : ¬ s.AtStopped t := by
      rintro ⟨wait, -⟩
      rw [deadlock] at wait
      cases wait
    refine ⟨(s.ask t).2.deadlockDetour t, fun hat => absurd hat hno, ?_, ?_⟩
    · exact fun _ long => (deadlockDetour_eq long).1
    unfold FleetCore.onDeadlock at h
    dsimp only at h
    split at h
    · rename_i long
      obtain ⟨rfl, rfl⟩ := Prod.mk.inj h
      exact ⟨iff_of_true (rerouted_of_log [] rfl) long, fun _ => rfl⟩
    · rename_i short
      obtain ⟨events, announced, told⟩ := announceWait_eq (s.ask t).2 t
      obtain ⟨rfl, rfl⟩ := Prod.mk.inj h
      rw [announced]
      exact kept (not_rerouted_of_log events rfl told) short
  · unfold FleetCore.onWait at h
    split at h
    · rename_i blocked
      have hat : s.AtStopped t := ⟨wait, blocked⟩
      refine ⟨(s.ask t).2.detour t t.back, fun _ => rfl, fun hno => absurd hat hno, ?_⟩
      dsimp only at h
      split at h
      · rename_i long
        obtain ⟨rfl, rfl⟩ := Prod.mk.inj h
        exact ⟨iff_of_true (rerouted_of_log [] rfl) long, fun _ => rfl⟩
      · rename_i short
        obtain ⟨rfl, rfl⟩ := Prod.mk.inj h
        exact kept (not_rerouted_of_log [] rfl (by simp)) short
    · rename_i blocked
      have hno : ¬ s.AtStopped t := fun hat => blocked hat.2
      refine ⟨(s.ask t).2.timedDetour t, fun hat => absurd hat hno, ?_, ?_⟩
      · exact fun _ long => timedDetour_eq long
      obtain ⟨events, announced, told⟩ := announceWait_eq (s.ask t).2 t
      dsimp only at h
      rw [announced] at h
      split at h
      · rename_i long
        obtain ⟨rfl, rfl⟩ := Prod.mk.inj h
        exact ⟨iff_of_true (rerouted_of_log events rfl) long, fun _ => rfl⟩
      · rename_i short
        obtain ⟨rfl, rfl⟩ := Prod.mk.inj h
        exact kept (not_rerouted_of_log events rfl told) short

/-- A refused request of a patrol keeps its direction after a deadlock and after a long wait,
always; and behind a stopped robot exactly if the detour to the end of the path leads to the
successor of the blocked node, or there is neither that detour nor one to the successor. -/
theorem patrol_direction_iff (patrol : t.patrol = true) (refused : (s.ask t).1 ≠ .grant)
    (h : s.request t = some (s', t')) :
    s.KeepsDirection s' t t' ↔ (s.AtStopped t →
      s.HasReturn t ∧ t.back = s.patrolSucc t.next ∨
      ¬ s.HasReturn t ∧ ¬ s.graph.Around t.next t.cur (s.patrolSucc t.next)) := by
  obtain ⟨path, hstopped, hother, hrerouted, hpath⟩ := request_refused refused h
  -- a detour leads from the node of the robot to its goal, and not over the blocked node
  have leads {goal : Int} (hgoal : path = s.detour t goal) (long : 2 ≤ path.length) :
      t'.path.head? = some t.cur ∧ t.next ∉ t'.path.tail ∧ t'.path.getLast? = some goal := by
    have hne : s.graph.dijkstra t.cur goal t.next ≠ [] := by
      intro hnil
      rw [hgoal, FleetCore.detour, hnil] at long
      simp at long
    obtain ⟨htour, -⟩ := Navgraph.dijkstra_tour hne
    rw [hpath long, hgoal]
    exact ⟨htour.head, htour.avoids, htour.last⟩
  by_cases hat : s.AtStopped t
  · have hback := hstopped hat
    have hreturn : 2 ≤ path.length ↔ s.HasReturn t := by
      rw [hback]
      exact Navgraph.detour_iff
    simp only [hat, true_imp_iff]
    constructor
    · intro hkeeps
      by_cases hret : s.HasReturn t
      · have long := hreturn.mpr hret
        obtain ⟨-, -, hlast⟩ := leads hback long
        obtain ⟨-, -, hsucc⟩ := hkeeps.path (hrerouted.mpr long)
        exact .inl ⟨hret, Option.some.inj (hlast.symm.trans hsucc)⟩
      · refine .inr ⟨hret, fun haround => hret ?_⟩
        exact hreturn.mp (hrerouted.mp (hkeeps.stopped hat haround))
    · rintro (⟨hret, heq⟩ | ⟨hret, hnone⟩)
      · have long := hreturn.mpr hret
        exact ⟨fun _ => heq ▸ leads hback long, fun _ _ => hrerouted.mpr long⟩
      · refine ⟨fun hre => ?_, fun _ haround => absurd haround hnone⟩
        exact absurd (hreturn.mp (hrerouted.mp hre)) hret
  · refine iff_of_true ⟨fun hre => ?_, fun hat' => absurd hat' hat⟩ fun hat' => absurd hat' hat
    have long := hrerouted.mp hre
    have hgoal : s.detourGoal t = s.patrolSucc t.next := if_pos patrol
    exact hgoal ▸ leads (hother hat long) long

end Branches

/-- A robot on patrol meets another head-on, and goes around the corridor to the vertex behind. -/
theorem patrol_direction_headOn : ∃ (s : FleetCore ℚ) (kept todo : List (ActiveTask ℚ))
    (t t' : ActiveTask ℚ) (s' : FleetCore ℚ),
    (ticks (Yard.setup true [0, 1, 2, 4, 3])).Reach (fun _ a => a.With Callback.Steady)
      (.asking s kept t todo) ∧
    s.request t = some (s', t') ∧ t'.path = [0, 3, 4, 2] ∧ s.KeepsDirection s' t t' := by
  obtain ⟨s, kept, t, todo, hc, hcheck⟩ := exists_asking (Yard.setup true [0, 1, 2, 4, 3])
    (fun _ a => a.With Callback.Steady)
    (fun s _ t _ => decide (t.patrol = true ∧ (s.ask t).1 = .deadlock ∧
      (s.request t).any (·.2.path = [0, 3, 4, 2])))
    ([.call (Yard.seen "r2" 10 0), .call (Yard.mode "r2" "IDLE"), .call (Yard.send "r2" "0"),
      .call (Yard.seen "r1" 0 0)] ++ Yard.taken .timer 6) (by decide +kernel)
  obtain ⟨patrol, deadlock, hany⟩ := of_decide_eq_true hcheck
  obtain ⟨⟨s', t'⟩, hrequest, hpath⟩ := (Option.any_eq_true _ _).mp hany
  have refused : (s.ask t).1 ≠ .grant := by simp [deadlock]
  have hno : ¬ s.AtStopped t := by
    rintro ⟨wait, -⟩
    rw [deadlock] at wait
    cases wait
  have hkeeps := (patrol_direction_iff patrol refused hrequest).mpr fun hat => absurd hat hno
  exact ⟨s, kept, todo, t, t', s', hc, hrequest, of_decide_eq_true hpath, hkeeps⟩

/-- A stopped robot is ahead at the start of a lap. The branch looks for a way to where the robot
is, and leaves it standing before the way around. -/
theorem patrol_left_standing : ¬ ∀ (p : Setup ℚ) (s s' : FleetCore ℚ)
    (kept todo : List (ActiveTask ℚ)) (t t' : ActiveTask ℚ),
    (ticks p).Reach (fun _ a => a.With Callback.Steady) (.asking s kept t todo) →
    p.patrolRoute.Nodup → t.patrol = true → (s.ask t).1 ≠ .grant →
    s.request t = some (s', t') → s.KeepsDirection s' t t' := by
  intro h
  obtain ⟨s, kept, t, todo, hc, hcheck⟩ := exists_asking (Yard.setup true [0, 1, 2, 4, 3])
    (fun _ a => a.With Callback.Steady)
    (fun s _ t _ => decide (t.patrol = true ∧ s.AtStopped t ∧ (s.request t).isSome = true ∧
      t.path = [0, 1, 2, 4, 3, 0] ∧ t.idx = 1 ∧ s.patrolSucc 1 = 2 ∧
      s.graph.Lane 0 3 ∧ s.graph.Lane 3 4 ∧ s.graph.Lane 4 2))
    ([.call (Yard.seen "r2" 10 0), .call (Yard.mode "r2" "STOP"), .call (Yard.seen "r1" 0 0)] ++
      Yard.taken .timer 4) (by decide +kernel)
  obtain ⟨patrol, hat, hsome, hpath, hidx, hsucc, h₁, h₂, h₃⟩ := of_decide_eq_true hcheck
  obtain ⟨⟨s', t'⟩, hrequest⟩ := Option.isSome_iff_exists.mp hsome
  have refused : (s.ask t).1 ≠ .grant := by simp [hat.1]
  have hends : t.cur = 0 ∧ t.next = 1 ∧ t.back = 0 := by
    simp [ActiveTask.cur, ActiveTask.next, ActiveTask.back, hpath, hidx]
  have hkeeps := h _ s s' kept todo t t' hc (by decide) patrol refused hrequest
  rcases (patrol_direction_iff patrol refused hrequest).mp hkeeps hat with hreturn | ⟨-, hnone⟩
  · exact hreturn.1.1 (hends.1.trans hends.2.2.symm)
  · apply hnone
    rw [hends.1, hends.2.1, hsucc]
    exact ⟨[0, 3, 4, 2], ⟨rfl, rfl, by simp [h₁, h₂, h₃], by decide⟩, by decide⟩

end LibiFleet
