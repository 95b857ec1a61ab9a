import LibiFleet.FleetNode

/-!
# What the operations of the node leave behind

Every operation works on a few members. These are the members that the invariants
speak of, after each operation.
-/

namespace LibiFleet

open Std (ExtTreeMap)

variable {R : Type}

namespace ReservationDeadlock

variable {σ σ' σ'' : ReservationDeadlock} {robot : String}

/-- `robot` gives up some of its nodes, and perhaps its waiting. -/
structure Sheds (robot : String) (σ σ' : ReservationDeadlock) : Prop where
  owner : ∀ v, σ'.owner v = σ.owner v ∨ σ.owner v = some robot ∧ σ'.owner v = none
  waits : ∀ q, σ'.waits q = σ.waits q ∨ q = robot ∧ σ'.waits q = none
  prio : σ'.prio = σ.prio

theorem Sheds.refl (robot : String) (σ : ReservationDeadlock) : Sheds robot σ σ :=
  ⟨fun _ => .inl rfl, fun _ => .inl rfl, rfl⟩

theorem Sheds.trans (h : Sheds robot σ σ') (h' : Sheds robot σ' σ'') : Sheds robot σ σ'' where
  owner v := by
    rcases h'.owner v with hv' | ⟨hv', hn⟩ <;> rcases h.owner v with hv | ⟨hv, hn'⟩
    · exact .inl (hv'.trans hv)
    · exact .inr ⟨hv, hv'.trans hn'⟩
    · exact .inr ⟨hv ▸ hv', hn⟩
    · exact .inr ⟨hv, hn⟩
  waits q := by
    rcases h'.waits q with hq' | hq'
    · rw [hq']
      exact h.waits q
    · exact .inr hq'
  prio := h'.prio.trans h.prio

theorem sheds_release (σ : ReservationDeadlock) (robot : String) (node : Int) :
    Sheds robot σ (σ.release robot node) where
  owner v := by
    rw [release_owner]
    split
    · rename_i h
      exact .inr ⟨h.1 ▸ h.2, rfl⟩
    · exact .inl rfl
  waits q := by
    rw [release_waits]
    split
    · exact .inr ⟨‹_›, rfl⟩
    · exact .inl rfl
  prio := rfl

theorem release_gone (σ : ReservationDeadlock) (robot : String) (node : Int) :
    (σ.release robot node).owner node ≠ some robot := by
  rw [release_owner]
  split
  · simp
  · rename_i h
    exact fun ho => h ⟨rfl, ho⟩

theorem Sheds.alone (h : Sheds robot σ σ') : Alone robot σ.owner σ'.owner := Alone.drop h.owner

theorem Sheds.kept (h : Sheds robot σ σ') {v : Int} {q : String} (hv : σ'.owner v = some q) :
    σ.owner v = some q := by
  rcases h.owner v with ho | ⟨-, hn⟩
  · exact ho ▸ hv
  · rw [hn] at hv
    cases hv

theorem Sheds.named (h : Sheds robot σ σ') (hn : σ.Named) : σ'.Named :=
  fun n o ho => hn n o (h.kept ho)

theorem Sheds.waits_other (h : Sheds robot σ σ') {q : String} (hq : q ≠ robot) :
    σ'.waits q = σ.waits q :=
  (h.waits q).resolve_right fun hr => hq hr.1

theorem Sheds.waits_kept (h : Sheds robot σ σ') {q b : String} (hq : σ'.waits q = some b) :
    σ.waits q = some b := by
  rcases h.waits q with hw | ⟨-, hn⟩
  · exact hw ▸ hq
  · rw [hn] at hq
    cases hq

end ReservationDeadlock

open ReservationDeadlock (Sheds)

/-- The task is at a position of its path that has a next vertex. -/
def ActiveTask.Placed (t : ActiveTask R) : Prop := 1 ≤ t.idx ∧ t.idx < t.path.length

def Event.Report : Event R → Prop
  | .occupancy _ | .routes _ | .goals _ => True
  | _ => False

namespace FleetNode

section Cancel

variable {σ : ReservationDeadlock} {t : ActiveTask R} {robot : String}

theorem cancelRelease_eq (h : t.Placed) :
    cancelRelease σ t = (σ.release t.robot t.cur).release t.robot t.next := by
  have := h.2
  simp [cancelRelease, h.1, h.2, show t.idx - 1 < t.path.length by omega]

theorem cancelRelease_sheds (σ : ReservationDeadlock) (t : ActiveTask R) :
    Sheds t.robot σ (cancelRelease σ t) := by
  unfold cancelRelease
  dsimp only
  split
  · split
    · exact (ReservationDeadlock.sheds_release ..).trans (ReservationDeadlock.sheds_release ..)
    · exact ReservationDeadlock.sheds_release ..
  · split
    · exact ReservationDeadlock.sheds_release ..
    · exact .refl ..

theorem foldl_cancelRelease_sheds (closing : List (ActiveTask R)) :
    ∀ σ, (∀ t ∈ closing, t.robot = robot) → Sheds robot σ (closing.foldl cancelRelease σ) := by
  induction closing with
  | nil => exact fun σ _ => .refl robot σ
  | cons t closing ih =>
    intro σ h
    have ht : Sheds robot σ (cancelRelease σ t) := h t (by simp) ▸ cancelRelease_sheds σ t
    exact ht.trans (ih _ fun u hu => h u (List.mem_cons_of_mem _ hu))

/-- A cancelled task leaves its robot neither of its nodes, and not waiting. -/
theorem foldl_cancelRelease_clears (closing : List (ActiveTask R)) :
    ∀ σ, (∀ t ∈ closing, t.robot = robot) → ∀ t ∈ closing, t.Placed →
      let σ' := closing.foldl cancelRelease σ
      σ'.waits robot = none ∧ σ'.owner t.cur ≠ some robot ∧ σ'.owner t.next ≠ some robot := by
  induction closing with
  | nil => simp
  | cons u closing ih =>
    intro σ h t ht hp
    have hrest : ∀ t ∈ closing, t.robot = robot := fun t ht => h t (List.mem_cons_of_mem _ ht)
    rcases List.mem_cons.mp ht with rfl | ht
    · have hlater := foldl_cancelRelease_sheds closing (cancelRelease σ t) hrest
      have hr : t.robot = robot := h t (by simp)
      subst hr
      have hnow : (cancelRelease σ t).waits t.robot = none ∧
          (cancelRelease σ t).owner t.cur ≠ some t.robot ∧
          (cancelRelease σ t).owner t.next ≠ some t.robot := by
        rw [cancelRelease_eq hp]
        exact ⟨by simp, fun hc => ReservationDeadlock.release_gone _ _ _
          ((ReservationDeadlock.sheds_release ..).kept hc), ReservationDeadlock.release_gone _ _ _⟩
      refine ⟨?_, fun hc => hnow.2.1 (hlater.kept hc), fun hc => hnow.2.2 (hlater.kept hc)⟩
      cases hw : (closing.foldl cancelRelease (cancelRelease σ t)).waits t.robot with
      | none => exact hw
      | some b => exact absurd (hlater.waits_kept hw) (by simp [hnow.1])
    · exact ih _ hrest t ht hp

variable {s : FleetNode R}

theorem mem_closing (robot : String) : ∀ t ∈ s.tasks.filter (·.robot = robot), t.robot = robot :=
  fun t ht => by simpa using (List.mem_filter.mp ht).2

theorem cancelTask_sheds (s : FleetNode R) (robot : String) :
    Sheds robot s.traffic (s.cancelTask robot).traffic :=
  foldl_cancelRelease_sheds _ _ (mem_closing robot)

theorem cancelTask_clears (ht : t ∈ s.tasks) (hp : t.Placed) :
    (s.cancelTask t.robot).traffic.waits t.robot = none ∧
      (s.cancelTask t.robot).traffic.owner t.cur ≠ some t.robot ∧
      (s.cancelTask t.robot).traffic.owner t.next ≠ some t.robot :=
  foldl_cancelRelease_clears _ _ (mem_closing t.robot) t (by simp [ht]) hp

@[simp] theorem mem_cancelTask :
    t ∈ (s.cancelTask robot).tasks ↔ t ∈ s.tasks ∧ t.robot ≠ robot := by
  simp [cancelTask]

@[simp] theorem cancelTask_robotMode : (s.cancelTask robot).robotMode = s.robotMode := rfl

@[simp] theorem cancelTask_graph : (s.cancelTask robot).graph = s.graph := rfl

theorem cancelTask_robots (k : String) : (s.cancelTask robot).robots[k]? =
    if k = robot then s.robots[k]?.map fun r => { r with busy := false, taskId := "" }
    else s.robots[k]? := by
  unfold cancelTask
  dsimp only
  split
  · rename_i r hr
    rw [ExtTreeMap.getElem?_insert]
    by_cases hk : k = robot
    · simp [hk, hr]
    · simp [hk, Ne.symm hk]
  · rename_i hr
    by_cases hk : k = robot
    · simp [hk, hr]
    · simp [hk]

theorem mem_cancelTask_robots {k : String} : k ∈ (s.cancelTask robot).robots ↔ k ∈ s.robots := by
  rw [ExtTreeMap.mem_iff_isSome_getElem?, cancelTask_robots, ExtTreeMap.mem_iff_isSome_getElem?]
  split <;> simp

end Cancel

section ReleaseAll

variable {s : FleetNode R} {robot : String}

theorem foldl_release_sheds (l : List (Int × String)) : ∀ σ, Sheds robot σ
    (l.foldl (fun σ no => if no.2 = robot then σ.release robot no.1 else σ) σ) := by
  induction l with
  | nil => exact fun σ => .refl robot σ
  | cons no l ih =>
    intro σ
    rw [List.foldl_cons]
    split
    · exact (ReservationDeadlock.sheds_release ..).trans (ih _)
    · exact ih σ

theorem foldl_release_clears (l : List (Int × String)) : ∀ σ v, (v, robot) ∈ l →
    (l.foldl (fun σ no => if no.2 = robot then σ.release robot no.1 else σ)
      σ : ReservationDeadlock).owner v ≠ some robot := by
  induction l with
  | nil => simp
  | cons no l ih =>
    intro σ v hv
    rw [List.foldl_cons]
    rcases List.mem_cons.mp hv with rfl | hv
    · intro ho
      rw [if_pos rfl] at ho
      exact ReservationDeadlock.release_gone _ _ _ ((foldl_release_sheds l _).kept ho)
    · exact ih _ v hv

theorem releaseAll_sheds (s : FleetNode R) (robot : String) :
    Sheds robot s.traffic (s.releaseAll robot).traffic := foldl_release_sheds _ _

theorem releaseAll_owner (v : Int) : (s.releaseAll robot).traffic.owner v ≠ some robot := by
  intro h
  have hv : (v, robot) ∈ s.traffic.occupancy :=
    ExtTreeMap.mem_toList_iff_getElem?_eq_some.mpr ((releaseAll_sheds s robot).kept h)
  exact foldl_release_clears _ _ v hv h

end ReleaseAll

section Claim

variable [Double R] {s : FleetNode R} {key label robot : String} {t : ActiveTask R}

/-- What a robot is before an entry is made for it. -/
theorem robot_touch (s : FleetCore R) (name k : String) : (s.touch name).robot k = s.robot k := by
  simp only [FleetCore.robot, FleetCore.touch, ExtTreeMap.getD_insertIfNew]
  split
  · rename_i h
    obtain ⟨heq, hnew⟩ := h
    rw [ExtTreeMap.getD_eq_fallback]
    rwa [← compare_eq_iff_eq.mp heq]
  · rfl

@[simp] theorem enlist_tasks : (s.enlist key t label).tasks = s.tasks ++ [t] := rfl

theorem mem_enlist {u : ActiveTask R} :
    u ∈ (s.enlist key t label).tasks ↔ u ∈ s.tasks ∨ u = t := by
  rw [enlist_tasks, List.mem_append, List.mem_singleton]

@[simp] theorem enlist_robots : (s.enlist key t label).robots =
    s.robots.insert key { s.robot key with busy := true, taskId := t.id } := rfl

@[simp] theorem enlist_robotMode : (s.enlist key t label).robotMode = s.robotMode := rfl

/-- A new task claims the vertex it starts from, with whatever priority. -/
theorem enlist_traffic (s : FleetNode R) (key label : String) (t : ActiveTask R) : ∃ p,
    (s.enlist key t label).traffic = (s.traffic.requestMove t.robot t.cur t.cur p).2 ∧
    (s.enlist key t label).log = .taskState t.id label t.robot :: .moveRequest t.robot t.cur t.cur p
      (s.traffic.requestMove t.robot t.cur t.cur p).1 :: s.log :=
  ⟨_, rfl, rfl⟩

theorem onRobotState_robots (s : FleetNode R) (msg : RobotState R) (k : String) :
    (s.onRobotState msg).robots[k]? =
      if msg.name = k then some { s.robot msg.name with name := msg.name, x := msg.x, y := msg.y }
      else s.robots[k]? := by
  unfold onRobotState
  simp only [ExtTreeMap.getElem?_insert, compare_eq_iff_eq]

/-- A robot that is seen for the first time comes from IDLE to PATROL, or stays IDLE. -/
theorem onRobotState_modeOf (s : FleetNode R) (msg : RobotState R) (q : String) :
    (s.onRobotState msg).modeOf q = s.modeOf q ∨
      q = msg.name ∧ s.modeOf q = .idle ∧ (s.onRobotState msg).modeOf q = .patrol := by
  unfold onRobotState FleetCore.modeOf
  dsimp only
  split
  · exact .inl rfl
  · rename_i hnew
    rw [ExtTreeMap.getD_insert]
    by_cases hq : msg.name = q
    · subst hq
      have hidle : s.robotMode.getD msg.name .idle = .idle := ExtTreeMap.getD_eq_fallback hnew
      cases s.patrol <;> simp [hidle]
    · simp [hq]

end Claim

section Laps

variable [Double R] {s : FleetCore R} {r : RobotInfo R} {avoid : Int} {path : List Int}

theorem length_lapFrom (route : List Int) (k : Nat) :
    (FleetCore.lapFrom route k).length = route.length + 1 := by
  simp [FleetCore.lapFrom]

theorem makePatrolPath_eq (h : s.makePatrolPath r avoid = some path) :
    ∃ k, path = FleetCore.lapFrom s.patrolRoute k := by
  obtain ⟨k, -, h⟩ := Option.bind_eq_some_iff.mp h
  exact ⟨_, (Option.some.inj h).symm⟩

theorem makePatrolPath_length (h : s.makePatrolPath r avoid = some path) :
    path.length = s.patrolRoute.length + 1 := by
  obtain ⟨k, rfl⟩ := makePatrolPath_eq h
  exact length_lapFrom _ _

end Laps

section Report

variable {s s' : FleetNode R}

theorem publish_eq (h : s.publish = some s') :
    ∃ events, s' = { s with log := events ++ s.log } ∧ ∀ e ∈ events, e.Report := by
  obtain ⟨routes, -, h⟩ := Option.bind_eq_some_iff.mp h
  refine ⟨[_, _, _], (Option.some.inj h).symm, ?_⟩
  intro e he
  simp only [List.mem_cons, List.not_mem_nil, or_false] at he
  rcases he with rfl | rfl | rfl <;> trivial

/-- A swap of plugins replaces plugins only, and the dispatcher by the one that is loaded. -/
theorem onSetPlugins_eq (s : FleetNode R) (req : SetPluginsRequest)
    (disp : Except String (Dispatcher R)) (traf : Except String ReservationDeadlock) :
    ∃ dispatcher traffic activeDisp activeTraf,
      (dispatcher = s.dispatcher ∨ disp = .ok dispatcher) ∧
      (s.onSetPlugins req disp traf).1 =
        { s with dispatcher, traffic, activeDisp, activeTraf } := by
  unfold onSetPlugins
  dsimp only
  split
  · split
    · exact ⟨_, _, _, _, .inl rfl, rfl⟩
    · split <;> exact ⟨_, _, _, _, .inl rfl, rfl⟩
  · split
    · exact ⟨_, _, _, _, .inl rfl, rfl⟩
    · split
      · exact ⟨_, _, _, _, .inr rfl, rfl⟩
      · split <;> exact ⟨_, _, _, _, .inr rfl, rfl⟩

end Report

end FleetNode

end LibiFleet
