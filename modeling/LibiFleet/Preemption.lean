import LibiFleet.Dispatch

/-!
# What an automatic dispatch takes away

An accepted submission cancels whatever its robot is doing, and to the auction a robot
on patrol looks idle. What it cancels is then a patrol of the winner at most: the
auction passes over every robot with a task of another kind, and no robot has two.
-/

namespace LibiFleet

open Std (ExtTreeMap)

variable {R : Type}

/-- A claim of the vertex where a robot stands takes it from nobody, whatever the names are. -/
theorem ReservationDeadlock.claim_alone (σ : ReservationDeadlock) (robot : String) (v p : Int) :
    Alone robot σ.owner (σ.requestMove robot v v p).2.owner := by
  unfold requestMove
  rw [if_pos rfl]
  have claimed (free : ∀ o, σ.owner v = some o → o = robot) :
      Alone robot σ.owner fun n => (σ.nodeOwner.insert v robot)[n]? := by
    refine Alone.claim free fun n => ?_
    rw [ExtTreeMap.getElem?_insert]
    by_cases hn : v = n
    · exact .inr ⟨hn.symm, by simp [hn]⟩
    · exact .inl (by simp [hn, owner])
  cases howner : σ.nodeOwner[v]? with
  | none => exact claimed fun o ho => by simp [owner, howner] at ho
  | some o =>
    dsimp only
    split
    · rename_i hself
      refine claimed fun q hq => ?_
      rw [owner, howner] at hq
      exact (Option.some.inj hq) ▸ hself
    · exact Alone.refl robot σ.owner

variable [Double R]

namespace FleetNode

variable {s s' : FleetNode R} {req : SubmitRequest} {res : SubmitResponse} {robot : String}
  {path : List Int} {arm : Int}

/-- What an accepted submission leaves of the tasks, and of the reservations of other robots. -/
theorem accept_spares (h : s.accept req robot path arm = (s', res)) :
    (∀ t ∈ s.tasks, t.robot ≠ robot → t ∈ s'.tasks) ∧
      Alone robot s.traffic.owner s'.traffic.owner := by
  unfold accept at h
  dsimp only at h
  have spared : ∀ t ∈ s.tasks, t.robot ≠ robot →
      t ∈ (if (s.robot robot).busy then s.cancelTask robot else s).tasks := by
    intro t ht hr
    split
    · exact mem_cancelTask.mpr ⟨ht, hr⟩
    · exact ht
  have shed : Alone robot s.traffic.owner
      (if (s.robot robot).busy then s.cancelTask robot else s).traffic.owner := by
    split
    · exact (s.cancelTask_sheds robot).alone
    · exact Alone.refl robot s.traffic.owner
  generalize (if (s.robot robot).busy then s.cancelTask robot else s) = m at h spared shed
  obtain ⟨rfl, rfl⟩ := Prod.mk.inj h
  constructor
  · intro t ht hr
    exact mem_enlist.mpr (.inl (spared t ht hr))
  · intro q hq v
    exact (ReservationDeadlock.claim_alone _ _ _ _ q hq v).trans (shed q hq v)

/-- The auction is never won by a robot with a task other than a patrol. -/
theorem winner_tasks (hl : Ledger s) (auction : s.dispatcher = Auction.assign) {goal : Int}
    (h : s.selectRobot goal arm "" = some (.ok robot)) :
    ∀ t ∈ s.tasks, t.robot = robot → t.patrol = true := by
  unfold selectRobot at h
  rw [if_neg (by simp), auction] at h
  obtain ⟨w, hw, h⟩ := Option.bind_eq_some_iff.mp h
  split at h
  · cases h
  rename_i hne
  cases h
  obtain ⟨r, hr, hname, hidle⟩ := Auction.assign_mem hw hne
  obtain ⟨k, r₀, hk, -, -, rfl⟩ := mem_snapshot.mp hr
  have hkey : k = robot := by
    rw [← hname, ← (hl.entries k r₀ hk).1]
    split
    · rfl
    · rfl
  subst hkey
  apply (offered_idle hl hk).mp
  split at hidle
  · rename_i hpatrol
    exact .inl hpatrol
  · exact .inr hidle

end FleetNode

/-- An accepted submission that names no robot removes one task at most, a patrol of the robot it
is given to. Every other task stays as it is, with its reservations. -/
theorem dispatch_spares {p : Setup R} {s s' : FleetNode R} {req : SubmitRequest}
    {res : SubmitResponse} (hs : (fleet p).Reach (fun _ cb => cb.Offers) s)
    (auction : s.dispatcher = Auction.assign) (unnamed : req.robot = "")
    (h : s.onSubmit req = some (s', res)) (accepted : res.accepted = true) :
    ∃ winner, (∃ t, s'.tasks.getLast? = some t ∧ t.robot = winner ∧ t.id = res.taskId) ∧
      (∀ t ∈ s.tasks, t ∉ s'.tasks → t.robot = winner ∧ t.patrol = true) ∧
      (∀ t ∈ s.tasks, ∀ u ∈ s.tasks, t ∉ s'.tasks → u ∉ s'.tasks → t = u) ∧
      ∀ t ∈ s.tasks, t.patrol = false → t ∈ s'.tasks ∧
        ∀ v, s'.traffic.owner v = some t.robot ↔ s.traffic.owner v = some t.robot := by
  have hl : Ledger s := reach_ledger (c := .idle s) (fun _ _ h => h) (reach_ticks hs)
  have hgoal : s.graph.InRange (FleetNode.goalOf req) := by
    by_contra hout
    have hbad : FleetNode.goalOf req < 0 ∨ s.graph.size ≤ FleetNode.goalOf req := by
      unfold Navgraph.InRange at hout
      omega
    unfold FleetNode.onSubmit at h
    dsimp only at h
    rw [if_pos hbad] at h
    cases h
    cases accepted
  obtain ⟨winner, path, hselect, -, haccept⟩ := (FleetNode.onSubmit_accepts hl hgoal).mp
    ⟨h, accepted⟩
  rw [unnamed] at hselect
  obtain ⟨new, hnew, -, hid, hrobot⟩ := FleetNode.accept_task haccept
  obtain ⟨hkept, halone⟩ := FleetNode.accept_spares haccept
  have hpatrols := FleetNode.winner_tasks hl auction hselect
  have hremoved : ∀ t ∈ s.tasks, t ∉ s'.tasks → t.robot = winner := by
    intro t ht hgone
    by_contra hr
    exact hgone (hkept t ht hr)
  refine ⟨winner, ⟨new, hnew, hrobot, hid⟩, ?_, ?_, ?_⟩
  · intro t ht hgone
    have hr := hremoved t ht hgone
    exact ⟨hr, hpatrols t ht hr⟩
  · intro t ht u hu htgone hugone
    exact hl.eq_of_robot ht hu ((hremoved t ht htgone).trans (hremoved u hu hugone).symm)
  · intro t ht dispatched
    have hr : t.robot ≠ winner := by
      intro hr
      have hpatrol := hpatrols t ht hr
      rw [dispatched] at hpatrol
      cases hpatrol
    exact ⟨hkept t ht hr, halone t.robot hr⟩

/-- One robot is on a delivery and one on patrol: the patrol ends. -/
theorem dispatch_spares_delivery : ∃ s s' : FleetNode ℚ,
    (fleet (Yard.setup true [0, 1, 2, 4, 3])).Reach (fun _ cb => cb.Offers) s ∧
    (s.tasks.map fun t => (t.robot, t.patrol)) = [("r1", true), ("r2", false)] ∧
    (s'.tasks.map fun t => (t.robot, t.patrol)) = [("r2", false), ("r1", false)] ∧
    ∀ t ∈ s.tasks, t.patrol = false → t ∈ s'.tasks := by
  obtain ⟨s, hs, hcheck⟩ := (fleet (Yard.setup true [0, 1, 2, 4, 3])).exists_reach
    (fun _ cb => cb.Plain)
    (fun s => decide ((s.tasks.map fun t => (t.robot, t.patrol)) = [("r1", true), ("r2", false)] ∧
      (s.onSubmit ⟨"2", "", "", 0, 0⟩).any (fun out => out.2.accepted ∧
        (out.1.tasks.map fun t => (t.robot, t.patrol)) = [("r2", false), ("r1", false)]) = true))
    [Yard.seen "r1" 0 0, Yard.seen "r2" 20 0, .timer, Yard.send "r2" "3"] (by decide +kernel)
  obtain ⟨htasks, hany⟩ := of_decide_eq_true hcheck
  obtain ⟨⟨s', res⟩, hsubmit, hout⟩ := (Option.any_eq_true _ _).mp hany
  obtain ⟨haccepted, htasks'⟩ := of_decide_eq_true hout
  have hreach : (fleet (Yard.setup true [0, 1, 2, 4, 3])).Reach (fun _ cb => cb.Offers) s :=
    hs.mono fun _ _ h => h.2.offers
  obtain ⟨winner, -, -, -, hspared⟩ :=
    dispatch_spares hreach (reach_auction (hs.mono fun _ _ h => h.2)) rfl hsubmit haccepted
  exact ⟨s, s', hreach, htasks, htasks', fun t ht dispatched => (hspared t ht dispatched).1⟩

end LibiFleet
