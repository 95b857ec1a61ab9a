import LibiFleet.Driving

/-!
# Swapping the plugins

`on_set_plugins` puts a new object in the place of the traffic plugin, and the
reservations of the old one are gone. The tasks go on with what they had. While no
task is moving nothing is lost by that: a task that stands still asks again.
-/

namespace LibiFleet

open Std (ExtTreeMap)

variable {R : Type}

namespace Callback

/-- The loader returns a new object: a traffic plugin that holds nothing, and a dispatcher that
keeps to what the plugin header says of it. The navgraph is not replaced. -/
def Fresh : Callback R → Prop
  | setPlugins _ disp traf => (∀ d, disp = .ok d → d.Picks) ∧ ∀ σ, traf = .ok σ → σ = {}
  | reload _ => False
  | _ => True

/-- The call replaces the traffic plugin. -/
def Swaps : Callback R → Prop
  | setPlugins req disp traf =>
    (req.dispatcher = "" ∨ disp.isOk) ∧ req.traffic ≠ "" ∧ traf.isOk
  | _ => False

instance : DecidablePred (Swaps (R := R))
  | setPlugins req disp traf => inferInstanceAs (Decidable
      ((req.dispatcher = "" ∨ disp.isOk) ∧ req.traffic ≠ "" ∧ traf.isOk))
  | robotState _ | submit _ | timer | reload _ | setMode _ | setBattery _ =>
    inferInstanceAs (Decidable False)

/-- But for a call of `on_set_plugins` these are the callbacks of the ordinary runs. -/
theorem Fresh.steady {cb : Callback R} (h : cb.Fresh)
    (other : ∀ req disp traf, cb ≠ setPlugins req disp traf) : cb.Steady := by
  cases cb with
  | setPlugins req disp traf => exact absurd rfl (other req disp traf)
  | reload => cases h
  | _ => trivial

end Callback

/-- A call that replaces the traffic plugin comes while no task is moving. -/
def Calm (c : Conf R) (a : Action R) : Prop :=
  ∀ t ∈ c.node.tasks, t.moving = true → a.With fun cb => ¬ cb.Swaps

instance (c : Conf R) (a : Action R) : Decidable (Calm c a) :=
  inferInstanceAs (Decidable (∀ t ∈ c.node.tasks, _))

/-- No two tasks are moving to the same vertex. -/
def Apart (s : FleetNode R) : Prop :=
  s.tasks.Pairwise fun t u => t.moving = true → u.moving = true → t.next ≠ u.next

instance (s : FleetNode R) : Decidable (Apart s) :=
  inferInstanceAs (Decidable (List.Pairwise _ _))

/-- The traffic plugin stays, or it is replaced by what the loader returns. -/
theorem onSetPlugins_traffic (s : FleetNode R) (req : SetPluginsRequest)
    (disp : Except String (Dispatcher R)) (traf : Except String ReservationDeadlock) :
    (s.onSetPlugins req disp traf).1.traffic = s.traffic ∨
      (Callback.setPlugins req disp traf).Swaps ∧
        traf = .ok (s.onSetPlugins req disp traf).1.traffic := by
  unfold FleetNode.onSetPlugins Callback.Swaps
  dsimp only
  by_cases hd : req.dispatcher = ""
  · by_cases ht : req.traffic = ""
    · simp [hd, ht]
    · cases traf with
      | error => simp [hd, ht]
      | ok σ => simp [hd, ht, Except.isOk, Except.toBool]
  · cases disp with
    | error => simp [hd]
    | ok d =>
      by_cases ht : req.traffic = ""
      · simp [hd, ht]
      · cases traf with
        | error => simp [hd, ht]
        | ok σ => simp [hd, ht, Except.isOk, Except.toBool]

variable [Double R]

section Swap

variable {s : FleetNode R} {req : SetPluginsRequest} {disp : Except String (Dispatcher R)}
  {traf : Except String ReservationDeadlock}

omit [Double R] in
theorem manned_swap (fresh : (Callback.setPlugins req disp traf).Fresh) (hm : Manned s) :
    Manned (s.onSetPlugins req disp traf).1 := by
  have htraffic := onSetPlugins_traffic s req disp traf
  obtain ⟨dispatcher, traffic, activeDisp, activeTraf, loaded, he⟩ :=
    s.onSetPlugins_eq req disp traf
  rw [he] at htraffic ⊢
  constructor
  case ledger =>
    constructor
    · exact hm.ledger.once
    · exact hm.ledger.known
    · exact hm.ledger.entries
    · rcases loaded with rfl | loaded
      · exact hm.ledger.picks
      · exact fresh.1 dispatcher loaded
  case nameless => exact hm.nameless
  case unstopped => exact hm.unstopped
  case named =>
    rcases htraffic with hsame | ⟨-, hnew⟩
    · rw [hsame]
      exact hm.named
    · rw [fresh.2 _ hnew]
      intro n o ho
      simp [ReservationDeadlock.owner] at ho

omit [Double R] in
/-- A task that is moving at a swap keeps its target only if the plugin stays. -/
theorem owned_swap (calm : Calm (.idle s) (.call (.setPlugins req disp traf))) (hs : Owned s) :
    Owned (s.onSetPlugins req disp traf).1 := by
  have htraffic := onSetPlugins_traffic s req disp traf
  obtain ⟨dispatcher, traffic, activeDisp, activeTraf, -, he⟩ := s.onSetPlugins_eq req disp traf
  rw [he] at htraffic ⊢
  intro t ht moving
  rcases htraffic with hsame | ⟨hswaps, -⟩
  · rw [hsame]
    exact hs t ht moving
  · exact absurd hswaps (calm t ht moving)

end Swap

/-- The robots have names, the plugins are new objects, and no task is moving when the traffic
plugin is replaced. -/
def SwapsCalm (c : Conf R) (a : Action R) : Prop :=
  a.With (fun cb => cb.Named ∧ cb.Fresh) ∧ Calm c a

theorem owned_step {c c' : Conf R} {a : Action R} (ok : SwapsCalm c a) (hc : c.Sound)
    (h : c.step a = some c') (hs : Manned c.node ∧ Owned c.node) :
    Manned c'.node ∧ Owned c'.node := by
  by_cases hswap : ∃ req disp traf, a = .call (.setPlugins req disp traf)
  · obtain ⟨req, disp, traf, rfl⟩ := hswap
    cases c with
    | idle s =>
      obtain rfl := Option.some.inj h
      exact ⟨manned_swap ok.1.2 hs.1, owned_swap ok.2 hs.2⟩
    | patrols | looping | asking => cases h
  · have named : a.With Callback.Named := ok.1.mono fun _ hcb => hcb.1
    have steady : a.With Callback.Steady := by
      cases a with
      | go => trivial
      | call cb =>
        apply ok.1.2.steady
        rintro req disp traf rfl
        exact hswap ⟨req, disp, traf, rfl⟩
    refine (step_effects hc h).keeps (P := fun s => Manned s ∧ Owned s) ?_ hs
    intro robot s s' he hs'
    have hm' := he.manned hs'.1 hs.1.ledger named steady
    exact ⟨hm', he.owned hs'.1 hm' steady hs'.2⟩

theorem reach_swapsCalm {p : Setup R} {c : Conf R} (hc : (ticks p).Reach SwapsCalm c) :
    Manned c.node ∧ Owned c.node := by
  refine (hc.assuming fun _ => reach_sound).invariant
    (P := fun c => Manned c.node ∧ Owned c.node) ?_ ?_
  · constructor
    · exact (wellformed_start p).manned
    · intro t ht
      cases ht
  · exact fun c a c' ok hstep hs => owned_step ok.1 ok.2 hstep hs

/-- In runs that replace the traffic plugin only while no task is moving, no two moving tasks have
the same target. -/
theorem swap_calm_apart {p : Setup R} {c : Conf R} (hc : (ticks p).Reach SwapsCalm c) :
    Apart c.node := by
  obtain ⟨hm, hown⟩ := reach_swapsCalm hc
  exact hown.apart hm.ledger

namespace Yard

def swap : Callback ℚ := .setPlugins ⟨"", "libi_fleet::ReservationDeadlock"⟩ (.error "") (.ok {})

end Yard

/-- A swap between a submission and the departure: both robots move after it. -/
theorem swap_calm_apart_two : ∃ c : Conf ℚ, (ticks (Yard.setup false [])).Reach SwapsCalm c ∧
    (c.node.tasks.map fun t => (t.robot, t.moving, t.next)) = [("r1", true, 1), ("r2", true, 4)] ∧
    Apart c.node := by
  let calls : List (Action ℚ) := [.call (Yard.seen "r1" 0 0), .call (Yard.seen "r2" 20 0),
    .call (Yard.send "r1" "1"), .call Yard.swap, .call (Yard.send "r2" "3")]
  have fresh : ∀ a ∈ calls ++ Yard.taken .timer 6, a.With fun cb => cb.Named ∧ cb.Fresh := by
    simp [calls, Yard.taken, Action.With, Yard.seen, Yard.send, Yard.swap, Callback.Named,
      Callback.Fresh]
  obtain ⟨c, hc, hp⟩ := (ticks (Yard.setup false [])).exists_reach_of SwapsCalm Calm
    (fun c => decide ((c.node.tasks.map fun t => (t.robot, t.moving, t.next)) =
      [("r1", true, 1), ("r2", true, 4)]))
    (calls ++ Yard.taken .timer 6) (fun a ha c calm => ⟨fresh a ha, calm⟩) (by decide +kernel)
  exact ⟨c, hc, of_decide_eq_true hp, swap_calm_apart hc⟩

/-- The first robot drives to 1 when the plugin is replaced. The second is then sent to 1 from the
other side, and the new plugin knows nothing of the first. -/
theorem swap_collision : ¬ ∀ (p : Setup ℚ) (s : FleetNode ℚ),
    (fleet p).Reach (fun _ cb => cb.Named ∧ cb.Fresh) s → Apart s := by
  intro h
  let calls : List (Callback ℚ) := [Yard.seen "r1" 0 0, Yard.seen "r2" 20 0, Yard.send "r1" "1",
    .timer, Yard.swap, Yard.send "r2" "1", .timer]
  have fresh : ∀ cb ∈ calls, cb.Named ∧ cb.Fresh := by
    simp [calls, Yard.seen, Yard.send, Yard.swap, Callback.Named, Callback.Fresh]
  obtain ⟨s, hs, hp⟩ := (fleet (Yard.setup false [])).exists_reach_of
    (fun _ cb => cb.Named ∧ cb.Fresh) (fun _ _ => True) (fun s => decide (¬ Apart s)) calls
    (fun cb hcb _ _ => fresh cb hcb) (by decide +kernel)
  exact of_decide_eq_true hp (h _ s hs)

end LibiFleet
