import LibiFleet.FleetTask

/-!
# The dispatch plugin

`auction.cpp`: the idle robots bid the length of their way to the goal, robots
that could not finish on their battery do not bid, and the lowest bid wins.
-/

namespace LibiFleet

variable {R : Type}

/-- `DispatcherBase::assign`: the chosen robot's name, `""` for none. An exception is `none`. -/
abbrev Dispatcher (R : Type) :=
  Int → Int → List (RobotInfo R) → Navgraph R → EnergyParams R → Option String

namespace Auction

variable [Double R]

/-- The loop over the robots, with the best bid so far; `none` is the initial `max()`. -/
def bids (goal armActions : Int) (g : Navgraph R) (e : EnergyParams R) (winner : String)
    (best : Option R) : List (RobotInfo R) → Option String
  | [] => some winner
  | r :: robots =>
    if r.busy then bids goal armActions g e winner best robots
    else
      let start := g.nearest r.x r.y
      let path := g.dijkstra start goal (-1)
      if start ≠ goal ∧ path.length < 2 then bids goal armActions g e winner best robots
      else do
        let dist ← g.pathCost path
        let need := dist * e.drainPerM + armActions * e.drainPerAct + e.reserve
        if r.battery < need then bids goal armActions g e winner best robots
        else if below dist best then bids goal armActions g e r.name (some dist) robots
        else bids goal armActions g e winner best robots

def assign : Dispatcher R := fun goal armActions robots g e =>
  bids goal armActions g e "" none robots

theorem bids_mem (goal armActions : Int) (g : Navgraph R) (e : EnergyParams R)
    (robots : List (RobotInfo R)) : ∀ winner best w,
    bids goal armActions g e winner best robots = some w →
      w = winner ∨ ∃ r ∈ robots, r.name = w ∧ r.busy = false := by
  induction robots with
  | nil =>
    intro winner best w h
    exact .inl (Option.some.inj h).symm
  | cons r robots ih =>
    intro winner best w h
    have later : ∀ winner' best', bids goal armActions g e winner' best' robots = some w →
        w = winner' ∨ ∃ r' ∈ r :: robots, r'.name = w ∧ r'.busy = false := fun winner' best' h =>
      (ih winner' best' w h).imp_right fun ⟨r', hr', hw⟩ => ⟨r', List.mem_cons_of_mem _ hr', hw⟩
    unfold bids at h
    split at h
    · exact later _ _ h
    rename_i hbusy
    dsimp only at h
    split at h
    · exact later _ _ h
    obtain ⟨dist, -, h⟩ := Option.bind_eq_some_iff.mp h
    split at h
    · exact later _ _ h
    split at h
    · rcases later _ _ h with rfl | hw
      · exact .inr ⟨r, List.mem_cons_self, rfl, by simpa using hbusy⟩
      · exact .inr hw
    · exact later _ _ h

/-- The winner is one of the robots that were offered, and not a busy one. -/
theorem assign_mem {goal armActions : Int} {robots : List (RobotInfo R)} {g : Navgraph R}
    {e : EnergyParams R} {w : String} (h : assign goal armActions robots g e = some w)
    (hw : w ≠ "") : ∃ r ∈ robots, r.name = w ∧ r.busy = false :=
  (bids_mem goal armActions g e robots "" none w h).resolve_left hw

theorem bids_isSome (goal armActions : Int) (g : Navgraph R) (e : EnergyParams R)
    (robots : List (RobotInfo R)) : ∀ winner best,
    (bids goal armActions g e winner best robots).isSome := by
  induction robots with
  | nil => exact fun _ _ => rfl
  | cons r robots ih =>
    intro winner best
    unfold bids
    split
    · exact ih _ _
    dsimp only
    split
    · exact ih _ _
    obtain ⟨dist, hd⟩ := Option.isSome_iff_exists.mp
      (g.pathCostFrom_isSome (g.dijkstra (g.nearest r.x r.y) goal (-1)) 0 (g.dijkstra_range _ _ _))
    rw [Navgraph.pathCost, hd]
    simp only [Option.bind_eq_bind, Option.bind_some]
    split
    · exact ih _ _
    · split
      · exact ih _ _
      · exact ih _ _

theorem assign_isSome (goal armActions : Int) (robots : List (RobotInfo R)) (g : Navgraph R)
    (e : EnergyParams R) : (assign goal armActions robots g e).isSome :=
  bids_isSome goal armActions g e robots "" none

end Auction

end LibiFleet
