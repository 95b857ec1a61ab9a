import LibiFleet.Assignment

/-!
# Requests that are refused

What a request leaves behind that is answered in the negative: a submission that is not
accepted, a swap of plugins that fails, and a navgraph file that cannot be loaded.
-/

namespace LibiFleet

open FleetNode (goalOf armActionsOf)

variable {R : Type}

/-- The plugins of `s` are in use after the call, under their names. -/
structure FleetNode.SamePlugins (s s' : FleetNode R) : Prop where
  dispatcher : s'.dispatcher = s.dispatcher
  traffic : s'.traffic = s.traffic
  activeDisp : s'.activeDisp = s.activeDisp
  activeTraf : s'.activeTraf = s.activeTraf

theorem FleetNode.SamePlugins.refl (s : FleetNode R) : s.SamePlugins s := ⟨rfl, rfl, rfl, rfl⟩

/-- The first load of the call gives the dispatcher, and the second load throws. -/
structure HalfLoaded (req : SetPluginsRequest) (disp : Except String (Dispatcher R))
    (traf : Except String ReservationDeadlock) (dispatcher : Dispatcher R) : Prop where
  named : req.dispatcher ≠ "" ∧ req.traffic ≠ ""
  loaded : disp = .ok dispatcher
  thrown : ∃ what, traf = .error what

section Swap

variable {s : FleetNode R} {req : SetPluginsRequest} {disp : Except String (Dispatcher R)}
  {traf : Except String ReservationDeadlock}

/-- A call that fails at the second load has put the new dispatcher in place. -/
theorem HalfLoaded.onSetPlugins {dispatcher : Dispatcher R}
    (h : HalfLoaded req disp traf dispatcher) : (s.onSetPlugins req disp traf).2.ok = false ∧
      (s.onSetPlugins req disp traf).1 = { s with dispatcher, activeDisp := req.dispatcher } := by
  obtain ⟨what, hwhat⟩ := h.thrown
  simp [FleetNode.onSetPlugins, h.named.1, h.named.2, h.loaded, hwhat]

/-- A call that fails otherwise has put nothing in place. -/
theorem onSetPlugins_failed (h : (s.onSetPlugins req disp traf).2.ok = false)
    (whole : ∀ dispatcher, ¬ HalfLoaded req disp traf dispatcher) :
    (s.onSetPlugins req disp traf).1 = s := by
  by_cases hd : req.dispatcher = ""
  · by_cases ht : req.traffic = ""
    · simp [FleetNode.onSetPlugins, hd, ht] at h
    · cases traf with
      | error what => simp [FleetNode.onSetPlugins, hd, ht]
      | ok traffic => simp [FleetNode.onSetPlugins, hd, ht] at h
  · cases disp with
    | error what => simp [FleetNode.onSetPlugins, hd]
    | ok dispatcher =>
      by_cases ht : req.traffic = ""
      · simp [FleetNode.onSetPlugins, hd, ht] at h
      · cases traf with
        | error what => exact absurd ⟨⟨hd, ht⟩, rfl, what, rfl⟩ (whole dispatcher)
        | ok traffic => simp [FleetNode.onSetPlugins, hd, ht] at h

/-- A call that is answered with `ok = false` leaves the plugins and their names as they were,
unless it fails half way with a dispatcher or a name that is new. -/
theorem failed_swap_iff (s : FleetNode R) (req : SetPluginsRequest)
    (disp : Except String (Dispatcher R)) (traf : Except String ReservationDeadlock) :
    ((s.onSetPlugins req disp traf).2.ok = false →
      s.SamePlugins (s.onSetPlugins req disp traf).1) ↔
    ∀ dispatcher, HalfLoaded req disp traf dispatcher →
      dispatcher = s.dispatcher ∧ req.dispatcher = s.activeDisp := by
  constructor
  · intro h dispatcher half
    obtain ⟨hfailed, hafter⟩ := half.onSetPlugins (s := s)
    have same := h hfailed
    rw [hafter] at same
    exact ⟨same.dispatcher, same.activeDisp⟩
  · intro h hfailed
    by_cases half : ∃ dispatcher, HalfLoaded req disp traf dispatcher
    · obtain ⟨dispatcher, half⟩ := half
      obtain ⟨rfl, hname⟩ := h dispatcher half
      rw [half.onSetPlugins.2]
      exact ⟨rfl, rfl, hname, rfl⟩
    · rw [onSetPlugins_failed hfailed fun dispatcher hd => half ⟨dispatcher, hd⟩]
      exact .refl s

end Swap

/-- The dispatcher of the request is found and its traffic plugin is not: the new dispatcher is in
use after a call that has failed. -/
theorem failed_swap_half : ¬ ∀ (p : Setup ℚ) (s : FleetNode ℚ),
    (fleet p).Reach (fun _ _ => True) s →
    ∀ req disp traf, (s.onSetPlugins req disp traf).2.ok = false →
      s.SamePlugins (s.onSetPlugins req disp traf).1 := by
  intro h
  have same := h (Yard.setup false []) _ .start ⟨"libi_fleet::Greedy", "libi_fleet::None"⟩
    (.ok fun _ _ _ _ _ => some "") (.error "no such class") rfl
  have hname : "libi_fleet::Greedy" = "libi_fleet::Auction" := same.activeDisp
  simp at hname

/-- yaml-cpp reads the file, the document, its `levels` and the level are no scalars, and every
entry of the level is converted, if there is one. -/
def NavFile.Converts : NavFile R → Prop
  | .unreadable | .scalar => False
  | .noLevel => True
  | .level vertices lanes => (∀ v ∈ vertices, v.isSome) ∧ ∀ l ∈ lanes, l.isSome

/-- The reload has taken place: the graph is that of the file, with a row for each vertex and
nothing but vertices in the rows, and the other members are as they were. -/
structure Reloaded (file : NavFile R) (s s' : FleetNode R) : Prop where
  graph : Navgraph.load file = some (some s'.graph)
  rows : s'.graph.adj.length = s'.graph.vertices.length
  range : ∀ row ∈ s'.graph.adj, ∀ v ∈ row, s'.graph.InRange v
  others : s' = { s with graph := s'.graph }

/-- `on_reload` returns, with the graph replaced or with the answer that it has not been. -/
def Answers (file : NavFile R) (s : FleetNode R) : Prop :=
  ∃ s' res, s.onReload file = some (s', res) ∧
    (res.success = true ∧ Reloaded file s s' ∨ res.success = false ∧ s' = s)

/-- The loader throws exactly at a file that does not convert. -/
theorem load_isSome (file : NavFile R) : (Navgraph.load file).isSome ↔ file.Converts := by
  cases file with
  | unreadable | scalar | noLevel => simp [Navgraph.load, NavFile.Converts]
  | level vertices lanes =>
    have converts {α : Type} (l : List (Option α)) : (l.mapM id).isSome ↔ ∀ a ∈ l, a.isSome :=
      mapM_isSome
    rw [NavFile.Converts, ← converts, ← converts]
    simp only [Navgraph.load]
    generalize vertices.mapM id = vs
    generalize lanes.mapM id = ls
    cases vs with
    | none => simp
    | some vs =>
      cases ls with
      | none => simp
      | some ls => cases vs <;> simp

/-- `on_reload` returns and answers exactly if the file cannot make the loader throw. -/
theorem reload_answers_iff (s : FleetNode R) (file : NavFile R) :
    Answers file s ↔ file.Converts := by
  rw [← load_isSome]
  unfold Answers FleetNode.onReload
  constructor
  · intro h
    obtain ⟨s', res, h, -⟩ := h
    obtain ⟨graph, hgraph, -⟩ := Option.bind_eq_some_iff.mp h
    rw [hgraph]
    rfl
  · intro h
    obtain ⟨loaded, hloaded⟩ := Option.isSome_iff_exists.mp h
    rw [hloaded]
    cases loaded with
    | none => exact ⟨s, _, rfl, .inr ⟨rfl, rfl⟩⟩
    | some graph =>
      exact ⟨_, _, rfl, .inl ⟨rfl, hloaded, graph.adj_length, graph.adj_range, rfl⟩⟩

variable [Double R]

/-- A file that is missing ends the process. -/
theorem reload_unreadable : ¬ ∀ (p : Setup ℚ) (s : FleetNode ℚ),
    (fleet p).Reach (fun _ _ => True) s → ∀ file, Answers file s := by
  intro h
  obtain ⟨s', res, hres, -⟩ := h (Yard.setup false []) _ .start .unreadable
  cases hres

section Submission

variable {p : Setup R} {s s' : FleetNode R} {req : SubmitRequest} {res : SubmitResponse}

/-- Every rejection comes before the first change, but for an entry of `robots_` that is made if
there is none. -/
theorem onSubmit_rejected (h : s.onSubmit req = some (s', res)) (rejected : res.accepted = false) :
    s' = s ∨ ∃ robot,
      s.selectRobot (goalOf req) (armActionsOf req) req.robot = some (.ok robot) ∧
      s' = { s with toFleetCore := s.touch robot } := by
  unfold FleetNode.onSubmit at h
  dsimp only at h
  split at h
  · cases h
    exact .inl rfl
  obtain ⟨choice, hchoice, h⟩ := Option.bind_eq_some_iff.mp h
  cases choice with
  | error reason =>
    cases h
    exact .inl rfl
  | ok robot =>
    obtain ⟨check, -, h⟩ := Option.bind_eq_some_iff.mp h
    cases check with
    | error reason =>
      cases h
      exact .inr ⟨robot, hchoice, rfl⟩
    | ok path =>
      cases h
      cases rejected

/-- A submission that is answered with `accepted = false` changes no member of the node and
publishes nothing. -/
theorem rejected_unchanged (hs : (fleet p).Reach (fun _ cb => cb.Offers) s)
    (h : s.onSubmit req = some (s', res)) (rejected : res.accepted = false) : s' = s := by
  have hl : Ledger s := reach_ledger (c := .idle s) (fun _ _ h => h) (reach_ticks hs)
  obtain hsame | ⟨robot, hchosen, hs'⟩ := onSubmit_rejected h rejected
  · exact hsame
  · rw [hs', Ledger.touch_eq (hl.chosen hchosen).1]

/-- A robot on its way is sent elsewhere with a battery that does not last for it, and goes on. -/
theorem rejected_unchanged_battery : ∃ s : FleetNode ℚ,
    (fleet (Yard.setup false [])).Reach (fun _ cb => cb.Offers) s ∧
    (s.tasks.map fun t => (t.id, t.moving)) = [("T-1", true)] ∧
    s.onSubmit ⟨"4", "", "r1", 0, 0⟩ = some (s, .rejected "insufficient_battery") := by
  obtain ⟨s, hs, hp⟩ := (fleet (Yard.setup false [])).exists_reach (fun _ cb => cb.Steady)
    (fun s => (s.tasks.map fun t => (t.id, t.moving)) = [("T-1", true)] ∧
      (s.onSubmit ⟨"4", "", "r1", 0, 0⟩).map (·.2) = some (.rejected "insufficient_battery"))
    [Yard.seen "r1" 0 0, Yard.send "r1" "2", .timer, .setBattery ⟨"r1", 1⟩] (by decide +kernel)
  obtain ⟨htasks, hanswer⟩ := of_decide_eq_true hp
  obtain ⟨⟨s', res⟩, hsubmit, hres⟩ := Option.map_eq_some_iff.mp hanswer
  have hsame : s' = s := rejected_unchanged (hs.mono fun _ _ h => h.offers) hsubmit
    (congrArg SubmitResponse.accepted hres)
  refine ⟨s, hs.mono fun _ _ h => h.offers, htasks, ?_⟩
  rw [hsubmit, hsame]
  exact congrArg (fun res => some (s, res)) hres

end Submission

end LibiFleet
