import LibiFleet.Traffic
import Mathlib.Data.Fin.VecNotation
import Mathlib.Data.Fintype.EquivFin
import Mathlib.Data.Fintype.Lattice

/-!
# A jam

Robots in a circle, each after the node of the next. They ask in rounds, in any
order, while others go on with their own requests. From the third round on the
lowest of them is told to yield in every round, and nobody else is.
-/

namespace LibiFleet

/-- A call of the plugin. -/
inductive Call
  | request (robot : String) (src dst priority : Int)
  | release (robot : String) (node : Int)
  | releaseNode (robot : String) (node : Int)
  deriving DecidableEq, Repr

def Call.robot : Call → String
  | request robot .. => robot
  | release robot _ => robot
  | releaseNode robot _ => robot

namespace ReservationDeadlock

def take (σ : ReservationDeadlock) : Call → ReservationDeadlock
  | .request robot src dst priority => (σ.requestMove robot src dst priority).2
  | .release robot node => σ.release robot node
  | .releaseNode robot node => σ.releaseNode robot node

def run (σ : ReservationDeadlock) (calls : List Call) : ReservationDeadlock := calls.foldl take σ

theorem run_append (σ : ReservationDeadlock) (calls calls' : List Call) :
    σ.run (calls ++ calls') = (σ.run calls).run calls' := List.foldl_append

/-- A call changes the waiting and the priority of its own robot only. -/
theorem take_other {σ : ReservationDeadlock} {c : Call} {r : String} (hr : r ≠ c.robot) :
    (σ.take c).waits r = σ.waits r ∧ prioOf (σ.take c).prio r = prioOf σ.prio r := by
  cases c with
  | request robot src dst p =>
    exact ⟨requestMove_waits_other hr, (requestMove_prio r).trans (if_neg hr)⟩
  | release robot node | releaseNode robot node =>
    exact ⟨(release_waits robot r node).trans (if_neg hr), rfl⟩

variable {ok : Call → Prop} {P : ReservationDeadlock → Prop} {σ : ReservationDeadlock}

theorem run_keeps (keep : ∀ τ c, ok c → P τ → P (τ.take c)) {calls : List Call}
    (h : ∀ c ∈ calls, ok c) (hσ : P σ) : P (σ.run calls) := by
  induction calls generalizing σ with
  | nil => exact hσ
  | cons c calls ih =>
    exact ih (fun d hd => h d (List.mem_cons_of_mem _ hd)) (keep σ c (h c List.mem_cons_self) hσ)

/-- What one call of the run brings about and the others keep, holds after the run. -/
theorem run_gains {I : ReservationDeadlock → Prop} (inv : ∀ τ c, ok c → I τ → I (τ.take c))
    (keep : ∀ τ c, ok c → I τ → P τ → P (τ.take c)) {calls : List Call} (h : ∀ c ∈ calls, ok c)
    {c₀ : Call} (hmem : c₀ ∈ calls) (gain : ∀ τ, I τ → P (τ.take c₀)) (hσ : I σ) :
    P (σ.run calls) := by
  obtain ⟨before, after, rfl⟩ := List.append_of_mem hmem
  have hbefore : I (σ.run before) := run_keeps inv (fun c hc => h c (by simp [hc])) hσ
  have hc₀ : I ((σ.run before).take c₀) ∧ P ((σ.run before).take c₀) :=
    ⟨inv _ _ (h c₀ hmem) hbefore, gain _ hbefore⟩
  rw [run_append]
  have both (τ : ReservationDeadlock) (c : Call) (hc : ok c) (hτ : I τ ∧ P τ) :
      I (τ.take c) ∧ P (τ.take c) := ⟨inv τ c hc hτ.1, keep τ c hc hτ.1 hτ.2⟩
  exact (run_keeps both (fun c hc => h c (by simp [hc])) hc₀).2

end ReservationDeadlock

/-- `m + 2` robots, with the node each is after and the priority it asks with. -/
structure Jam (m : Nat) where
  robot : Fin (m + 2) → String
  node : Fin (m + 2) → Int
  priority : Fin (m + 2) → Int
  distinct : Function.Injective robot
  named : ∀ i, robot i ≠ ""

namespace Jam

variable {m : Nat} (J : Jam m)

/-- Each is after a node that the next robot of the circle has. -/
def Stuck (σ : ReservationDeadlock) : Prop := ∀ i, σ.owner (J.node i) = some (J.robot (i + 1))

/-- The request of `robot i`, from wherever it says it is. -/
def Asks (i : Fin (m + 2)) : Call → Prop
  | .request robot src dst priority =>
    robot = J.robot i ∧ src ≠ J.node i ∧ dst = J.node i ∧ priority = J.priority i
  | _ => False

instance (i : Fin (m + 2)) : DecidablePred (J.Asks i)
  | .request robot src dst priority => inferInstanceAs (Decidable
      (robot = J.robot i ∧ src ≠ J.node i ∧ dst = J.node i ∧ priority = J.priority i))
  | .release .. | .releaseNode .. => inferInstanceAs (Decidable False)

/-- Robots of the circle make their requests and nothing else; others do what they like. -/
def Admits (c : Call) : Prop := ∀ i, c.robot = J.robot i → J.Asks i c

instance : DecidablePred J.Admits := fun _ => inferInstanceAs (Decidable (∀ _, _))

/-- A round: each robot of the circle calls once. -/
structure Round (calls : List Call) : Prop where
  admits : ∀ c ∈ calls, J.Admits c
  once : ∀ i, calls.countP (·.robot = J.robot i) = 1

instance (calls : List Call) : Decidable (J.Round calls) :=
  decidable_of_iff ((∀ c ∈ calls, J.Admits c) ∧ ∀ i, calls.countP (·.robot = J.robot i) = 1)
    ⟨fun h => ⟨h.1, h.2⟩, fun h => ⟨h.admits, h.once⟩⟩

/-- `robot l` is below every other robot of the circle: a lower priority, or the same and the
greater name. -/
def Lowest (l : Fin (m + 2)) : Prop := ∀ j, j ≠ l →
  J.priority l < J.priority j ∨ J.priority l = J.priority j ∧ J.robot j < J.robot l

theorem exists_lowest : ∃ l, J.Lowest l := by
  obtain ⟨l, hl⟩ := Finite.exists_min fun i =>
    (toLex (J.priority i, OrderDual.toDual (J.robot i)) : Int ×ₗ Stringᵒᵈ)
  refine ⟨l, ?_⟩
  intro j hj
  rcases Prod.Lex.toLex_le_toLex.mp (hl j) with hlt | ⟨heq, hle⟩
  · exact .inl hlt
  · have hle' : J.robot j ≤ J.robot l := OrderDual.toDual_le_toDual.mp hle
    have hne : J.robot j ≠ J.robot l := fun he => hj (J.distinct he)
    exact .inr ⟨heq, lt_of_le_of_ne hle' hne⟩

variable {J}

theorem Lowest.unique {l l' : Fin (m + 2)} (h : J.Lowest l) (h' : J.Lowest l') : l = l' := by
  by_contra hne
  rcases h l' (Ne.symm hne), h' l hne with ⟨h | ⟨he, hn⟩, h' | ⟨he', hn'⟩⟩
  · exact lt_asymm h h'
  · exact absurd he'.symm h.ne
  · exact absurd he.symm h'.ne
  · exact lt_asymm hn hn'

theorem Asks.request {i : Fin (m + 2)} {c : Call} (h : J.Asks i c) :
    ∃ src, src ≠ J.node i ∧ c = .request (J.robot i) src (J.node i) (J.priority i) := by
  cases c with
  | request robot src dst p =>
    obtain ⟨rfl, hsrc, rfl, rfl⟩ := h
    exact ⟨src, hsrc, rfl⟩
  | release | releaseNode => cases h

theorem next_ne (i : Fin (m + 2)) : J.robot (i + 1) ≠ J.robot i := fun h =>
  absurd (add_eq_left.mp (J.distinct h)) (by simp)

section Calls

variable {σ τ : ReservationDeadlock} {c : Call} {i l : Fin (m + 2)} {src : Int}

/-- The plugin has the priority of `robot i`, and an edge of it leads to the next robot. -/
def Known (J : Jam m) (σ : ReservationDeadlock) (i : Fin (m + 2)) : Prop :=
  prioOf σ.prio (J.robot i) = J.priority i ∧
    ∀ b, σ.waits (J.robot i) = some b → b = J.robot (i + 1)

def Waits (J : Jam m) (σ : ReservationDeadlock) (i : Fin (m + 2)) : Prop :=
  σ.waits (J.robot i) = some (J.robot (i + 1))

/-- No call lets go of a node that is waited for. -/
theorem Stuck.take (hc : J.Admits c) (h : J.Stuck σ) : J.Stuck (σ.take c) := by
  intro i
  cases c with
  | request robot src dst p => exact ReservationDeadlock.requestMove_kept (h i) (J.named _) ..
  | release robot node | releaseNode robot node =>
    refine (ReservationDeadlock.release_owner ..).trans ?_
    rw [if_neg, h i]
    rintro ⟨hnode, howner⟩
    rw [← hnode, h i] at howner
    exact hc (i + 1) (Option.some.inj howner).symm

theorem Stuck.answer (h : J.Stuck σ) (i : Fin (m + 2)) (src p : Int) :
    ReservationDeadlock.Answer σ (J.robot i) src (J.node i) p
      (σ.requestMove (J.robot i) src (J.node i) p) := by
  apply ReservationDeadlock.requestMove_answer_at
  intro o ho
  rw [h i] at ho
  exact Option.some.inj ho ▸ J.named (i + 1)

theorem Stuck.not_free (h : J.Stuck σ) (i : Fin (m + 2)) :
    ¬ σ.FreeFor (J.node i) (J.robot i) := fun free => next_ne i (free _ (h i))

/-- A robot of the circle is never granted its node. -/
theorem Stuck.refused (h : J.Stuck σ) (i : Fin (m + 2)) (src p : Int) :
    (σ.requestMove (J.robot i) src (J.node i) p).1 ≠ .grant := by
  have hans := h.answer i src p
  generalize σ.requestMove (J.robot i) src (J.node i) p = out at hans
  cases hans with
  | granted free => exact absurd free (h.not_free i)
  | refused | waiting | yielding => simp

/-- After its own call a robot is known, and waits if that is what it was told. -/
theorem Stuck.asked (h : J.Stuck σ) (hsrc : src ≠ J.node i) :
    let out := σ.requestMove (J.robot i) src (J.node i) (J.priority i)
    J.Known out.2 i ∧ (out.1 = .wait → J.Waits out.2 i) := by
  have hprio : prioOf (σ.requestMove (J.robot i) src (J.node i) (J.priority i)).2.prio (J.robot i) =
    J.priority i := (ReservationDeadlock.requestMove_prio _).trans (if_pos rfl)
  have hans := h.answer i src (J.priority i)
  generalize σ.requestMove (J.robot i) src (J.node i) (J.priority i) = out at hans hprio
  cases hans with
  | granted free => exact absurd free (h.not_free i)
  | refused claim => exact absurd claim hsrc
  | waiting _ owned =>
    obtain rfl := Option.some.inj ((h i).symm.trans owned)
    have hwaits : ReservationDeadlock.waits ⟨σ.nodeOwner,
        σ.waitfor.insert (J.robot i) (J.robot (i + 1)),
        σ.prio.insert (J.robot i) (J.priority i)⟩ (J.robot i) = some (J.robot (i + 1)) := by
      simp [ReservationDeadlock.waits]
    exact ⟨⟨hprio, fun b hb => Option.some.inj (hb.symm.trans hwaits)⟩, fun _ => hwaits⟩
  | yielding =>
    exact ⟨⟨hprio, fun b hb => by simp [ReservationDeadlock.waits] at hb⟩, by simp⟩

theorem Known.take (hc : J.Admits c) (hs : J.Stuck σ) (h : J.Known σ i) : J.Known (σ.take c) i := by
  by_cases hr : c.robot = J.robot i
  · obtain ⟨src, hsrc, rfl⟩ := (hc i hr).request
    exact (hs.asked hsrc).1
  · obtain ⟨hwaits, hprio⟩ := ReservationDeadlock.take_other (σ := σ) (Ne.symm hr)
    exact ⟨hprio.trans h.1, fun b hb => h.2 b (hwaits.symm.trans hb)⟩

/-- With its own request the priorities of the circle stay what they are. -/
theorem prio_insert (known : ∀ j, J.Known σ j) (i j : Fin (m + 2)) :
    prioOf (σ.prio.insert (J.robot i) (J.priority i)) (J.robot j) = J.priority j := by
  rw [prioOf, Std.ExtTreeMap.getD_insert]
  split
  · rename_i h
    rw [J.distinct (Std.LawfulEqCmp.eq_of_compare h)]
  · exact (known j).1

/-- The edges of the circle with the one that the request of `robot i` adds. -/
theorem waitfor_insert (σ : ReservationDeadlock) (i j : Fin (m + 2)) :
    (σ.waitfor.insert (J.robot i) (J.robot (i + 1)))[J.robot j]? =
      if j = i then some (J.robot (j + 1)) else σ.waits (J.robot j) := by
  rw [Std.ExtTreeMap.getElem?_insert]
  by_cases hj : j = i
  · simp [hj]
  · simp [hj, J.distinct.eq_iff, @eq_comm _ i j, ReservationDeadlock.waits]

theorem lower_iff_of (known : ∀ j, J.Known σ j) (i j : Fin (m + 2)) :
    Lower (σ.prio.insert (J.robot i) (J.priority i)) (J.robot i) (J.robot j) ↔
      J.priority i < J.priority j ∨ J.priority i = J.priority j ∧ J.robot j < J.robot i := by
  rw [Lower, prio_insert known, prio_insert known]

/-- Once every robot has called, only the lowest is told to yield. -/
theorem Stuck.victim (hs : J.Stuck σ) (known : ∀ j, J.Known σ j)
    (dead : (σ.requestMove (J.robot i) src (J.node i) (J.priority i)).1 = .deadlock) :
    J.Lowest i := by
  have hans := hs.answer i src (J.priority i)
  generalize σ.requestMove (J.robot i) src (J.node i) (J.priority i) = out at hans dead
  cases hans with
  | granted | refused | waiting => cases dead
  | @yielding _ cyc _ owned _ found lowest =>
    obtain rfl := Option.some.inj ((hs i).symm.trans owned)
    have ring := findCycle_ring found
    have hmem (j : Fin (m + 2)) : J.robot j ∈ cyc := by
      apply ring.mem_cyclic
      intro j b hb
      rw [waitfor_insert] at hb
      split at hb
      · exact (Option.some.inj hb).symm
      · exact (known j).2 b hb
    intro j hj
    exact (lower_iff_of known i j).mp
      ((lowestPriority_eq_iff (hmem i)).mp lowest _ (hmem j) fun h => hj (J.distinct h))

/-- When all the others wait, the lowest is told to yield. -/
theorem Stuck.yields (hs : J.Stuck σ) (known : ∀ j, J.Known σ j) (hsrc : src ≠ J.node i)
    (waits : ∀ j, j ≠ i → J.Waits σ j) (lowest : J.Lowest i) :
    (σ.requestMove (J.robot i) src (J.node i) (J.priority i)).1 = .deadlock := by
  have hans := hs.answer i src (J.priority i)
  generalize σ.requestMove (J.robot i) src (J.node i) (J.priority i) = out at hans
  cases hans with
  | granted free => exact absurd free (hs.not_free i)
  | refused claim => exact absurd claim hsrc
  | yielding => rfl
  | waiting _ owned _ stays =>
    obtain rfl := Option.some.inj ((hs i).symm.trans owned)
    have ring := isRing_ofFn J.distinct (f := fun x =>
      (σ.waitfor.insert (J.robot i) (J.robot (i + 1)))[x]?) (fun j => by
        rw [waitfor_insert]
        split
        · rfl
        · exact waits j ‹_›) i
    have stays' := stays _ (findCycle_complete ring)
    have yields := (lowestPriority_eq_iff ring.mem).mpr fun r hr hne => by
      obtain ⟨j, rfl⟩ := (List.mem_ofFn' _ _).mp hr
      have below := lowest (i + j) fun h => hne (congrArg J.robot h)
      exact (lower_iff_of known i _).mpr below
    exact absurd yields stays'

/-- Once every robot has called, the others are told to wait. -/
theorem Stuck.waits_of (hs : J.Stuck σ) (known : ∀ j, J.Known σ j) (hsrc : src ≠ J.node i)
    (hi : ¬ J.Lowest i) :
    (σ.requestMove (J.robot i) src (J.node i) (J.priority i)).1 = .wait ∧
      J.Waits (σ.requestMove (J.robot i) src (J.node i) (J.priority i)).2 i := by
  have hwait : (σ.requestMove (J.robot i) src (J.node i) (J.priority i)).1 = .wait := by
    cases hd : (σ.requestMove (J.robot i) src (J.node i) (J.priority i)).1 with
    | grant => exact absurd hd (hs.refused i src _)
    | wait => rfl
    | deadlock => exact absurd (hs.victim known hd) hi
  exact ⟨hwait, (hs.asked hsrc).2 hwait⟩

theorem Waits.take (hc : J.Admits c) (hs : J.Stuck σ) (known : ∀ j, J.Known σ j)
    (hi : ¬ J.Lowest i) (h : J.Waits σ i) : J.Waits (σ.take c) i := by
  by_cases hr : c.robot = J.robot i
  · obtain ⟨src, hsrc, rfl⟩ := (hc i hr).request
    exact (hs.waits_of known hsrc hi).2
  · exact (ReservationDeadlock.take_other (Ne.symm hr)).1.trans h

end Calls

/-! ## Round after round -/

section Rounds

variable {σ : ReservationDeadlock} {calls : List Call} {past : List (List Call)}

theorem Round.asks (h : J.Round calls) (i : Fin (m + 2)) : ∃ c ∈ calls, J.Asks i c := by
  obtain ⟨c, hc, hr⟩ := List.countP_pos_iff.mp ((h.once i).symm ▸ Nat.one_pos)
  exact ⟨c, hc, h.admits c hc i (of_decide_eq_true hr)⟩

theorem Stuck.run (h : ∀ c ∈ calls, J.Admits c) (hs : J.Stuck σ) : J.Stuck (σ.run calls) :=
  ReservationDeadlock.run_keeps (fun _ _ hc hτ => hτ.take hc) h hs

/-- After a round every robot of the circle is known. -/
theorem Round.known (h : J.Round calls) (hs : J.Stuck σ) (i : Fin (m + 2)) :
    J.Known (σ.run calls) i := by
  obtain ⟨c, hmem, hasks⟩ := h.asks i
  obtain ⟨src, hsrc, rfl⟩ := hasks.request
  exact ReservationDeadlock.run_gains (P := fun τ => J.Known τ i) (fun _ _ hc hτ => hτ.take hc)
    (fun _ _ hc hτ hi => hi.take hc hτ) h.admits hmem (fun _ hτ => (hτ.asked hsrc).1) hs

/-- The state between rounds, `n` rounds after the beginning. -/
structure After (J : Jam m) (n : Nat) (σ : ReservationDeadlock) : Prop where
  stuck : J.Stuck σ
  known : 1 ≤ n → ∀ i, J.Known σ i
  waits : 2 ≤ n → ∀ i, ¬ J.Lowest i → J.Waits σ i

/-- In the middle of a round everything is still as it was after the rounds before. -/
theorem After.run {n : Nat} (h : J.After n σ) (hc : ∀ c ∈ calls, J.Admits c) :
    J.After n (σ.run calls) := by
  apply ReservationDeadlock.run_keeps _ hc h
  intro τ c hc hτ
  constructor
  · exact hτ.stuck.take hc
  · intro hn i
    exact (hτ.known hn i).take hc hτ.stuck
  · intro hn i hi
    have known := hτ.known (by omega)
    exact (hτ.waits hn i hi).take hc hτ.stuck known hi

theorem After.round {n : Nat} (h : J.After n σ) (hr : J.Round calls) :
    J.After (n + 1) (σ.run calls) where
  stuck := h.stuck.run hr.admits
  known := fun _ => hr.known h.stuck
  waits := by
    intro hn i hi
    obtain ⟨c, hmem, hasks⟩ := hr.asks i
    obtain ⟨src, hsrc, rfl⟩ := hasks.request
    exact ReservationDeadlock.run_gains (I := fun τ => J.Stuck τ ∧ ∀ j, J.Known τ j)
      (P := fun τ => J.Waits τ i)
      (fun _ _ hc hτ => ⟨hτ.1.take hc, fun j => (hτ.2 j).take hc hτ.1⟩)
      (fun _ _ hc hτ hw => hw.take hc hτ.1 hτ.2 hi) hr.admits hmem
      (fun _ hτ => (hτ.1.waits_of hτ.2 hsrc hi).2) ⟨h.stuck, h.known (by omega)⟩

theorem after_rounds (hs : J.Stuck σ) (h : ∀ round ∈ past, J.Round round) :
    J.After past.length (σ.run past.flatten) := by
  induction past using List.reverseRecOn with
  | nil => exact ⟨hs, by simp, by simp⟩
  | append_singleton past round ih =>
    rw [List.flatten_append, ReservationDeadlock.run_append, List.length_append]
    simpa using (ih fun r hr => h r (by simp [hr])).round (h round (by simp))

/-- In a real deadlock no robot of the circle is granted its node, from the second round on only
the lowest of them can be told to yield, and from the third round on it is, and the others wait. -/
theorem one_yields (J : Jam m) {σ : ReservationDeadlock} (hs : J.Stuck σ) :
    ∃ l, J.Lowest l ∧ ∀ (past : List (List Call)) (before after : List Call) (i : Fin (m + 2))
      (src : Int), (∀ round ∈ past, J.Round round) → src ≠ J.node i →
      J.Round (before ++ .request (J.robot i) src (J.node i) (J.priority i) :: after) →
      let answer := ((σ.run (past.flatten ++ before)).requestMove (J.robot i) src (J.node i)
        (J.priority i)).1
      answer ≠ .grant ∧ (1 ≤ past.length → answer = .deadlock → i = l) ∧
        (2 ≤ past.length → answer = if i = l then .deadlock else .wait) := by
  obtain ⟨l, hl⟩ := J.exists_lowest
  refine ⟨l, hl, ?_⟩
  intro past before after i src hpast hsrc hround
  have h : J.After past.length (σ.run (past.flatten ++ before)) := by
    rw [ReservationDeadlock.run_append]
    exact (after_rounds hs hpast).run fun c hc => hround.admits c (by simp [hc])
  refine ⟨h.stuck.refused i src _, ?_, ?_⟩
  · intro hn dead
    have lowest := h.stuck.victim (h.known hn) dead
    exact lowest.unique hl
  · intro hn
    have known := h.known (by omega)
    split
    · rename_i hi
      subst hi
      have waits : ∀ j, j ≠ i → J.Waits _ j := fun j hj =>
        h.waits hn j fun hl' => hj (hl'.unique hl)
      exact h.stuck.yields known hsrc waits hl
    · rename_i hi
      have higher : ¬ J.Lowest i := fun hl' => hi (hl'.unique hl)
      exact (h.stuck.waits_of known hsrc higher).1

end Rounds

/-- The first has 0 and is after 1, the second has 1 and is after 0. -/
def pair : Jam 0 where
  robot := !["r1", "r2"]
  node := ![1, 0]
  priority := ![5, 7]
  distinct := by decide
  named := by decide

/-- In the third round the first is told to yield, although another robot asks as well. -/
theorem one_yields_pair :
    ((({} : ReservationDeadlock).run [.request "r1" 0 0 5, .request "r2" 1 1 7,
      .request "r1" 0 1 5, .request "r2" 1 0 7, .request "r2" 1 0 7, .request "r1" 0 1 5,
      .request "r3" 2 1 9]).requestMove "r1" 0 1 5).1 = .deadlock := by
  obtain ⟨l, hl, h⟩ := one_yields pair
    (σ := ({} : ReservationDeadlock).run [.request "r1" 0 0 5, .request "r2" 1 1 7])
    (by unfold Stuck; decide +kernel)
  have hlow : pair.Lowest 0 := by
    unfold Lowest
    decide +kernel
  have := (h
    [[.request "r1" 0 1 5, .request "r2" 1 0 7], [.request "r2" 1 0 7, .request "r1" 0 1 5]]
    [.request "r3" 2 1 9] [.request "r2" 1 0 7] 0 0 (by decide +kernel) (by decide)
    (by decide +kernel)).2.2 (by decide)
  rwa [if_pos (hlow.unique hl)] at this

end Jam

end LibiFleet
