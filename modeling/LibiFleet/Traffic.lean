import LibiFleet.Discipline
import LibiFleet.Follow
import Mathlib.Data.Prod.Lex
import Mathlib.Data.String.Basic
import Std.Data.ExtTreeMap

/-!
# The traffic plugin

`reservation_deadlock.cpp`: nodes are reserved, a robot that is refused waits for
the owner of the node, and a robot whose waiting closes a cycle yields when it
has the lowest priority of the cycle.
-/

namespace LibiFleet

open Std (ExtTreeMap)

inductive MoveDecision
  | grant
  | wait
  | deadlock
  deriving DecidableEq, Repr

/-- The state of the plugin: node to owner, robot to the robot it waits for, robot to priority. -/
structure ReservationDeadlock where
  nodeOwner : ExtTreeMap Int String := ∅
  waitfor : ExtTreeMap String String := ∅
  prio : ExtTreeMap String Int := ∅

/-- The loop of `find_cycle`. Every round but the last visits a new key of the
map; `none` is a run out of rounds, which `findCycle_rounds` excludes. -/
def findCycleLoop (waitfor : ExtTreeMap String String) (start : String) :
    Nat → String → List String → List String → Option (Bool × List String)
  | 0, _, _, _ => none
  | fuel + 1, cur, seen, out =>
    let out := out ++ [cur]
    match waitfor[cur]? with
    | none => some (false, out)
    | some next =>
      if next = start then some (true, out)
      else if next ∈ seen then some (false, out)
      else findCycleLoop waitfor start fuel next (next :: seen) out

def findCycle (waitfor : ExtTreeMap String String) (start : String) : Bool × List String :=
  (findCycleLoop waitfor start (waitfor.size + 1) start [] []).getD (false, [])

def prioOf (prio : ExtTreeMap String Int) (r : String) : Int := prio.getD r 0

/-- `a` yields before `b`: a lower priority, or the same and the greater name. -/
def Lower (prio : ExtTreeMap String Int) (a b : String) : Prop :=
  prioOf prio a < prioOf prio b ∨ prioOf prio a = prioOf prio b ∧ b < a

instance (prio : ExtTreeMap String Int) (a b : String) : Decidable (Lower prio a b) :=
  inferInstanceAs (Decidable (_ ∨ _))

def lowestPriority (prio : ExtTreeMap String Int) (cyc : List String) : String :=
  cyc.foldl (fun v r => if Lower prio r v then r else v) (cyc.headD "")

namespace ReservationDeadlock

/-- `owner_of_node`: `""` for a node that is free or the robot's own. -/
def ownerOfNode (σ : ReservationDeadlock) (node : Int) (self : String) : String :=
  match σ.nodeOwner[node]? with
  | some o => if o ≠ self then o else ""
  | none => ""

/-- `request_move(robot, from, to, priority)`. -/
def requestMove (σ : ReservationDeadlock) (robot : String) (src dst priority : Int) :
    MoveDecision × ReservationDeadlock :=
  let σ := { σ with prio := σ.prio.insert robot priority }
  let granted :=
    { σ with nodeOwner := σ.nodeOwner.insert dst robot, waitfor := σ.waitfor.erase robot }
  if src = dst then
    match σ.nodeOwner[dst]? with
    | none => (.grant, granted)
    | some o => if o = robot then (.grant, granted) else (.wait, σ)
  else
    let blocker := σ.ownerOfNode dst robot
    if blocker = "" then (.grant, granted)
    else
      let waitfor := σ.waitfor.insert robot blocker
      let (found, cyc) := findCycle waitfor robot
      if found ∧ lowestPriority σ.prio cyc = robot then
        (.deadlock, { σ with waitfor := waitfor.erase robot })
      else (.wait, { σ with waitfor })

/-- `release(robot, node)`. -/
def release (σ : ReservationDeadlock) (robot : String) (node : Int) : ReservationDeadlock where
  nodeOwner := if σ.nodeOwner[node]? = some robot then σ.nodeOwner.erase node else σ.nodeOwner
  waitfor := σ.waitfor.erase robot
  prio := σ.prio

/-- `release_node`, whose body is the one of `release`. -/
abbrev releaseNode (σ : ReservationDeadlock) (robot : String) (node : Int) : ReservationDeadlock :=
  σ.release robot node

def occupancy (σ : ReservationDeadlock) : List (Int × String) := σ.nodeOwner.toList

def owner (σ : ReservationDeadlock) (node : Int) : Option String := σ.nodeOwner[node]?

def waits (σ : ReservationDeadlock) (robot : String) : Option String := σ.waitfor[robot]?

end ReservationDeadlock

/-! ## The cycle search -/

section Search

variable {waitfor : ExtTreeMap String String} {start : String}

/-- What the loop of `find_cycle` has walked when it comes to `cur`. -/
structure Walked (waitfor : ExtTreeMap String String) (start cur : String)
    (seen out : List String) : Prop where
  head : (out ++ [cur]).head? = some start
  follows : Follows (waitfor[·]?) (out ++ [cur])
  nodup : (out ++ [cur]).Nodup
  seen : ∀ x, x ∈ seen ↔ x ∈ out ++ [cur] ∧ x ≠ start

theorem walked_start : Walked waitfor start start [] [] :=
  ⟨rfl, List.isChain_singleton _, List.nodup_singleton _, by simp⟩

theorem Walked.next {cur next : String} {seen out : List String}
    (h : Walked waitfor start cur seen out) (hn : waitfor[cur]? = some next)
    (hs : next ≠ start) (hseen : next ∉ seen) :
    Walked waitfor start next (next :: seen) (out ++ [cur]) where
  head := by
    rw [List.head?_append, h.head]
    rfl
  follows := by
    refine List.IsChain.append h.follows (List.isChain_singleton _) ?_
    intro x hx y hy
    simp only [List.getLast?_append, List.getLast?_singleton, Option.some_or,
      Option.mem_def, Option.some.injEq, List.head?_cons] at hx hy
    exact hx ▸ hy ▸ hn
  nodup := by
    refine List.nodup_append.mpr ⟨h.nodup, List.nodup_singleton _, ?_⟩
    intro a ha b hb
    rw [List.mem_singleton.mp hb]
    rintro rfl
    exact hseen ((h.seen a).mpr ⟨ha, hs⟩)
  seen := by
    intro x
    rw [List.mem_cons, h.seen, List.mem_append (t := [next]), List.mem_singleton]
    constructor
    · rintro (rfl | ⟨hx, hne⟩)
      · exact ⟨.inr rfl, hs⟩
      · exact ⟨.inl hx, hne⟩
    · rintro ⟨hx | rfl, hne⟩
      · exact .inr ⟨hx, hne⟩
      · exact .inl rfl

/-- A walk whose next image is the start is a ring. -/
theorem Walked.ring {cur : String} {seen out : List String} (h : Walked waitfor start cur seen out)
    (hn : waitfor[cur]? = some start) : IsRing (waitfor[·]?) start (out ++ [cur]) :=
  ⟨h.head, h.follows, h.nodup, cur, by simp, hn⟩

theorem findCycleLoop_ring (fuel : Nat) : ∀ cur seen out l, Walked waitfor start cur seen out →
    findCycleLoop waitfor start fuel cur seen out = some (true, l) →
    IsRing (waitfor[·]?) start l := by
  induction fuel with
  | zero =>
    intro _ _ _ _ _ h
    cases h
  | succ fuel ih =>
    intro cur seen out l hw h
    unfold findCycleLoop at h
    dsimp only at h
    split at h
    · cases h
    rename_i next hn
    split at h
    · cases h
      rename_i hs
      exact hw.ring (hs ▸ hn)
    rename_i hs
    split at h
    · cases h
    rename_i hseen
    exact ih _ _ _ _ (hw.next hn hs hseen) h

theorem length_le_size {l : List String} (hl : l.Nodup)
    (hkeys : ∀ r ∈ l, waitfor[r]? ≠ none) : l.length ≤ waitfor.size := by
  rw [← ExtTreeMap.length_keys]
  apply List.Nodup.length_le_of_subset hl
  intro r hr
  rw [ExtTreeMap.mem_keys, ExtTreeMap.mem_iff_isSome_getElem?]
  exact Option.isSome_iff_ne_none.mpr (hkeys r hr)

theorem findCycleLoop_rounds (fuel : Nat) : ∀ cur seen out, Walked waitfor start cur seen out →
    (∀ r ∈ out, waitfor[r]? ≠ none) → waitfor.size < out.length + fuel →
    (findCycleLoop waitfor start fuel cur seen out).isSome := by
  induction fuel with
  | zero =>
    intro cur seen out hw hkeys hlt
    have hle := length_le_size (List.Nodup.of_append_left hw.nodup) hkeys
    omega
  | succ fuel ih =>
    intro cur seen out hw hkeys hlt
    unfold findCycleLoop
    dsimp only
    split
    · rfl
    rename_i next hn
    split
    · rfl
    rename_i hs
    split
    · rfl
    rename_i hseen
    refine ih _ _ _ (hw.next hn hs hseen) ?_ ?_
    · intro r hr
      rcases List.mem_append.mp hr with hr | hr
      · exact hkeys r hr
      · rw [List.mem_singleton.mp hr, hn]
        simp
    · rw [List.length_append, List.length_singleton]
      omega

/-- A loop that has come to its end would not have gone on. -/
theorem findCycleLoop_more (more fuel : Nat) : ∀ cur seen out res,
    findCycleLoop waitfor start fuel cur seen out = some res →
    findCycleLoop waitfor start (fuel + more) cur seen out = some res := by
  induction fuel with
  | zero =>
    intro _ _ _ _ h
    cases h
  | succ fuel ih =>
    intro cur seen out res h
    rw [Nat.succ_add]
    unfold findCycleLoop at h ⊢
    dsimp only at h ⊢
    split at h
    · exact h
    split at h
    · rename_i hs
      rw [if_pos hs]
      exact h
    rename_i hs
    rw [if_neg hs]
    split at h
    · rename_i hseen
      rw [if_pos hseen]
      exact h
    rename_i hseen
    rw [if_neg hseen]
    exact ih _ _ _ _ h

/-- The rounds that `findCycle` allows are always enough. -/
theorem findCycle_rounds (waitfor : ExtTreeMap String String) (start : String) :
    findCycleLoop waitfor start (waitfor.size + 1) start [] [] =
      some (findCycle waitfor start) := by
  have h : (findCycleLoop waitfor start (waitfor.size + 1) start [] []).isSome :=
    findCycleLoop_rounds _ _ _ _ walked_start (by simp) (by simp)
  unfold findCycle
  obtain ⟨p, hp⟩ := Option.isSome_iff_exists.mp h
  rw [hp]
  rfl

/-- A cycle that is found is a ring of the wait-for map. -/
theorem findCycle_ring {cyc : List String} (h : findCycle waitfor start = (true, cyc)) :
    IsRing (waitfor[·]?) start cyc :=
  findCycleLoop_ring _ _ _ _ _ walked_start (h ▸ findCycle_rounds waitfor start)

theorem findCycleLoop_complete (rest : List String) : ∀ fuel cur seen out,
    (∀ x ∈ seen, x ∈ out ++ [cur]) → IsRing (waitfor[·]?) start (out ++ cur :: rest) →
    rest.length < fuel →
    findCycleLoop waitfor start fuel cur seen out = some (true, out ++ cur :: rest) := by
  induction rest with
  | nil =>
    intro fuel cur seen out _ hr hlt
    obtain ⟨fuel, rfl⟩ := Nat.exists_eq_succ_of_ne_zero (Nat.ne_of_gt hlt)
    obtain ⟨b, hb, hclose⟩ := hr.closes
    simp only [List.getLast?_append, List.getLast?_singleton, Option.some_or,
      Option.some.injEq] at hb
    subst hb
    simp [findCycleLoop, hclose]
  | cons c rest ih =>
    intro fuel cur seen out hseen hr hlt
    obtain ⟨fuel, rfl⟩ := Nat.exists_eq_succ_of_ne_zero (Nat.ne_of_gt (Nat.zero_lt_of_lt hlt))
    have hcur : waitfor[cur]? = some c :=
      (List.isChain_cons_cons.mp (List.isChain_append.mp hr.follows).2.1).1
    have hnodup : (out ++ [cur] ++ (c :: rest)).Nodup := by simpa using hr.nodup
    have hfresh : c ∉ out ++ [cur] := fun hc =>
      (List.nodup_append.mp hnodup).2.2 c hc c (by simp) rfl
    have hs : c ≠ start := by
      rintro rfl
      refine hfresh ?_
      have hhead := hr.head
      cases out with
      | nil => simpa using hhead.symm
      | cons o out => simp at hhead; simp [hhead]
    have hrec := ih fuel c (c :: seen) (out ++ [cur])
      (by
        intro x hx
        rcases List.mem_cons.mp hx with rfl | hx
        · simp
        · exact List.mem_append_left _ (hseen x hx))
      (by simpa using hr) (by simpa using hlt)
    unfold findCycleLoop
    simp only [hcur, hs, if_false]
    rw [if_neg (fun hc => hfresh (hseen c hc)), hrec]
    simp

/-- A ring of the wait-for map is found, from whichever of its members the search starts. -/
theorem findCycle_complete {cyc : List String} (h : IsRing (waitfor[·]?) start cyc) :
    findCycle waitfor start = (true, cyc) := by
  obtain ⟨rest, rfl⟩ : ∃ rest, cyc = start :: rest := by
    cases cyc with
    | nil => cases h.head
    | cons a rest =>
      cases h.head
      exact ⟨rest, rfl⟩
  have hlen : (start :: rest).length ≤ waitfor.size :=
    length_le_size h.nodup fun r hr => by
      obtain ⟨c, _, hc⟩ := h.image hr
      rw [hc]
      simp
  have := findCycleLoop_complete rest (waitfor.size + 1) start [] [] (by simp) h
    (by rw [List.length_cons] at hlen; omega)
  rw [findCycle, this]
  rfl

/-- The loop of `find_cycle` comes to an end, within one round more than there are robots that wait.
It answers `true` exactly if the map leads from `start` back to `start`, and then with the robots on
the way. -/
theorem findCycle_exact (waitfor : ExtTreeMap String String) (start : String) :
    (∀ rounds, waitfor.size < rounds →
      findCycleLoop waitfor start rounds start [] [] = some (findCycle waitfor start)) ∧
    ((findCycle waitfor start).1 = true ↔
      Relation.TransGen (fun r q => waitfor[r]? = some q) start start) ∧
    ((findCycle waitfor start).1 = true →
      IsRing (waitfor[·]?) start (findCycle waitfor start).2) := by
  have ring (h : (findCycle waitfor start).1 = true) :
      IsRing (waitfor[·]?) start (findCycle waitfor start).2 := findCycle_ring (Prod.ext h rfl)
  refine ⟨?_, ⟨fun h => (ring h).returns, ?_⟩, ring⟩
  · intro rounds hlt
    obtain ⟨more, rfl⟩ := Nat.exists_eq_add_of_le hlt
    exact findCycleLoop_more more _ _ _ _ _ (findCycle_rounds waitfor start)
  · intro h
    obtain ⟨l, hl⟩ := exists_isRing h
    rw [findCycle_complete hl]

end Search

section Lowest

variable {prio : ExtTreeMap String Int}

/-- The order behind `Lower`: by priority, then by the greater name. -/
def rank (prio : ExtTreeMap String Int) (r : String) : Int ×ₗ Stringᵒᵈ :=
  toLex (prioOf prio r, OrderDual.toDual r)

theorem lower_iff {a b : String} : Lower prio a b ↔ rank prio a < rank prio b := by
  simp [Lower, rank, Prod.Lex.toLex_lt_toLex]

theorem rank_injective : Function.Injective (rank prio) := by
  intro a b h
  exact congrArg Prod.snd (toLex.injective h)

theorem foldl_lowest (l : List String) : ∀ v,
    let w := l.foldl (fun v r => if Lower prio r v then r else v) v
    (w = v ∨ w ∈ l) ∧ rank prio w ≤ rank prio v ∧ ∀ r ∈ l, rank prio w ≤ rank prio r := by
  induction l with
  | nil => exact fun v => ⟨.inl rfl, le_refl _, by simp⟩
  | cons a l ih =>
    intro v
    dsimp only [List.foldl_cons]
    by_cases ha : Lower prio a v
    · rw [if_pos ha]
      obtain ⟨hmem, hle, hall⟩ := ih a
      refine ⟨.inr ?_, hle.trans (lower_iff.mp ha).le, ?_⟩
      · exact List.mem_cons.mpr hmem
      · intro r hr
        rcases List.mem_cons.mp hr with rfl | hr
        · exact hle
        · exact hall r hr
    · rw [if_neg ha]
      obtain ⟨hmem, hle, hall⟩ := ih v
      refine ⟨hmem.imp_right (List.mem_cons_of_mem _), hle, ?_⟩
      intro r hr
      rcases List.mem_cons.mp hr with rfl | hr
      · exact hle.trans (not_lt.mp fun h => ha (lower_iff.mpr h))
      · exact hall r hr

theorem lowestPriority_spec {cyc : List String} {a : String} (ha : a ∈ cyc) :
    lowestPriority prio cyc ∈ cyc ∧
      ∀ r ∈ cyc, rank prio (lowestPriority prio cyc) ≤ rank prio r := by
  cases cyc with
  | nil => cases ha
  | cons c l =>
    obtain ⟨hmem, -, hall⟩ := foldl_lowest (c :: l) c
    exact ⟨hmem.elim (fun h => by rw [lowestPriority, List.headD_cons, h]; simp) id, hall⟩

/-- The robot that yields is the one below every other, whatever the order of the list. -/
theorem lowestPriority_eq_iff {cyc : List String} {a : String} (ha : a ∈ cyc) :
    lowestPriority prio cyc = a ↔ ∀ r ∈ cyc, r ≠ a → Lower prio a r := by
  obtain ⟨hmem, hall⟩ := lowestPriority_spec ha
  constructor
  · rintro h r hr hne
    rw [lower_iff]
    exact lt_of_le_of_ne (h ▸ hall r hr) fun he => hne (rank_injective he).symm
  · intro h
    by_contra hne
    exact absurd (hall a ha) (not_le.mpr (lower_iff.mp (h _ hmem hne)))

end Lowest

/-! ## What a request and a release do -/

namespace ReservationDeadlock

variable {σ : ReservationDeadlock} {robot : String} {src dst p : Int}

/-- No reservation is held by the empty name, which `request_move` reads as "nobody". -/
def Named (σ : ReservationDeadlock) : Prop := ∀ n o, σ.owner n = some o → o ≠ ""

/-- No other robot holds the node. -/
def FreeFor (σ : ReservationDeadlock) (node : Int) (robot : String) : Prop :=
  ∀ o, σ.owner node = some o → o = robot

instance (σ : ReservationDeadlock) (node : Int) (robot : String) :
    Decidable (σ.FreeFor node robot) :=
  decidable_of_iff ((σ.owner node).all (· == robot) = true) (by
    unfold FreeFor
    cases σ.owner node <;> simp)

/-- Everything a request can do. -/
inductive Answer (σ : ReservationDeadlock) (robot : String) (src dst p : Int) :
    MoveDecision × ReservationDeadlock → Prop
  | granted (free : σ.FreeFor dst robot) :
      Answer σ robot src dst p (.grant,
        ⟨σ.nodeOwner.insert dst robot, σ.waitfor.erase robot, σ.prio.insert robot p⟩)
  | refused {o : String} (claim : src = dst) (owned : σ.owner dst = some o) (other : o ≠ robot) :
      Answer σ robot src dst p (.wait, ⟨σ.nodeOwner, σ.waitfor, σ.prio.insert robot p⟩)
  | waiting {o : String} (move : src ≠ dst) (owned : σ.owner dst = some o) (other : o ≠ robot)
      (stays : ∀ cyc, findCycle (σ.waitfor.insert robot o) robot = (true, cyc) →
        lowestPriority (σ.prio.insert robot p) cyc ≠ robot) :
      Answer σ robot src dst p
        (.wait, ⟨σ.nodeOwner, σ.waitfor.insert robot o, σ.prio.insert robot p⟩)
  | yielding {o : String} {cyc : List String} (move : src ≠ dst) (owned : σ.owner dst = some o)
      (other : o ≠ robot) (found : findCycle (σ.waitfor.insert robot o) robot = (true, cyc))
      (lowest : lowestPriority (σ.prio.insert robot p) cyc = robot) :
      Answer σ robot src dst p (.deadlock,
        ⟨σ.nodeOwner, (σ.waitfor.insert robot o).erase robot, σ.prio.insert robot p⟩)

theorem requestMove_answer_at (hn : ∀ o, σ.owner dst = some o → o ≠ "") (robot : String)
    (src p : Int) : Answer σ robot src dst p (σ.requestMove robot src dst p) := by
  have free_of (h : ∀ o, σ.nodeOwner[dst]? = some o → o = robot) : σ.FreeFor dst robot := h
  unfold requestMove ownerOfNode
  dsimp only
  cases hown : σ.nodeOwner[dst]? with
  | none =>
    have free := free_of (by simp [hown])
    split
    · exact .granted free
    · exact .granted free
  | some o =>
    have ho : o ≠ "" := hn o hown
    by_cases hr : o = robot
    · have free := free_of (by simp [hown, hr])
      simp only [hr, if_true, ne_eq, not_true_eq_false, if_false]
      split
      · exact .granted free
      · exact .granted free
    · simp only [hr, if_false, ne_eq, not_false_eq_true, if_true, ho]
      split
      · rename_i hclaim
        exact .refused hclaim hown hr
      · rename_i hmove
        split
        · rename_i hyield
          exact .yielding hmove hown hr (Prod.ext hyield.1 rfl) hyield.2
        · rename_i hstay
          exact .waiting hmove hown hr fun cyc hcyc hlow => hstay (by simpa [hcyc] using hlow)

theorem requestMove_answer (hn : σ.Named) (robot : String) (src dst p : Int) :
    Answer σ robot src dst p (σ.requestMove robot src dst p) :=
  requestMove_answer_at (hn dst) robot src p

theorem grant_iff (hn : σ.Named) :
    (σ.requestMove robot src dst p).1 = .grant ↔ σ.FreeFor dst robot := by
  have h := requestMove_answer hn robot src dst p
  generalize σ.requestMove robot src dst p = out at h
  cases h with
  | granted free => simp [free]
  | refused _ owned other | waiting _ owned other | yielding _ owned other =>
    simpa using fun free : σ.FreeFor dst robot => other (free _ owned)

theorem requestMove_owner (hn : σ.Named) (m : Int) :
    (σ.requestMove robot src dst p).2.owner m =
      if (σ.requestMove robot src dst p).1 = .grant ∧ m = dst then some robot else σ.owner m := by
  have h := requestMove_answer hn robot src dst p
  generalize σ.requestMove robot src dst p = out at h
  cases h with
  | granted => simp [owner, ExtTreeMap.getElem?_insert, @eq_comm _ m dst]
  | refused | waiting | yielding => simp [owner]

/-- A node that is reserved stays so, whoever asks for what. -/
theorem requestMove_kept {v : Int} {o : String} (ho : σ.owner v = some o) (hne : o ≠ "")
    (robot : String) (src dst p : Int) : (σ.requestMove robot src dst p).2.owner v = some o := by
  by_cases hv : v = dst
  · subst hv
    have h : Answer σ robot src v p (σ.requestMove robot src v p) := by
      apply requestMove_answer_at
      intro o' ho'
      rwa [← Option.some.inj (ho.symm.trans ho')]
    generalize σ.requestMove robot src v p = out at h
    cases h with
    | granted free => simp [owner, free o ho]
    | refused | waiting | yielding => exact ho
  · unfold requestMove
    grind [owner]

theorem requestMove_owner_grant (hn : σ.Named) (h : (σ.requestMove robot src dst p).1 = .grant) :
    (σ.requestMove robot src dst p).2.owner dst = some robot := by
  rw [requestMove_owner hn, if_pos ⟨h, rfl⟩]

/-- A request leaves the reservations of the other robots alone, whatever the answer. -/
theorem requestMove_alone (hn : σ.Named) (robot : String) (src dst p : Int) :
    Alone robot σ.owner (σ.requestMove robot src dst p).2.owner := by
  by_cases h : (σ.requestMove robot src dst p).1 = .grant
  · apply Alone.claim ((grant_iff hn).mp h)
    intro v
    rw [requestMove_owner hn]
    by_cases hv : v = dst <;> simp [h, hv]
  · have : (σ.requestMove robot src dst p).2.owner = σ.owner := by
      funext v
      simp [requestMove_owner hn, h]
    exact this ▸ Alone.refl _ _

theorem requestMove_waits_other {r : String} (hr : r ≠ robot) :
    (σ.requestMove robot src dst p).2.waits r = σ.waits r := by
  have hr' : robot ≠ r := Ne.symm hr
  unfold requestMove
  grind [waits]

/-- A robot that waits after its request was refused the node by its owner, or claimed a node that
it could not have and waited before. -/
theorem requestMove_waits_self (hn : σ.Named) {b : String}
    (hb : (σ.requestMove robot src dst p).2.waits robot = some b) :
    (σ.requestMove robot src dst p).1 = .wait ∧
      (src = dst ∧ σ.waits robot = some b ∨
        src ≠ dst ∧ σ.owner dst = some b ∧ b ≠ robot) := by
  have h := requestMove_answer hn robot src dst p
  generalize σ.requestMove robot src dst p = out at h hb
  cases h with
  | granted | yielding => simp [waits] at hb
  | refused claim => exact ⟨rfl, .inl ⟨claim, hb⟩⟩
  | waiting move owned other =>
    simp only [waits, ExtTreeMap.getElem?_insert_self, Option.some.injEq] at hb
    exact ⟨rfl, .inr ⟨move, hb ▸ owned, hb ▸ other⟩⟩

/-- A claim of the node where a robot stands lets it wait for nobody new. -/
theorem claim_waits (hn : σ.Named) {v : Int} {b : String}
    (hb : (σ.requestMove robot v v p).2.waits robot = some b) : σ.waits robot = some b := by
  obtain ⟨-, ⟨-, hold⟩ | ⟨hne, -⟩⟩ := requestMove_waits_self hn hb
  · exact hold
  · exact absurd rfl hne

/-- A robot that is granted its node does not wait. -/
theorem granted_waits (hn : σ.Named) (granted : (σ.requestMove robot src dst p).1 = .grant) :
    (σ.requestMove robot src dst p).2.waits robot = none := by
  cases hb : (σ.requestMove robot src dst p).2.waits robot with
  | none => rfl
  | some b =>
    have hwait := (requestMove_waits_self hn hb).1
    rw [granted] at hwait
    cases hwait

theorem requestMove_prio (r : String) :
    prioOf (σ.requestMove robot src dst p).2.prio r = if r = robot then p else prioOf σ.prio r := by
  unfold requestMove
  grind [prioOf]

theorem requestMove_named (hn : σ.Named) (hr : robot ≠ "") (src dst p : Int) :
    (σ.requestMove robot src dst p).2.Named := by
  intro n o ho
  rw [requestMove_owner hn] at ho
  split at ho
  · cases ho
    exact hr
  · exact hn n o ho

@[simp] theorem release_owner (robot : String) (node m : Int) :
    (σ.release robot node).owner m =
      if m = node ∧ σ.owner node = some robot then none else σ.owner m := by
  unfold release owner
  by_cases h : σ.nodeOwner[node]? = some robot
  · simp [h, ExtTreeMap.getElem?_erase, @eq_comm _ m node]
  · simp [h]

theorem release_alone (σ : ReservationDeadlock) (robot : String) (node : Int) :
    Alone robot σ.owner (σ.release robot node).owner := by
  apply Alone.drop
  intro v
  rw [release_owner]
  split
  · rename_i h
    exact .inr ⟨h.1 ▸ h.2, rfl⟩
  · exact .inl rfl

@[simp] theorem release_waits (robot r : String) (node : Int) :
    (σ.release robot node).waits r = if r = robot then none else σ.waits r := by
  simp [release, waits, ExtTreeMap.getElem?_erase, @eq_comm _ r robot]

theorem release_named (hn : σ.Named) (robot : String) (node : Int) :
    (σ.release robot node).Named := by
  intro n o ho
  rw [release_owner] at ho
  split at ho
  · cases ho
  · exact hn n o ho

end ReservationDeadlock

end LibiFleet
