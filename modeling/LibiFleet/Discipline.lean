import Mathlib.Data.Option.Basic

/-!
# Reserving a node before driving to it

Robots of any type reserve nodes of any type. One robot acts at a time and leaves
the nodes of the others alone. A robot that stays at a node owns it, a robot that
moves owns its target, and it starts to move from the node it stays at. No two
robots meet then: neither at a node nor, head-on, on a lane.
-/

namespace LibiFleet

variable {Robot Node : Type*}

/-- Where a robot is with respect to the nodes. -/
inductive Phase (Node : Type*)
  | outside
  | stay (u : Node)
  | move (u v : Node)

/-- The robot owns the node that its phase asks for. -/
def Holds (own : Node → Option Robot) (r : Robot) : Phase Node → Prop
  | .outside => True
  | .stay u => own u = some r
  | .move _ v => own v = some r

/-- Only the reservations of `r` differ. -/
def Alone (r : Robot) (own own' : Node → Option Robot) : Prop :=
  ∀ q, q ≠ r → ∀ v, own' v = some q ↔ own v = some q

namespace Alone

variable {r : Robot} {own own' own'' : Node → Option Robot}

theorem refl (r : Robot) (own : Node → Option Robot) : Alone r own own := fun _ _ _ => Iff.rfl

theorem trans (h : Alone r own own') (h' : Alone r own' own'') : Alone r own own'' :=
  fun q hq v => (h' q hq v).trans (h q hq v)

theorem holds (h : Alone r own own') {q : Robot} (hq : q ≠ r) {p : Phase Node}
    (hp : Holds own q p) : Holds own' q p := by
  cases p with
  | outside => trivial
  | stay u => exact (h q hq u).mpr hp
  | move u v => exact (h q hq v).mpr hp

/-- A node that nobody else owns is reserved. -/
theorem claim {dst : Node} (free : ∀ o, own dst = some o → o = r)
    (h : ∀ v, own' v = own v ∨ v = dst ∧ own' v = some r) : Alone r own own' := by
  intro q hq v
  rcases h v with hv | ⟨rfl, hv⟩
  · rw [hv]
  · rw [hv, Option.some.injEq]
    exact ⟨fun hr => absurd hr.symm hq, fun ho => absurd (free q ho) hq⟩

/-- A node of the robot's own is released. -/
theorem drop (h : ∀ v, own' v = own v ∨ own v = some r ∧ own' v = none) : Alone r own own' := by
  intro q hq v
  rcases h v with hv | ⟨ho, hn⟩
  · rw [hv]
  · rw [hn, ho, Option.some.injEq]
    exact ⟨fun h => absurd h (by simp), fun hr => absurd hr.symm hq⟩

end Alone

/-- Every robot owns the node that its phase asks for. -/
def Held (own : Node → Option Robot) (phase : Robot → Phase Node) : Prop :=
  ∀ r, Holds own r (phase r)

/-- Two robots move on the same lane in opposite directions. -/
def HeadOn (phase : Robot → Phase Node) (r q : Robot) : Prop :=
  ∃ u v, phase r = .move u v ∧ phase q = .move v u

/-- An act of `r` that leaves it with the node its new phase asks for. -/
structure Act (r : Robot) (own own' : Node → Option Robot) (phase phase' : Robot → Phase Node) :
    Prop where
  alone : Alone r own own'
  others : ∀ q, q ≠ r → phase' q = phase q
  holds : Holds own' r (phase' r)

/-- An act of `r` that starts to move, if it does, from the node where `r` stays. -/
structure Departs (r : Robot) (own own' : Node → Option Robot) (phase phase' : Robot → Phase Node) :
    Prop extends Act r own own' phase phase' where
  lane : ∀ u v, phase' r = .move u v → phase r = .move u v ∨ phase r = .stay u

structure Safe (own : Node → Option Robot) (phase : Robot → Phase Node) : Prop where
  held : Held own phase
  apart : ∀ r q, r ≠ q → ¬ HeadOn phase r q

section Acts

variable {r : Robot} {own own' : Node → Option Robot} {phase phase' : Robot → Phase Node}

theorem Act.held (h : Act r own own' phase phase') (hs : Held own phase) : Held own' phase' := by
  intro q
  by_cases hq : q = r
  · exact hq ▸ h.holds
  · rw [h.others q hq]
    exact h.alone.holds hq (hs q)

/-- A robot that starts to move owns where it starts from, so nobody moves there. -/
theorem Departs.no_headOn (h : Departs r own own' phase phase') (hs : Safe own phase) {q : Robot}
    (hq : q ≠ r) : ¬ HeadOn phase' r q := by
  rintro ⟨u, v, hr, hv⟩
  rw [h.others q hq] at hv
  rcases h.lane u v hr with hmove | hstay
  · exact hs.apart r q (Ne.symm hq) ⟨u, v, hmove, hv⟩
  · have hown : own u = some r := by simpa [hstay, Holds] using hs.held r
    have hown' : own u = some q := by simpa [hv, Holds] using hs.held q
    exact hq (Option.some.inj (hown' ▸ hown))

theorem HeadOn.symm {r q : Robot} (h : HeadOn phase r q) : HeadOn phase q r := by
  obtain ⟨u, v, hr, hq⟩ := h
  exact ⟨v, u, hq, hr⟩

theorem Departs.safe (h : Departs r own own' phase phase') (hs : Safe own phase) :
    Safe own' phase' where
  held := h.held hs.held
  apart := by
    intro a b hab hon
    by_cases ha : a = r
    · subst ha
      exact h.no_headOn hs (Ne.symm hab) hon
    · by_cases hb : b = r
      · subst hb
        exact h.no_headOn hs hab hon.symm
      · obtain ⟨u, v, hu, hv⟩ := hon
        rw [h.others a ha] at hu
        rw [h.others b hb] at hv
        exact hs.apart a b hab ⟨u, v, hu, hv⟩

end Acts

section Meeting

variable {own : Node → Option Robot} {phase : Robot → Phase Node} {r q : Robot} {u v w : Node}

/-- The node that a phase asks for. -/
def Phase.needs : Phase Node → Option Node
  | .outside => none
  | .stay u => some u
  | .move _ v => some v

/-- No two robots ask for the same node. -/
theorem Held.needs_ne (hs : Held own phase) (hrq : r ≠ q) (hr : (phase r).needs = some v) :
    (phase q).needs ≠ some v := by
  have owns (x : Robot) (hx : (phase x).needs = some v) : own v = some x := by
    have := hs x
    cases hp : phase x with
    | outside => simp [hp, Phase.needs] at hx
    | stay u | move w u =>
      simp only [hp, Phase.needs, Option.some.injEq] at hx
      simpa [hp, Holds, hx] using this
  intro hq
  exact hrq (Option.some.inj ((owns r hr).symm.trans (owns q hq)))

end Meeting

end LibiFleet
