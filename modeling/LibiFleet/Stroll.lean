import Mathlib.Data.List.Nodup
import Mathlib.Tactic.Common

/-!
# Walks that turn back only at dead ends

A walk along the arcs of a relation, given as its vertices in order, that does not come back to its
start and goes back along the arc it has come by only where there is no other. When the relation
is symmetric, such a walk passes a vertex twice only if it runs into a dead end or passes a
junction twice.
-/

namespace LibiFleet

variable {V : Type*}

/-- A vertex from which one other vertex at most can be reached. -/
def DeadEnd (r : V → V → Prop) (v : V) : Prop := ∃ u, ∀ w, r v w → w = u ∨ w = v

/-- A vertex from which at least three vertices can be reached. -/
def Junction (r : V → V → Prop) (v : V) : Prop := ¬ ∃ a b, ∀ w, r v w → w = a ∨ w = b

/-- The first `n` entries of `f` are such a walk. -/
structure Stroll (r : V → V → Prop) (f : Nat → V) (n : Nat) : Prop where
  arc : ∀ i, i + 1 < n → r (f i) (f (i + 1))
  away : ∀ i, i + 1 < n → f (i + 1) ≠ f 0
  back : ∀ i, i + 2 < n → f (i + 2) = f i → ∀ w, r (f (i + 1)) w → w = f i

namespace Stroll

variable {r : V → V → Prop} {f : Nat → V} {n i j : Nat}

/-- The neighbours of a vertex on the walk before and after it, when it is neither a dead end nor a
junction: they are all it has. -/
theorem sides (h : Stroll r f n) (symm : ∀ a b, r a b → r b a) (hi : i + 2 < n)
    (through : ¬ DeadEnd r (f (i + 1))) (plain : ¬ Junction r (f (i + 1))) :
    f (i + 2) ≠ f i ∧ ∀ w, r (f (i + 1)) w → w = f i ∨ w = f (i + 2) := by
  have hbefore : r (f (i + 1)) (f i) := symm _ _ (h.arc i (by omega))
  have hafter : r (f (i + 1)) (f (i + 2)) := h.arc (i + 1) hi
  have hne : f (i + 2) ≠ f i := by
    intro heq
    exact through ⟨f i, fun w hw => .inl (h.back i hi heq w hw)⟩
  refine ⟨hne, ?_⟩
  obtain ⟨a, b, hab⟩ := not_not.mp plain
  intro w hw
  rcases hab w hw with rfl | rfl
  · rcases hab _ hbefore with hb | hb
    · exact .inl hb.symm
    rcases hab _ hafter with ha | ha
    · exact .inr ha.symm
    · exact absurd (ha.trans hb.symm) hne
  · rcases hab _ hbefore with hb | hb
    · rcases hab _ hafter with ha | ha
      · exact absurd (ha.trans hb.symm) hne
      · exact .inr ha.symm
    · exact .inl hb.symm

/-- A walk without dead ends that passes no junction twice passes no vertex twice: two passes of
one vertex in the same direction can be followed back to the start, and two passes in opposite
directions forward to where the walk has turned. -/
theorem inj (h : Stroll r f n) (symm : ∀ a b, r a b → r b a)
    (through : ∀ i < n, ¬ DeadEnd r (f i))
    (once : ∀ i j, i < j → j < n → f i = f j → ¬ Junction r (f i)) :
    ∀ i j, i < j → j < n → f i ≠ f j := by
  intro i j hij hj heq
  induction hgap : j - i using Nat.strongRecOn generalizing i j with
  | _ gap ihgap =>
    induction i generalizing j with
    | zero =>
      obtain ⟨k, rfl⟩ : ∃ k, j = k + 1 := ⟨j - 1, by omega⟩
      exact h.away k hj heq.symm
    | succ i ihstart =>
      obtain ⟨k, rfl⟩ : ∃ k, j = k + 1 := ⟨j - 1, by omega⟩
      have hplain := once (i + 1) (k + 1) hij hj heq
      have hthrough := through (i + 1) (by omega)
      obtain ⟨hne, hsides⟩ := h.sides symm (by omega) hthrough hplain
      have hbefore : r (f (i + 1)) (f k) := heq ▸ symm _ _ (h.arc k hj)
      rcases hsides _ hbefore with hk | hk
      · exact ihstart k (by omega) (by omega) hk.symm (by omega)
      · have hafter : r (f (i + 1)) (f (i + 2)) := h.arc (i + 1) (by omega)
        obtain hlt | rfl | rfl : i + 2 < k ∨ k = i + 2 ∨ k = i + 1 := by omega
        · exact ihgap (k - (i + 2)) (by omega) (i + 2) k hlt (by omega) hk.symm rfl
        · -- the walk has turned back in between
          exact through (i + 2) (by omega)
            ⟨f (i + 1), fun w hw => .inl (h.back (i + 1) hj heq.symm w hw)⟩
        · -- an arc from the vertex to itself
          refine hthrough ⟨f i, fun w hw => ?_⟩
          rcases hsides w hw with hw | hw
          · exact .inl hw
          · exact .inr (hw.trans hk.symm)

/-- A walk that passes no vertex twice and can be closed has no dead end. -/
theorem through (h : Stroll r f n) (symm : ∀ a b, r a b → r b a) (long : 3 ≤ n)
    (closed : r (f (n - 1)) (f 0)) (inj : ∀ i j, i < j → j < n → f i ≠ f j) :
    ∀ i < n, ¬ DeadEnd r (f i) := by
  rintro i hi ⟨u, hu⟩
  -- the neighbours on both sides would be the same
  have clash {j k : Nat} (hj : r (f i) (f j)) (hk : r (f i) (f k)) (hjk : j < k) (hkn : k < n)
      (hji : j ≠ i) (hki : k ≠ i) : False := by
    have ne {l : Nat} (hl : l < n) (hli : l ≠ i) : f l ≠ f i := by
      rcases Nat.lt_or_gt_of_ne hli with hlt | hlt
      · exact inj l i hlt hi
      · exact (inj i l hlt hl).symm
    have hju := (hu _ hj).resolve_right (ne (by omega) hji)
    have hku := (hu _ hk).resolve_right (ne hkn hki)
    exact inj j k hjk hkn (hju.trans hku.symm)
  cases i with
  | zero =>
    have hafter := h.arc 0 (by omega)
    exact clash hafter (symm _ _ closed) (by omega) (by omega) (by omega) (by omega)
  | succ i =>
    have hbefore := symm _ _ (h.arc i hi)
    by_cases hlast : i + 2 < n
    · exact clash hbefore (h.arc (i + 1) hlast) (by omega) hlast (by omega) (by omega)
    · have hi' : n - 1 = i + 1 := by omega
      rw [hi'] at closed
      exact clash closed hbefore (by omega) (by omega) (by omega) (by omega)

/-- A function that leads from every entry of a closed walk to the next is there only if no vertex
is passed twice. -/
theorem inj_of_succ (h : Stroll r f n) {succ : V → V}
    (next : ∀ i < n, succ (f i) = f ((i + 1) % n)) : ∀ i j, i < j → j < n → f i ≠ f j := by
  intro i j hij hj heq
  induction hrest : n - j generalizing i j with
  | zero => omega
  | succ rest ih =>
    have hstep : f ((i + 1) % n) = f ((j + 1) % n) := by
      rw [← next i (by omega), ← next j hj, heq]
    rw [Nat.mod_eq_of_lt (show i + 1 < n by omega)] at hstep
    by_cases hlast : j + 1 < n
    · rw [Nat.mod_eq_of_lt hlast] at hstep
      exact ih (i + 1) (j + 1) (by omega) hlast hstep (by omega)
    · obtain rfl : n = j + 1 := by omega
      rw [Nat.mod_self] at hstep
      exact h.away i (by omega) hstep

end Stroll

end LibiFleet
