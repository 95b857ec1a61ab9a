import Mathlib.Data.Fin.Basic
import Mathlib.Algebra.Group.Fin.Basic
import Mathlib.Data.List.Chain
import Mathlib.Data.List.FinRange
import Mathlib.Data.List.Nodup
import Mathlib.Data.Set.Basic
import Mathlib.Logic.Relation

/-!
# Following a partial function

A partial function on any type is followed from an element to its image, to the
image of that, and so on. `IsRing f a l`: following `f` from `a` lists `l` and
comes back to `a`.
-/

namespace LibiFleet

variable {α : Type*} {f g : α → Option α}

/-- Each entry is followed by its image. -/
def Follows (f : α → Option α) (l : List α) : Prop := l.IsChain fun a b => f a = some b

structure IsRing (f : α → Option α) (a : α) (l : List α) : Prop where
  head : l.head? = some a
  follows : Follows f l
  nodup : l.Nodup
  closes : ∃ b, l.getLast? = some b ∧ f b = some a

theorem IsRing.mem {a : α} {l : List α} (h : IsRing f a l) : a ∈ l := List.mem_of_head? h.head

/-- In a list that follows `f`, an entry that is not the last has its image in the list. -/
theorem Follows.image {l : List α} (h : Follows f l) {b : α} (hb : b ∈ l)
    (hlast : l.getLast? ≠ some b) : ∃ c ∈ l, f b = some c := by
  induction l with
  | nil => cases hb
  | cons a l ih =>
    cases l with
    | nil =>
      rw [List.mem_singleton] at hb
      subst hb
      exact absurd rfl hlast
    | cons c l =>
      obtain ⟨hac, htail⟩ := List.isChain_cons_cons.mp h
      rcases List.mem_cons.mp hb with rfl | hb
      · exact ⟨c, by simp, hac⟩
      · rw [List.getLast?_cons_cons] at hlast
        obtain ⟨d, hd, he⟩ := ih htail hb hlast
        exact ⟨d, List.mem_cons_of_mem _ hd, he⟩

/-- A ring is closed: every entry has an image, and it is an entry. -/
theorem IsRing.image {a : α} {l : List α} (h : IsRing f a l) {b : α} (hb : b ∈ l) :
    ∃ c ∈ l, f b = some c := by
  obtain ⟨z, hz, hfz⟩ := h.closes
  by_cases hlast : l.getLast? = some b
  · rw [hlast] at hz
    cases hz
    exact ⟨a, h.mem, hfz⟩
  · exact h.follows.image hb hlast

/-- Rings only depend on the images of their entries. -/
theorem IsRing.congr {a : α} {l : List α} (h : IsRing f a l) (hfg : ∀ b ∈ l, f b = g b) :
    IsRing g a l where
  head := h.head
  follows := by
    apply List.IsChain.imp_of_mem_imp _ h.follows
    intro b c hb _ hbc
    rw [← hfg b hb]
    exact hbc
  nodup := h.nodup
  closes := by
    obtain ⟨b, hb, hf⟩ := h.closes
    exact ⟨b, hb, hfg b (List.mem_of_getLast? hb) ▸ hf⟩

/-- The image of the entry at a position is the entry at the next position, around the end. -/
theorem IsRing.getElem {a : α} {l : List α} (h : IsRing f a l) {i : ℕ} (hi : i < l.length) :
    f l[i] = l[(i + 1) % l.length]? := by
  rcases Nat.lt_or_ge (i + 1) l.length with hlt | hge
  · rw [Nat.mod_eq_of_lt hlt, List.getElem?_eq_getElem hlt]
    exact List.isChain_iff_getElem.mp h.follows i hlt
  · obtain ⟨b, hb, hfb⟩ := h.closes
    have hlast : i = l.length - 1 := by omega
    rw [List.getLast?_eq_getElem?, ← hlast, List.getElem?_eq_getElem hi] at hb
    rw [show i + 1 = l.length by omega, Nat.mod_self, ← List.head?_eq_getElem?, h.head,
      Option.some.inj hb, hfb]

section Path

variable {r : α → α → Prop} {a b : α}

/-- A path from `a` to `b` that passes no element twice. -/
structure SimplePath (r : α → α → Prop) (a b : α) (l : List α) : Prop where
  head : l.head? = some a
  last : l.getLast? = some b
  steps : l.IsChain r
  nodup : l.Nodup

/-- A detour back to an element is left out. -/
theorem SimplePath.exists_cons {c : α} {l : List α} (h : SimplePath r c b l) (hac : r a c) :
    ∃ l, SimplePath r a b l := by
  by_cases ha : a ∈ l
  · obtain ⟨before, after, rfl⟩ := List.append_of_mem ha
    refine ⟨a :: after, rfl, ?_, h.steps.right_of_append, h.nodup.of_append_right⟩
    have hlast := h.last
    rwa [List.getLast?_append_of_ne_nil _ (List.cons_ne_nil a after)] at hlast
  · refine ⟨a :: l, rfl, ?_, ?_, List.nodup_cons.mpr ⟨ha, h.nodup⟩⟩
    · rw [List.getLast?_cons, h.last, Option.getD_some]
    · apply List.IsChain.cons h.steps
      intro y hy
      rw [h.head, Option.mem_some_iff] at hy
      exact hy ▸ hac

theorem exists_simplePath (h : Relation.ReflTransGen r a b) : ∃ l, SimplePath r a b l := by
  induction h using Relation.ReflTransGen.head_induction_on with
  | refl => exact ⟨[b], rfl, rfl, List.isChain_singleton b, List.nodup_singleton b⟩
  | head hac _ ih =>
    obtain ⟨l, hl⟩ := ih
    exact hl.exists_cons hac

end Path

section Return

variable {a : α}

/-- What comes back to where it began has gone around a ring. -/
theorem exists_isRing (h : Relation.TransGen (fun b c => f b = some c) a a) :
    ∃ l, IsRing f a l := by
  obtain ⟨b, hab, hba⟩ := Relation.TransGen.head'_iff.mp h
  obtain ⟨l, hl⟩ := exists_simplePath hba
  obtain ⟨l, rfl⟩ := List.getLast?_eq_some_iff.mp hl.last
  have hround : Follows f ((a :: l) ++ [a]) := by
    apply List.IsChain.cons hl.steps
    intro y hy
    rw [hl.head, Option.mem_some_iff] at hy
    exact hy ▸ hab
  obtain ⟨hfollows, -, hclose⟩ := List.isChain_append.mp hround
  have hlast : (a :: l).getLast? = some ((a :: l).getLast (List.cons_ne_nil a l)) :=
    List.getLast?_eq_some_getLast _
  refine ⟨a :: l, rfl, hfollows, ?_, _, hlast, hclose _ hlast a rfl⟩
  exact (List.perm_append_singleton a l).nodup_iff.mp hl.nodup

/-- Around a ring and back. -/
theorem IsRing.returns {l : List α} (h : IsRing f a l) :
    Relation.TransGen (fun b c => f b = some c) a a := by
  have hne : l ≠ [] := List.ne_nil_of_mem h.mem
  obtain ⟨b, hb, hclose⟩ := h.closes
  have hhead : l.head hne = a := Option.some.inj ((List.head?_eq_some_head hne).symm.trans h.head)
  have hlast : l.getLast hne = b :=
    Option.some.inj ((List.getLast?_eq_some_getLast hne).symm.trans hb)
  have hwalk := l.relationReflTransGen_of_exists_isChain h.follows hne
  rw [hhead, hlast] at hwalk
  exact .tail' hwalk hclose

end Return

section Cyclic

variable {k : ℕ} {r : Fin (k + 1) → α}

/-- Elements numbered in a circle, each with the next as its image, form a ring from any of them. -/
theorem isRing_ofFn (inj : Function.Injective r) (next : ∀ i, f (r i) = some (r (i + 1)))
    (i : Fin (k + 1)) : IsRing f (r i) (List.ofFn fun j => r (i + j)) where
  head := by simp
  follows := by
    rw [Follows, List.isChain_iff_getElem]
    intro n hn
    simp only [List.length_ofFn] at hn
    simp only [List.getElem_ofFn, next, Option.some.injEq]
    congr 1
    rw [add_assoc]
    congr 1
    ext
    rw [Fin.val_add_one_of_lt (Fin.lt_def.mpr (by simpa using Nat.lt_of_succ_lt_succ hn))]
  nodup := List.nodup_ofFn.mpr (inj.comp (add_right_injective i))
  closes := by
    refine ⟨r (i + Fin.last k), ?_, ?_⟩
    · rw [List.getLast?_eq_some_getLast (mt List.ofFn_eq_nil_iff.mp (Nat.succ_ne_zero k)),
        List.getLast_ofFn_succ]
    · rw [next, add_assoc, Fin.last_add_one, add_zero]

/-- A ring through one of them has them all, when each has no image but the next. -/
theorem IsRing.mem_cyclic {i : Fin (k + 1)} {l : List α} (h : IsRing f (r i) l)
    (next : ∀ j b, f (r j) = some b → b = r (j + 1)) (j : Fin (k + 1)) : r j ∈ l := by
  have step (j : Fin (k + 1)) (hj : r j ∈ l) : r (j + 1) ∈ l := by
    obtain ⟨b, hb, hjb⟩ := h.image hj
    exact next j b hjb ▸ hb
  have reached (n : ℕ) : r (i + Fin.ofNat (k + 1) n) ∈ l := by
    induction n with
    | zero => simpa using h.mem
    | succ n ih =>
      have hn : Fin.ofNat (k + 1) (n + 1) = Fin.ofNat (k + 1) n + 1 := by
        ext
        simp [Fin.val_add]
      rw [hn, ← add_assoc]
      exact step _ ih
  simpa using reached (j - i).val

end Cyclic

end LibiFleet
