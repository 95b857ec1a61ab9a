import Mathlib.Data.List.Basic

/-!
# Documents

Values in sequences and mappings, as a reader of YAML or JSON hands them over, and the writing of
a field in place. A mapping is a list of its entries, of which the first with a key counts.
-/

namespace LibiFleet

section Entries

variable {K V : Type} [DecidableEq K]

/-- The entries with `v` under `k`: in the place of what was there, or at the end. -/
def put (k : K) (v : V) : List (K × V) → List (K × V)
  | [] => [(k, v)]
  | e :: m => if e.1 = k then (k, v) :: m else e :: put k v m

theorem lookup_entry (k k' : K) (v : V) (m : List (K × V)) :
    ((k', v) :: m).lookup k = if k' = k then some v else m.lookup k := by
  by_cases h : k' = k
  · simp [h]
  · have hne : (k == k') = false := beq_eq_false_iff_ne.mpr (Ne.symm h)
    rw [List.lookup_cons, hne, if_neg h]

theorem lookup_put (k k' : K) (v : V) (m : List (K × V)) :
    (put k v m).lookup k' = if k = k' then some v else m.lookup k' := by
  induction m with
  | nil => simp [put, lookup_entry]
  | cons e m ih =>
    obtain ⟨l, w⟩ := e
    rw [put]
    split
    · rename_i h
      obtain rfl : l = k := h
      rw [lookup_entry, lookup_entry]
      split <;> rfl
    · rename_i h
      rw [lookup_entry, ih, lookup_entry]
      split
      · rename_i hl
        rw [if_neg fun hk => h (hl.trans hk.symm)]
      · rfl

/-- What is written back changes nothing. -/
theorem put_lookup {k : K} {v : V} {m : List (K × V)} (h : m.lookup k = some v) :
    put k v m = m := by
  induction m with
  | nil => cases h
  | cons e m ih =>
    obtain ⟨l, w⟩ := e
    rw [lookup_entry] at h
    rw [put]
    split
    · rename_i hl
      rw [if_pos hl] at h
      rw [← Option.some.inj h, ← show l = k from hl]
    · rename_i hl
      rw [if_neg hl] at h
      rw [ih h]

/-- A key that is there keeps its place. -/
theorem put_keys {k : K} {v w : V} {m : List (K × V)} (h : m.lookup k = some v) :
    (put k w m).map (·.1) = m.map (·.1) := by
  induction m with
  | nil => cases h
  | cons e m ih =>
    obtain ⟨l, u⟩ := e
    rw [lookup_entry] at h
    rw [put]
    split
    · rename_i hl
      rw [List.map_cons, List.map_cons, show l = k from hl]
    · rename_i hl
      rw [if_neg hl] at h
      rw [List.map_cons, List.map_cons, ih h]

theorem put_append {k : K} {v : V} {m m' : List (K × V)} (h : k ∉ m.map (·.1)) :
    put k v (m ++ m') = m ++ put k v m' := by
  induction m with
  | nil => rfl
  | cons e m ih =>
    rw [List.map_cons, List.mem_cons, not_or] at h
    rw [List.cons_append, put, if_neg (Ne.symm h.1), ih h.2, List.cons_append]

theorem put_new {k : K} {v : V} {m : List (K × V)} (h : k ∉ m.map (·.1)) :
    put k v m = m ++ [(k, v)] := by
  calc put k v m
    _ = put k v (m ++ []) := by rw [List.append_nil]
    _ = m ++ [(k, v)] := put_append h

/-- Where no key comes twice, every entry counts. -/
theorem lookup_of_mem {m : List (K × V)} (hm : (m.map (·.1)).Nodup) {e : K × V} (he : e ∈ m) :
    m.lookup e.1 = some e.2 := by
  induction m with
  | nil => cases he
  | cons l m ih =>
    rw [List.map_cons, List.nodup_cons] at hm
    rw [lookup_entry]
    cases he with
    | head => rw [if_pos rfl]
    | tail _ he =>
      have hne : l.1 ≠ e.1 := by
        intro h
        exact hm.1 (h ▸ List.mem_map_of_mem he)
      rw [if_neg hne, ih hm.2 he]

theorem lookup_iff_mem {m : List (K × V)} (hm : (m.map (·.1)).Nodup) {k : K} {v : V} :
    m.lookup k = some v ↔ (k, v) ∈ m := by
  constructor
  · intro h
    obtain ⟨l₁, l₂, rfl, -⟩ := List.lookup_eq_some_iff.mp h
    simp
  · exact fun h => lookup_of_mem hm h

/-- Keys and values may be written in another way that keeps the keys apart. -/
theorem lookup_map {K' V' : Type} [DecidableEq K'] {f : K → K'} (hf : f.Injective) (g : V → V')
    (m : List (K × V)) (k : K) :
    (m.map fun e => (f e.1, g e.2)).lookup (f k) = (m.lookup k).map g := by
  induction m with
  | nil => rfl
  | cons e m ih =>
    obtain ⟨l, v⟩ := e
    rw [List.map_cons, lookup_entry, lookup_entry, ih]
    by_cases h : l = k
    · rw [if_pos (congrArg f h), if_pos h, Option.map_some]
    · rw [if_neg (hf.ne h), if_neg h]

end Entries

/-! ## Documents -/

inductive Document (S : Type)
  | scalar (value : S)
  | seq (items : List (Document S))
  | map (entries : List (S × Document S))

namespace Document

variable {S : Type} [DecidableEq S]

/-- `d[k]`, read; `none` if `d` is no mapping or has no such key. -/
def field (k : S) : Document S → Option (Document S)
  | map m => m.lookup k
  | _ => none

/-- `d[k] = v`. -/
def assign (d : Document S) (k : S) (v : Document S) : Option (Document S) :=
  match d with
  | map m => some (map (put k v m))
  | _ => none

/-- `d[k₁][k₂]…` -/
def follow : List S → Document S → Option (Document S)
  | [], d => some d
  | k :: ks, d => (d.field k).bind (follow ks)

/-- The document in which `f` has been at the part that the path leads to. -/
def within (f : Document S → Option (Document S)) : List S → Document S → Option (Document S)
  | [], d => f d
  | k :: ks, d => (d.field k).bind fun e => (within f ks e).bind fun e => d.assign k e

/-- Two mappings with the same keys in the same order, and the same under each key but these. -/
def SameBut (keys : S → Prop) : Document S → Document S → Prop
  | map m, map m' => m.map (·.1) = m'.map (·.1) ∧ ∀ k, ¬ keys k → m.lookup k = m'.lookup k
  | _, _ => False

/-- The documents are the same but for what is under `keys` in the part that the path leads to. -/
def SameOutside (keys : S → Prop) : List S → Document S → Document S → Prop
  | [], d, d' => d.SameBut keys d'
  | k :: ks, d, d' => d.SameBut (· = k) d' ∧
      ∃ e e', d.field k = some e ∧ d'.field k = some e' ∧ SameOutside keys ks e e'

section

variable {d d' d'' e v : Document S} {k : S} {keys : S → Prop}
  {f : Document S → Option (Document S)}

theorem assign_isSome (h : d.field k = some e) (v : Document S) : ∃ d', d.assign k v = some d' := by
  cases d with
  | scalar | seq => cases h
  | map m => exact ⟨_, rfl⟩

theorem field_assign (h : d.assign k v = some d') (k' : S) :
    d'.field k' = if k = k' then some v else d.field k' := by
  cases d with
  | scalar | seq => cases h
  | map m =>
    obtain rfl := Option.some.inj h
    exact lookup_put ..

theorem field_assign_self (h : d.assign k v = some d') : d'.field k = some v := by
  rw [field_assign h, if_pos rfl]

/-- What is written back changes nothing. -/
theorem assign_field (h : d.field k = some v) : d.assign k v = some d := by
  cases d with
  | scalar | seq => cases h
  | map m => rw [assign, put_lookup h]

theorem SameBut.refl_of (h : d.field k = some e) : d.SameBut keys d := by
  cases d with
  | scalar | seq => cases h
  | map m => exact ⟨rfl, fun _ _ => rfl⟩

theorem SameBut.trans (h : d.SameBut keys d') (h' : d'.SameBut keys d'') :
    d.SameBut keys d'' := by
  cases d with
  | scalar | seq => exact h.elim
  | map m =>
    cases d' with
    | scalar | seq => exact h.elim
    | map m' =>
      cases d'' with
      | scalar | seq => exact h'.elim
      | map m'' => exact ⟨h.1.trans h'.1, fun k hk => (h.2 k hk).trans (h'.2 k hk)⟩

/-- Writing a field leaves the others alone. -/
theorem assign_sameBut (h : d.field k = some e) (hd : d.assign k v = some d') (hk : keys k) :
    d.SameBut keys d' := by
  cases d with
  | scalar | seq => cases h
  | map m =>
    obtain rfl := Option.some.inj hd
    refine ⟨(put_keys h).symm, ?_⟩
    intro k' hk'
    rw [lookup_put, if_neg]
    rintro rfl
    exact hk' hk

theorem SameOutside.refl_of {path : List S} : ∀ {d : Document S}, d.follow path = some e →
    e.field k = some v → SameOutside keys path d d := by
  induction path with
  | nil =>
    intro d he hv
    obtain rfl := Option.some.inj he
    exact SameBut.refl_of hv
  | cons k' ks ih =>
    intro d he hv
    obtain ⟨u, hu, he⟩ := Option.bind_eq_some_iff.mp he
    exact ⟨SameBut.refl_of hu, u, u, hu, hu, ih he hv⟩

theorem SameOutside.trans {path : List S} : ∀ {d d' d'' : Document S},
    SameOutside keys path d d' → SameOutside keys path d' d'' → SameOutside keys path d d'' := by
  induction path with
  | nil => exact SameBut.trans
  | cons k ks ih =>
    intro d d' d'' h h'
    obtain ⟨hd, e, e', he, he', hsame⟩ := h
    obtain ⟨hd', e₁, e'', he₁, he'', hsame'⟩ := h'
    obtain rfl := Option.some.inj (he'.symm.trans he₁)
    exact ⟨hd.trans hd', e, e'', he, he'', ih hsame hsame'⟩

/-- The part that the path leads to, before and after. -/
theorem within_spec {path : List S} : ∀ {d d' : Document S}, within f path d = some d' →
    ∃ e e', d.follow path = some e ∧ f e = some e' ∧ d'.follow path = some e' := by
  induction path with
  | nil => exact fun h => ⟨_, _, rfl, h, rfl⟩
  | cons k ks ih =>
    intro d d' h
    obtain ⟨e, he, h⟩ := Option.bind_eq_some_iff.mp h
    obtain ⟨e', he', h⟩ := Option.bind_eq_some_iff.mp h
    obtain ⟨u, u', hu, hf, hu'⟩ := ih he'
    refine ⟨u, u', ?_, hf, ?_⟩
    · rw [follow, he, Option.bind_some, hu]
    · rw [follow, field_assign_self h, Option.bind_some, hu']

theorem within_isSome {path : List S} : ∀ {d e e' : Document S}, d.follow path = some e →
    f e = some e' → ∃ d', within f path d = some d' := by
  induction path with
  | nil =>
    intro d e e' he hf
    obtain rfl := Option.some.inj he
    exact ⟨e', hf⟩
  | cons k ks ih =>
    intro d e e' he hf
    obtain ⟨u, hu, he⟩ := Option.bind_eq_some_iff.mp he
    obtain ⟨u', hu'⟩ := ih he hf
    obtain ⟨d', hd'⟩ := assign_isSome hu u'
    exact ⟨d', by rw [within, hu, Option.bind_some, hu', Option.bind_some, hd']⟩

/-- What leaves the part as it is leaves the document as it is. -/
theorem within_same {path : List S} : ∀ {d e : Document S}, d.follow path = some e →
    f e = some e → within f path d = some d := by
  induction path with
  | nil =>
    intro d e he hf
    obtain rfl := Option.some.inj he
    exact hf
  | cons k ks ih =>
    intro d e he hf
    obtain ⟨u, hu, he⟩ := Option.bind_eq_some_iff.mp he
    rw [within, hu, Option.bind_some, ih he hf, Option.bind_some, assign_field hu]

/-- What keeps to the fields `keys` of the part keeps to them in the document. -/
theorem within_outside {path : List S} : ∀ {d d' e e' : Document S}, within f path d = some d' →
    d.follow path = some e → f e = some e' → e.SameBut keys e' → SameOutside keys path d d' := by
  induction path with
  | nil =>
    intro d d' e e' h he hf inside
    obtain rfl := Option.some.inj he
    obtain rfl := Option.some.inj (h.symm.trans hf)
    exact inside
  | cons k ks ih =>
    intro d d' e e' h he hf inside
    obtain ⟨u, hu, h⟩ := Option.bind_eq_some_iff.mp h
    obtain ⟨u', hu', h⟩ := Option.bind_eq_some_iff.mp h
    rw [follow, hu, Option.bind_some] at he
    exact ⟨assign_sameBut hu h rfl, u, u', hu, field_assign_self h, ih hu' he hf inside⟩

end

end Document

end LibiFleet
